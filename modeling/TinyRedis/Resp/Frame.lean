import TinyRedis.Resp.Model

/-!
# Requests from the head of a buffer

The parser works with positions in the buffer. The same functions on what is left of the buffer are
easier to reason about: `splitLine` takes a line off, `decodeBulk` an element of a multibulk
request, and `decodeRequest` a request. `tryParseOne_eq` says that they are what the parser
computes.
-/

namespace TinyRedis.Resp

open Lib Lib.Incremental

variable {buf rest line l : Bytes} {pos : ℕ}

/-- The bytes before the first LF. -/
def upToLf (b : Bytes) : Bytes := b.takeWhile (· != kLF)

/-- A line without the CR at its end. -/
def dropCr (l : Bytes) : Bytes := if l.getLast? = some kCR then l.dropLast else l

/-- The first line, without its end, and what follows it. -/
def splitLine (b : Bytes) : Option (Bytes × Bytes) :=
  match b.dropWhile (· != kLF) with
  | [] => none
  | _ :: rest => some (dropCr (upToLf b), rest)

/-- One element of a multibulk request. -/
def decodeBulk (b : Bytes) : Incremental.Outcome UInt8 Bytes Bytes :=
  match b.head? with
  | none => .incomplete
  | some c =>
    if c ≠ 36 then .error (bytes "ERR Protocol error: expected '$', got '" ++ [c] ++ bytes "'")
    else
      match splitLine b with
      | none =>
        if 32 < b.length then .error (bytes "ERR Protocol error: invalid bulk length")
        else .incomplete
      | some (line, rest) =>
        match parseLength (line.drop 1) with
        | none => .error (bytes "ERR Protocol error: invalid bulk length")
        | some bulkLen =>
          if bulkLen < 0 ∨ (kMaxBulkBytes : ℤ) < bulkLen then
            .error (bytes "ERR Protocol error: invalid bulk length")
          else if rest.length < bulkLen.toNat + 2 then .incomplete
          else if rest[bulkLen.toNat]? ≠ some kCR ∨ rest[bulkLen.toNat + 1]? ≠ some kLF then
            .error (bytes "ERR Protocol error: expected CRLF after bulk data")
          else .done (rest.take bulkLen.toNat) (rest.drop (bulkLen.toNat + 2))

/-- The elements of a multibulk request. -/
def decodeBulks : ℕ → Bytes → List Bytes → Outcome
  | 0, b, out => .done out b
  | k + 1, b, out => (decodeBulk b).bind fun s rest => decodeBulks k rest (out ++ [s])

/-- The number of elements of a multibulk request. -/
def decodeCount (buf : Bytes) : Incremental.Outcome UInt8 ℕ Bytes :=
  match splitLine buf with
  | none =>
    if 32 < buf.length then .error (bytes "ERR Protocol error: invalid multibulk length")
    else .incomplete
  | some (line, rest) =>
    match parseLength (line.drop 1) with
    | none => .error (bytes "ERR Protocol error: invalid multibulk length")
    | some count =>
      if (kMaxMultiBulkElements : ℤ) < count then
        .error (bytes "ERR Protocol error: invalid multibulk length")
      else .done count.toNat rest

/-- A request that starts with `*`. -/
def decodeMultiBulk (buf : Bytes) : Outcome :=
  (decodeCount buf).bind fun count rest => decodeBulks count rest []

/-- A request that does not. -/
def decodeInline (buf : Bytes) : Outcome :=
  match splitLine buf with
  | none =>
    if kMaxInlineBytes < buf.length then
      .error (bytes "ERR Protocol error: too big inline request")
    else .incomplete
  | some (line, rest) => .done (splitWords line.length line) rest

/-- A request. -/
def decodeRequest (buf : Bytes) : Outcome :=
  match buf.head? with
  | none => .incomplete
  | some c => if c = 42 then decodeMultiBulk buf else decodeInline buf

/-! ## Lines -/

/-- A final carriage return is dropped. -/
theorem dropCr_append (l : Bytes) : dropCr (l ++ [kCR]) = l := by simp [dropCr]

/-- The bytes before the first line feed. -/
theorem upToLf_append (hl : kLF ∉ l) : upToLf (l ++ kLF :: rest) = l := by
  have hpos : ∀ c ∈ l, (c != kLF) = true := fun c hc => by
    rw [bne_iff_ne]
    rintro rfl
    exact hl hc
  unfold upToLf
  rw [List.takeWhile_append_of_pos hpos]
  simp

/-- The first line of a buffer with an LF. -/
theorem splitLine_append (hl : kLF ∉ l) : splitLine (l ++ kLF :: rest) = some (dropCr l, rest) := by
  have hpos : ∀ c ∈ l, (c != kLF) = true := fun c hc => by
    rw [bne_iff_ne]
    rintro rfl
    exact hl hc
  unfold splitLine
  rw [upToLf_append hl, List.dropWhile_append_of_pos hpos]
  simp

/-- Without a line feed there is no line. -/
theorem splitLine_of_notMem (h : kLF ∉ buf) : splitLine buf = none := by
  have hd : buf.dropWhile (· != kLF) = [] := by
    rw [List.dropWhile_eq_nil_iff]
    intro c hc
    rw [bne_iff_ne]
    rintro rfl
    exact h hc
  unfold splitLine
  rw [hd]

/-- Without an LF there is no end of the line. -/
theorem scanLine_of_notMem (b : Bytes) (h : kLF ∉ b) (i : ℕ) (sawCr : Bool) :
    scanLine b i sawCr = none := by
  induction b generalizing i sawCr with
  | nil => rfl
  | cons c cs ih =>
    have hc : c ≠ kLF := fun hc => h (by rw [hc]; exact List.mem_cons_self)
    have hcs : kLF ∉ cs := fun hcs => h (List.mem_cons_of_mem c hcs)
    unfold scanLine
    rw [if_neg hc, ih hcs, ih hcs, ite_self]

/-- Whether the last byte of a line is CR, for a line of which some was read before. -/
def lastCr : Bool → Bytes → Bool
  | sawCr, [] => sawCr
  | _, c :: cs => lastCr (c == kCR) cs

/-- The scan stops at the LF, or at the CR in front of it. -/
theorem scanLine_append (l : Bytes) (hl : kLF ∉ l) (rest : Bytes) (i : ℕ) (sawCr : Bool) :
    scanLine (l ++ kLF :: rest) i sawCr =
      some (if lastCr sawCr l then i + l.length - 1 else i + l.length) := by
  induction l generalizing i sawCr with
  | nil =>
    rw [List.nil_append, scanLine, if_neg (by decide), if_pos rfl]
    rfl
  | cons c cs ih =>
    have hc : c ≠ kLF := fun hc => hl (by rw [hc]; exact List.mem_cons_self)
    have hcs : kLF ∉ cs := fun hcs => hl (List.mem_cons_of_mem c hcs)
    have hlen : i + 1 + cs.length = i + (c :: cs).length := by rw [List.length_cons]; omega
    rw [List.cons_append, scanLine]
    by_cases hcr : c = kCR
    · rw [if_pos hcr, ih hcs, hlen, hcr]
      rfl
    · rw [if_neg hcr, if_neg hc, ih hcs, hlen, lastCr, beq_eq_false_iff_ne.2 hcr]

/-- `lastCr` says whether the line ends in a carriage return. -/
theorem lastCr_false (l : Bytes) : lastCr false l = decide (l.getLast? = some kCR) := by
  have hcons : ∀ (cs : Bytes) (c : UInt8),
      lastCr (c == kCR) cs = decide ((c :: cs).getLast? = some kCR) := by
    intro cs
    induction cs with
    | nil => intro c; simp [lastCr, beq_eq_decide]
    | cons d cs ih =>
      intro c
      rw [lastCr, ih d, List.getLast?_cons_cons]
  cases l with
  | nil => rfl
  | cons c cs => exact hcons cs c

/-- What the parser does with a line at a position is what `splitLine` does with the rest of the
buffer. -/
theorem scanLine_drop (buf : Bytes) (pos : ℕ) :
    (splitLine (buf.drop pos) = none ∧ scanLine (buf.drop pos) pos false = none) ∨
    ∃ line rest e, splitLine (buf.drop pos) = some (line, rest) ∧
      scanLine (buf.drop pos) pos false = some e ∧ e = pos + line.length ∧
      (buf.drop pos).take line.length = line ∧
      buf.drop (e + if isCrLfAt buf e then 2 else 1) = rest ∧
      (e + if isCrLfAt buf e then 2 else 1) ≤ buf.length := by
  by_cases hmem : kLF ∈ buf.drop pos
  · right
    obtain ⟨l, rest, hb, hl⟩ := List.eq_append_cons_of_mem hmem
    have hget : ∀ k, buf[pos + k]? = (l ++ kLF :: rest)[k]? := fun k => by
      rw [← hb, List.getElem?_drop]
    have hlen : pos + l.length + 1 ≤ buf.length := by
      have h1 := congrArg List.length hb
      rw [List.length_drop, List.length_append, List.length_cons] at h1
      omega
    have hrest : buf.drop (pos + (l.length + 1)) = rest := by
      rw [← List.drop_drop, hb]
      simp
    rw [hb, splitLine_append hl, scanLine_append l hl, lastCr_false]
    by_cases hcr : l.getLast? = some kCR
    · -- The line ends in CR LF.
      obtain ⟨line, rfl⟩ : ∃ line, l = line ++ [kCR] :=
        ⟨l.dropLast, (List.dropLast_append_getLast? kCR hcr).symm⟩
      have hline := dropCr_append line
      have hat : isCrLfAt buf (pos + line.length) = true := by
        have h1 := hget line.length
        have h2 := hget (line.length + 1)
        rw [List.append_assoc, List.getElem?_append_right (by omega)] at h1 h2
        simp only [Nat.sub_self, Nat.add_sub_cancel_left, List.cons_append,
          List.getElem?_cons_zero, List.getElem?_cons_succ, List.nil_append] at h1 h2
        rw [List.length_append, List.length_singleton] at hlen
        unfold isCrLfAt
        rw [h1, Nat.add_assoc, h2,
          decide_eq_true (show pos + (line.length + 1) < buf.length by omega)]
        rfl
      rw [List.length_append, List.length_singleton] at hlen hrest
      refine ⟨line, rest, pos + line.length, by rw [hline], ?_, rfl, by simp, ?_⟩
      · rw [decide_eq_true hcr]
        simp
      · rw [hat, ← hrest]
        exact ⟨rfl, hlen⟩
    · -- The line ends in LF alone.
      have hline : dropCr l = l := by simp [dropCr, hcr]
      have hat : isCrLfAt buf (pos + l.length) = false := by
        have h1 := hget l.length
        rw [List.getElem?_append_right (by omega), Nat.sub_self, List.getElem?_cons_zero] at h1
        unfold isCrLfAt
        rw [h1]
        simp [kCR, kLF]
      refine ⟨l, rest, pos + l.length, by rw [hline], by simp [hcr], rfl, by simp, ?_⟩
      rw [hat, ← hrest]
      exact ⟨rfl, hlen⟩
  · left
    exact ⟨splitLine_of_notMem hmem, scanLine_of_notMem _ hmem _ _⟩

/-! ## The parser on what is left of the buffer -/

/-- The parser at a position decodes the rest of the buffer. -/
theorem parseBulks_eq (buf : Bytes) (k pos : ℕ) (out : List Bytes) :
    parseBulks buf k pos out = decodeBulks k (buf.drop pos) out := by
  induction k generalizing pos out with
  | zero => rfl
  | succ k ih =>
    unfold parseBulks decodeBulks decodeBulk
    rw [List.head?_drop, List.length_drop]
    cases buf[pos]? with
    | none => rfl
    | some c =>
      dsimp only
      by_cases hc : c ≠ 36
      · rw [if_pos hc, if_pos hc]
        rfl
      · rw [if_neg hc, if_neg hc]
        rcases scanLine_drop buf pos with ⟨h1, h2⟩ | ⟨line, rest, e, h1, h2, he, hline, hrest, hle⟩
        · rw [h1, h2]
          dsimp only
          split_ifs <;> rfl
        · have hlen : (buf.drop (pos + 1)).take (e - (pos + 1)) = line.drop 1 := by
            rw [← List.drop_drop, ← hline, List.drop_take, he]
            congr 1
            omega
          simp only [h1, h2, hlen]
          cases parseLength (line.drop 1) with
          | none => rfl
          | some n =>
            dsimp only
            generalize e + (if isCrLfAt buf e then 2 else 1) = after at hrest hle
            have hcond : buf.length < after + (n.toNat + 2) ↔ rest.length < n.toNat + 2 := by
              rw [← hrest, List.length_drop]
              omega
            have hget : ∀ j, buf[after + j]? = rest[j]? := fun j => by
              rw [← hrest, List.getElem?_drop]
            have hnext : buf.drop (after + (n.toNat + 2)) = rest.drop (n.toNat + 2) := by
              rw [← List.drop_drop, hrest]
            simp only [Nat.add_assoc after, hcond, hget, ih, hnext, hrest]
            split_ifs <;> rfl

/-- The multi-bulk parser is its decoder. -/
theorem tryParseMultiBulk_eq (buf : Bytes) : tryParseMultiBulk buf = decodeMultiBulk buf := by
  unfold tryParseMultiBulk decodeMultiBulk decodeCount peekLine
  rcases scanLine_drop buf 0 with ⟨h1, h2⟩ | ⟨line, rest, e, h1, h2, he, hline, hrest, hle⟩
  · rw [List.drop_zero] at h1 h2
    rw [h1, h2]
    dsimp only
    split_ifs <;> rfl
  · rw [List.drop_zero] at h1 h2 hline
    rw [Nat.zero_add] at he
    have hnum : (buf.drop 1).take (e - 1) = line.drop 1 := by
      rw [← hline, List.drop_take, he]
    simp only [h1, h2, hnum]
    cases parseLength (line.drop 1) with
    | none => rfl
    | some count =>
      dsimp only
      generalize e + (if isCrLfAt buf e then 2 else 1) = after at hrest hle
      by_cases hbig : (kMaxMultiBulkElements : ℤ) < count
      · rw [if_pos hbig, if_pos hbig]
        rfl
      · rw [if_neg hbig, if_neg hbig, parseBulks_eq, hrest]
        by_cases hcount : count ≤ 0
        · rw [if_pos hcount, Int.toNat_of_nonpos hcount]
          rfl
        · rw [if_neg hcount, if_neg (by omega)]
          rfl

/-- The inline parser is its decoder. -/
theorem tryParseInline_eq (buf : Bytes) : tryParseInline buf = decodeInline buf := by
  unfold tryParseInline decodeInline peekLine
  rcases scanLine_drop buf 0 with ⟨h1, h2⟩ | ⟨line, rest, e, h1, h2, he, hline, hrest, -⟩
  · rw [List.drop_zero] at h1 h2
    rw [h1, h2]
  · rw [List.drop_zero] at h1 h2 hline
    rw [Nat.zero_add] at he
    simp only [h1, h2, hrest]
    rw [he, hline]

/-- The parser takes requests from the head of its buffer. -/
theorem tryParseOne_eq : tryParseOne = decodeRequest := by
  funext buf
  unfold tryParseOne decodeRequest
  cases buf with
  | nil => rfl
  | cons c cs => rw [tryParseMultiBulk_eq, tryParseInline_eq, List.head?_cons]

end TinyRedis.Resp

import TinyRedis.Resp.Grammar

/-!
# How a stream is cut into chunks

A chunk can end anywhere: between CR and LF, inside a number, inside a payload. What the parser says
of the part it has seen is right for the whole stream, with one exception. A line that has not ended
yet is an error when it is too long already, while a line that has ended may be of any length. So
the lines have to be short enough, those of the request headers and the inline requests.

`streamLines` are these lines. It follows the stream from request to request, over the payloads, to
its end or to the first error.
-/

namespace TinyRedis.Resp

open Lib Lib.Incremental List

variable {buf rest more line msg : Bytes} {c : UInt8} {k : ℕ} {out : List Bytes}

/-! ## The lines of a stream -/

/-- What a line is. -/
inductive LineKind where
  | inline
  | multibulkCount
  | bulkLength
  deriving DecidableEq, Repr

/-- The number of bytes that a line of this kind may have before its LF. -/
def LineKind.limit : LineKind → ℕ
  | .inline => kMaxInlineBytes
  | .multibulkCount => 32
  | .bulkLength => 32

/-- A line, with its number of bytes before the LF or before the end of the stream. -/
abbrev Line := LineKind × ℕ

/-- The line at the head of a stream. -/
def lineOf (kind : LineKind) (s : Bytes) : Line := (kind, (upToLf s).length)

/-- The lines of the elements of a multibulk request, and the stream after it if it is complete. -/
def bulkLines : ℕ → Bytes → List Line × Option Bytes
  | 0, s => ([], some s)
  | k + 1, s =>
    if s.head? ≠ some 36 then ([], none)
    else
      match decodeBulk s with
      | .done _ rest =>
        let (ls, rest) := bulkLines k rest
        (lineOf .bulkLength s :: ls, rest)
      | _ => ([lineOf .bulkLength s], none)

/-- The lines of a request, and the stream after it if it is complete. -/
def requestLines (s : Bytes) : List Line × Option Bytes :=
  match s.head? with
  | none => ([], none)
  | some c =>
    if c = 42 then
      match decodeCount s with
      | .done count rest =>
        let (ls, rest) := bulkLines count rest
        (lineOf .multibulkCount s :: ls, rest)
      | _ => ([lineOf .multibulkCount s], none)
    else
      match splitLine s with
      | some (_, rest) => ([lineOf .inline s], some rest)
      | none => ([lineOf .inline s], none)

/-- The lines of a request as an item of the stream. -/
def decodeLines (s : Bytes) : Incremental.Outcome UInt8 (List Line) (List Line) :=
  match requestLines s with
  | (ls, some rest) => .done ls rest
  | (ls, none) => .error ls

/-- The lines of all requests of a stream. -/
def streamLines (s : Bytes) : List Line :=
  let (lines, _, last) := drainAll decodeLines s
  lines.flatten ++ last.getD []

/-- All lines of a stream are short enough. -/
def LinesFit (s : Bytes) : Prop := ∀ l ∈ streamLines s, l.2 ≤ l.1.limit

/-- Whether the lines fit is decidable. -/
instance : DecidablePred LinesFit := fun s => inferInstanceAs (Decidable (∀ l ∈ streamLines s, _))

/-! ## More input -/

/-- More input leaves the first line as it is. -/
theorem splitLine_more (h : splitLine buf = some (line, rest)) :
    splitLine (buf ++ more) = some (line, rest ++ more) := by
  obtain ⟨l, hl, rfl, rfl⟩ := splitLine_eq_some.1 h
  rw [append_assoc, cons_append, splitLine_append hl]

/-- A line takes at least its line feed. -/
theorem splitLine_shrinks (h : splitLine buf = some (line, rest)) : rest.length < buf.length := by
  obtain ⟨l, hl, rfl, rfl⟩ := splitLine_eq_some.1 h
  rw [length_append, length_cons]
  omega

/-- A line that has not ended yet only gets longer. -/
theorem length_le_of_splitLine (h : splitLine buf = none) (kind : LineKind) (more : Bytes) :
    buf.length ≤ (lineOf kind (buf ++ more)).2 := by
  have hmem := splitLine_eq_none.1 h
  have hpos : ∀ c ∈ buf, (c != kLF) = true := fun c hc => by
    rw [bne_iff_ne]
    rintro rfl
    exact hmem hc
  unfold lineOf upToLf
  rw [takeWhile_append_of_pos hpos, length_append]
  omega

/-- More input leaves the first byte as it is. -/
theorem head?_more (h : buf.head? = some c) : (buf ++ more).head? = some c := by
  rw [head?_append, h]
  rfl

/-- An element starts with `$`, and is not empty. -/
theorem decodeBulk_done {s : Bytes} (h : decodeBulk buf = .done s rest) :
    buf.head? = some 36 ∧ rest.length < buf.length := by
  obtain ⟨_, ⟨digits, eol, -, -, rfl⟩, -, rfl⟩ := decodeBulk_eq_done.1 h
  simp only [cons_append, length_cons, length_append]
  exact ⟨rfl, by omega⟩

/-- An element, with more input. -/
theorem decodeBulk_more (b more : Bytes)
    (hfit : b.head? = some 36 → (lineOf .bulkLength (b ++ more)).2 ≤ 32) :
    (decodeBulk b).Extends more (decodeBulk (b ++ more)) := by
  unfold decodeBulk
  cases hhead : b.head? with
  | none => trivial
  | some c =>
    rw [head?_more hhead]
    dsimp only
    by_cases hc : c ≠ 36
    · rw [if_pos hc, if_pos hc]
      rfl
    · rw [if_neg hc, if_neg hc]
      rw [not_not] at hc
      cases hline : splitLine b with
      | none =>
        -- The line fits, so it is not too long yet.
        have h1 := length_le_of_splitLine hline .bulkLength more
        have h2 := hfit (by rw [hhead, hc])
        dsimp only
        rw [if_neg (by omega)]
        trivial
      | some p =>
        obtain ⟨line, rest⟩ := p
        rw [splitLine_more hline]
        dsimp only
        cases parseLength (line.drop 1) with
        | none => rfl
        | some n =>
          dsimp only
          by_cases hn : n < 0 ∨ (kMaxBulkBytes : ℤ) < n
          · rw [if_pos hn, if_pos hn]
            rfl
          · rw [if_neg hn, if_neg hn]
            by_cases hlen : rest.length < n.toNat + 2
            · rw [if_pos hlen]
              trivial
            · have hlen' : ¬(rest ++ more).length < n.toNat + 2 := by
                rw [length_append]
                omega
              rw [if_neg hlen, if_neg hlen', getElem?_append_left (by omega),
                getElem?_append_left (by omega)]
              by_cases hend : rest[n.toNat]? ≠ some kCR ∨ rest[n.toNat + 1]? ≠ some kLF
              · rw [if_pos hend, if_pos hend]
                rfl
              · rw [if_neg hend, if_neg hend, take_append_of_le_length (by omega),
                  drop_append_of_le_length (by omega)]
                rfl

/-- The elements, with more input. -/
theorem decodeBulks_more (k : ℕ) (b more : Bytes) (out : List Bytes)
    (hfit : ∀ l ∈ (bulkLines k (b ++ more)).1, l.2 ≤ l.1.limit) :
    (decodeBulks k b out).Extends more (decodeBulks k (b ++ more) out) := by
  induction k generalizing b out with
  | zero => rfl
  | succ k ih =>
    unfold decodeBulks
    unfold bulkLines at hfit
    have hext := decodeBulk_more b more fun hhead => by
      rw [head?_more hhead, if_neg (by simp)] at hfit
      refine hfit (lineOf .bulkLength (b ++ more)) ?_
      split <;> simp
    refine hext.bind fun s rest hs => ih rest (out ++ [s]) ?_
    rw [hs] at hext
    have hs' : decodeBulk (b ++ more) = .done s (rest ++ more) := hext
    rw [if_neg (by simp [(decodeBulk_done hs').1]), hs'] at hfit
    exact fun l hl => hfit l (mem_cons_of_mem _ hl)

/-- The lines of the elements are complete where the elements are. -/
theorem bulkLines_eq_some :
    (bulkLines k buf).2 = some rest ↔ ∃ argv, decodeBulks k buf out = .done argv rest := by
  induction k generalizing buf out with
  | zero => simp [bulkLines, decodeBulks]
  | succ k ih =>
    unfold bulkLines decodeBulks
    cases hs : decodeBulk buf with
    | done s r =>
      rw [if_neg (by simp [(decodeBulk_done hs).1])]
      exact ih
    | incomplete => split_ifs <;> simp
    | error e => split_ifs <;> simp

/-- The number of elements, with more input. -/
theorem decodeCount_more (b more : Bytes)
    (hfit : (lineOf .multibulkCount (b ++ more)).2 ≤ 32) :
    (decodeCount b).Extends more (decodeCount (b ++ more)) := by
  unfold decodeCount
  cases hline : splitLine b with
  | none =>
    have := length_le_of_splitLine hline .multibulkCount more
    dsimp only
    rw [if_neg (by omega)]
    trivial
  | some p =>
    obtain ⟨line, rest⟩ := p
    rw [splitLine_more hline]
    dsimp only
    cases parseLength (line.drop 1) with
    | none => rfl
    | some n =>
      dsimp only
      split_ifs <;> rfl

/-- More input extends what the inline decoder says while its line fits. -/
theorem decodeInline_more (b more : Bytes)
    (hfit : (lineOf .inline (b ++ more)).2 ≤ kMaxInlineBytes) :
    (decodeInline b).Extends more (decodeInline (b ++ more)) := by
  unfold decodeInline
  cases hline : splitLine b with
  | none =>
    have := length_le_of_splitLine hline .inline more
    dsimp only
    rw [if_neg (by omega)]
    trivial
  | some p =>
    obtain ⟨line, rest⟩ := p
    rw [splitLine_more hline]
    rfl

/-! ## Requests -/

/-- A request is not empty. -/
theorem decodeRequest_shrinks : Shrinks decodeRequest := by
  intro buf argv rest h
  unfold decodeRequest at h
  cases hhead : buf.head? with
  | none => rw [hhead] at h; exact absurd h (by simp)
  | some c =>
    simp only [hhead] at h
    by_cases hc : c = 42
    · rw [if_pos hc] at h
      rw [hc] at hhead
      obtain ⟨_, _, ⟨⟨digits, eol, -, -, rfl⟩, -, -⟩, rfl⟩ := (decodeMultiBulk_eq_done hhead).1 h
      simp only [cons_append, length_cons, length_append]
      omega
    · rw [if_neg hc] at h
      unfold decodeInline at h
      cases hline : splitLine buf with
      | none =>
        simp only [hline] at h
        split_ifs at h
      | some p =>
        simp only [hline, Incremental.Outcome.done.injEq] at h
        rw [← h.2]
        exact splitLine_shrinks hline

/-- A request, with more input. -/
theorem decodeRequest_more (b more : Bytes)
    (hfit : ∀ l ∈ (requestLines (b ++ more)).1, l.2 ≤ l.1.limit) :
    (decodeRequest b).Extends more (decodeRequest (b ++ more)) := by
  unfold decodeRequest
  unfold requestLines at hfit
  cases hhead : b.head? with
  | none => trivial
  | some c =>
    rw [head?_more hhead] at hfit ⊢
    dsimp only at hfit ⊢
    by_cases hc : c = 42
    · rw [if_pos hc] at hfit ⊢
      rw [if_pos hc]
      have hext := decodeCount_more b more (by
        refine hfit (lineOf .multibulkCount (b ++ more)) ?_
        split <;> simp)
      refine hext.bind fun n rest hn => decodeBulks_more n rest more [] ?_
      rw [hn] at hext
      have hn' : decodeCount (b ++ more) = .done n (rest ++ more) := hext
      rw [hn'] at hfit
      exact fun l hl => hfit l (mem_cons_of_mem _ hl)
    · rw [if_neg hc] at hfit ⊢
      rw [if_neg hc]
      refine decodeInline_more b more (hfit (lineOf .inline (b ++ more)) ?_)
      split <;> simp

/-- The lines of a request are complete where the request is. -/
theorem requestLines_eq_some :
    (requestLines buf).2 = some rest ↔ ∃ argv, decodeRequest buf = .done argv rest := by
  unfold requestLines decodeRequest
  cases hhead : buf.head? with
  | none => simp
  | some c =>
    dsimp only
    by_cases hc : c = 42
    · rw [if_pos hc, if_pos hc, decodeMultiBulk]
      cases decodeCount buf with
      | done n r => exact bulkLines_eq_some
      | incomplete => simp
      | error e => simp
    · rw [if_neg hc, if_neg hc, decodeInline]
      cases splitLine buf with
      | none => dsimp only; split_ifs <;> simp
      | some p => simp

/-- The lines decoded are the lines of the request. -/
theorem decodeLines_done {ls : List Line} (h : decodeLines buf = .done ls rest) :
    requestLines buf = (ls, some rest) := by
  unfold decodeLines at h
  rcases hr : requestLines buf with ⟨ls', _ | rest'⟩
  · rw [hr] at h
    exact absurd h (by simp)
  · rw [hr] at h
    simp only [Incremental.Outcome.done.injEq] at h
    rw [h.1, h.2]

/-- A request decoded as lines takes at least one byte. -/
theorem decodeLines_shrinks : Shrinks decodeLines := by
  intro buf ls rest h
  obtain ⟨argv, hd⟩ := requestLines_eq_some.1 (congrArg Prod.snd (decodeLines_done h))
  exact decodeRequest_shrinks _ _ _ hd

/-- The lines of a stream start with the lines of its first request. -/
theorem streamLines_eq (s : Bytes) :
    streamLines s = (requestLines s).1 ++ ((requestLines s).2.map streamLines).getD [] := by
  rcases hr : requestLines s with ⟨ls, _ | rest⟩
  · have hd : decodeLines s = .error ls := by unfold decodeLines; rw [hr]
    unfold streamLines
    rw [drainAll_error hd]
    simp
  · have hd : decodeLines s = .done ls rest := by unfold decodeLines; rw [hr]
    unfold streamLines
    rw [drainAll_done decodeLines_shrinks hd]
    simp

/-- When its lines fit, what the parser says of a part of the stream is right for the whole. -/
theorem decodeRequest_committed : Committed decodeRequest LinesFit where
  shrinks := decodeRequest_shrinks
  extends_more := fun buf more hfit => by
    refine decodeRequest_more buf more fun l hl => hfit l ?_
    rw [streamLines_eq]
    exact mem_append_left _ hl
  ok_rest := fun buf argv rest hfit h l hl => by
    refine hfit l ?_
    rw [streamLines_eq, requestLines_eq_some.2 ⟨argv, h⟩]
    exact mem_append_right _ hl

/-! ## Errors -/

/-- The elements of a multibulk request, after some of which there is a CR or an LF in place of the
next one. -/
inductive StraysIn : ℕ → Bytes → Prop
  | here {k : ℕ} {b : Bytes} : b.head? = some kCR ∨ b.head? = some kLF → StraysIn (k + 1) b
  | later {k : ℕ} {b s rest : Bytes} : decodeBulk b = .done s rest → StraysIn k rest →
      StraysIn (k + 1) b

/-- A stream in which, after some requests, there is a CR or an LF in place of an element. -/
inductive Strays : Bytes → Prop
  | here {buf rest : Bytes} {count : ℕ} : buf.head? = some 42 →
      decodeCount buf = .done count rest → StraysIn count rest → Strays buf
  | later {buf rest : Bytes} {argv : List Bytes} : decodeRequest buf = .done argv rest →
      Strays rest → Strays buf

/-- The errors with a text of their own. -/
def protocolErrors : List Bytes :=
  [bytes "ERR Protocol error: invalid multibulk length",
    bytes "ERR Protocol error: invalid bulk length",
    bytes "ERR Protocol error: expected CRLF after bulk data",
    bytes "ERR Protocol error: too big inline request"]

/-- The error for a byte in place of a `$`. -/
def gotError (c : UInt8) : Bytes :=
  bytes "ERR Protocol error: expected '$', got '" ++ [c] ++ bytes "'"

/-- A bulk that does not start with a dollar is refused with its first byte. -/
theorem decodeBulk_of_ne (hb : buf.head? = some c) (hc : c ≠ 36) :
    decodeBulk buf = .error (gotError c) := by
  unfold decodeBulk
  rw [hb]
  exact if_pos hc

/-- A bulk is refused with a fixed text or with the byte it starts with. -/
theorem decodeBulk_eq_error (h : decodeBulk buf = .error msg) :
    msg ∈ protocolErrors ∨ ∃ c, buf.head? = some c ∧ msg = gotError c := by
  cases hhead : buf.head? with
  | none =>
    unfold decodeBulk at h
    rw [hhead] at h
    cases h
  | some c =>
    by_cases hc : c = 36
    · unfold decodeBulk at h
      rw [hhead] at h
      dsimp only at h
      rw [if_neg (not_not.2 hc)] at h
      repeat' split at h
      all_goals cases h
      all_goals exact .inl (by decide)
    · rw [decodeBulk_of_ne hhead hc] at h
      cases h
      exact .inr ⟨c, rfl, rfl⟩

/-- The bulks are refused with a line break in the text only if one strays. -/
theorem decodeBulks_eq_error (h : decodeBulks k buf out = .error msg) :
    msg ∈ protocolErrors ∨ ∃ c, msg = gotError c ∧ (c = kCR ∨ c = kLF → StraysIn k buf) := by
  induction k generalizing buf out with
  | zero => cases h
  | succ k ih =>
    rcases Incremental.Outcome.bind_eq_error.1 h with hs | ⟨s, r, hs, hr⟩
    · refine (decodeBulk_eq_error hs).imp_right fun ⟨c, hhead, hmsg⟩ => ⟨c, hmsg, fun hc => ?_⟩
      rcases hc with rfl | rfl
      · exact .here (.inl hhead)
      · exact .here (.inr hhead)
    · exact (ih hr).imp_right fun ⟨c, hmsg, hc⟩ => ⟨c, hmsg, fun h => .later hs (hc h)⟩

/-- An error has a text of its own, or repeats a byte; that is a CR or an LF only where the request
strays. -/
theorem decodeRequest_eq_error (h : decodeRequest buf = .error msg) :
    msg ∈ protocolErrors ∨ ∃ c, msg = gotError c ∧ (c = kCR ∨ c = kLF → Strays buf) := by
  unfold decodeRequest at h
  cases hhead : buf.head? with
  | none =>
    rw [hhead] at h
    cases h
  | some c =>
    rw [hhead] at h
    dsimp only at h
    by_cases hc : c = 42
    · rw [if_pos hc] at h
      rcases Incremental.Outcome.bind_eq_error.1 h with hn | ⟨n, r, hn, hr⟩
      · unfold decodeCount at hn
        repeat' split at hn
        all_goals cases hn
        all_goals exact .inl (by decide)
      · exact (decodeBulks_eq_error hr).imp_right fun ⟨c', hmsg, hc'⟩ =>
          ⟨c', hmsg, fun h => .here (hc ▸ hhead) hn (hc' h)⟩
    · rw [if_neg hc] at h
      unfold decodeInline at h
      repeat' split at h
      all_goals cases h
      exact .inl (by decide)

/-- Every error has a message, so that `has_error` sees it. -/
theorem decodeRequest_error (h : decodeRequest buf = .error msg) : msg ≠ [] := by
  rcases decodeRequest_eq_error h with hmsg | ⟨c, rfl, -⟩
  · have hne : ∀ msg ∈ protocolErrors, msg ≠ [] := by decide
    exact hne msg hmsg
  · simp [gotError]

/-! ## Chunks -/

/-- The parser for a rest of the buffer or an error. -/
def RequestParser.ofState (s : Bytes × Option Bytes) : RequestParser := ⟨s.1, s.2.getD []⟩

/-- A buffer is not made longer, and an error has a message. -/
theorem drainAll_decodeRequest {cmds : List (List Bytes)} {e : Option Bytes}
    (h : drainAll decodeRequest buf = (cmds, rest, e)) :
    rest.length ≤ buf.length ∧ ∀ msg ∈ e, msg ≠ [] := by
  induction hn : buf.length using Nat.strongRecOn generalizing buf cmds with
  | ind n ih =>
    cases hd : decodeRequest buf with
    | done argv r =>
      have hlt := decodeRequest_shrinks _ _ _ hd
      rw [drainAll_done decodeRequest_shrinks hd, Prod.mk.injEq] at h
      obtain ⟨h1, h2⟩ := ih r.length (by omega) (Prod.ext rfl h.2) rfl
      exact ⟨by omega, h2⟩
    | incomplete =>
      rw [drainAll_incomplete hd] at h
      obtain ⟨-, rfl, rfl⟩ := h
      exact ⟨by omega, by simp⟩
    | error msg =>
      rw [drainAll_error hd] at h
      obtain ⟨-, rfl, rfl⟩ := h
      exact ⟨by omega, by simpa using decodeRequest_error hd⟩

/-- A buffer that is not too big is fed to the decoder. -/
theorem RequestParser.feed_ofState (s : Bytes × Option Bytes) (data : Bytes)
    (hmsg : ∀ msg ∈ s.2, msg ≠ []) (hlen : s.1.length + data.length ≤ kMaxBulkBytes) :
    (ofState s).feed data = ((Incremental.feed decodeRequest s data).1,
      ofState (Incremental.feed decodeRequest s data).2) := by
  obtain ⟨buf, e⟩ := s
  cases e with
  | some msg =>
    have herr : (ofState (buf, some msg)).hasError = true := by
      have := hmsg msg rfl
      simpa [ofState, hasError] using this
    unfold feed
    rw [if_pos herr]
    unfold parseBuffered
    rw [if_pos herr]
    rfl
  | none =>
    have hbig : ¬kMaxBulkBytes < ((ofState (buf, none)).buf ++ data).length := by
      rw [length_append]
      exact not_lt.2 hlen
    unfold feed
    rw [if_neg (by simp [ofState, hasError])]
    dsimp only
    rw [if_neg hbig]
    unfold parseBuffered
    rw [if_neg (by simp [ofState, hasError]), tryParseOne_eq]
    rfl

/-- Feeding the parser chunk by chunk is the library's incremental decoder. -/
theorem RequestParser.feedAll_ofState (chunks : List Bytes) (s : Bytes × Option Bytes)
    (hmsg : ∀ msg ∈ s.2, msg ≠ [])
    (hlen : s.1.length + chunks.flatten.length ≤ kMaxBulkBytes) :
    feedAll chunks (ofState s) = ((Incremental.feedAll decodeRequest chunks s).1,
      ofState (Incremental.feedAll decodeRequest chunks s).2) := by
  induction chunks generalizing s with
  | nil => rfl
  | cons chunk chunks ih =>
    rw [flatten_cons, length_append] at hlen
    unfold RequestParser.feedAll Incremental.feedAll
    rw [feed_ofState s chunk hmsg (by omega)]
    obtain ⟨buf, e⟩ := s
    -- What is left is no longer than before, and the next chunk still fits in.
    have hnext : (∀ msg ∈ (Incremental.feed decodeRequest (buf, e) chunk).2.2, msg ≠ []) ∧
        (Incremental.feed decodeRequest (buf, e) chunk).2.1.length ≤ buf.length + chunk.length := by
      cases e with
      | some msg => exact ⟨hmsg, Nat.le_add_right _ _⟩
      | none =>
        have hd : drainAll decodeRequest (buf ++ chunk) =
          ((drainAll decodeRequest (buf ++ chunk)).1, (drainAll decodeRequest (buf ++ chunk)).2.1,
            (drainAll decodeRequest (buf ++ chunk)).2.2) := rfl
        obtain ⟨h1, h2⟩ := drainAll_decodeRequest hd
        rw [← length_append]
        exact ⟨h2, h1⟩
    simp only [ih _ hnext.1 (by have := hnext.2; dsimp only at hlen; omega)]

/-- It does not matter how a stream is cut into chunks, if its lines fit: the commands are the same,
and so is the error. -/
theorem feedAll_eq_feed (chunks : List Bytes) (hlen : chunks.flatten.length ≤ kMaxBulkBytes)
    (hfit : LinesFit chunks.flatten) :
    (RequestParser.feedAll chunks .fresh).1 = (RequestParser.fresh.feed chunks.flatten).1 ∧
      (RequestParser.feedAll chunks .fresh).2.hasError =
        (RequestParser.fresh.feed chunks.flatten).2.hasError ∧
      (RequestParser.feedAll chunks .fresh).2.errorMsg =
        (RequestParser.fresh.feed chunks.flatten).2.errorMsg := by
  have hall := RequestParser.feedAll_ofState chunks ([], none) (by simp) (by simpa using hlen)
  have hone := RequestParser.feed_ofState ([], none) chunks.flatten (by simp) (by simpa using hlen)
  obtain ⟨h1, h2, -⟩ := feedAll_flatten decodeRequest_committed chunks [] hfit rfl
  have hfresh : RequestParser.fresh = .ofState ([], none) := rfl
  rw [hfresh, hall, hone]
  have herr :
      (RequestParser.ofState (Incremental.feedAll decodeRequest chunks ([], none)).2).errorMsg
      = (RequestParser.ofState
        (Incremental.feed decodeRequest ([], none) chunks.flatten).2).errorMsg :=
    congrArg (Option.getD · []) h2
  refine ⟨h1, ?_, herr⟩
  unfold RequestParser.hasError
  rw [herr]

/-- A request and a half, cut between CR and LF, in a payload, and in an inline request. -/
theorem feedAll_eq_feed_pipeline :
    (RequestParser.feedAll [bytes "*1\r", bytes "\n$4\r\nPI", bytes "NG\r\nGET a\r\nGE"] .fresh).1 =
      (RequestParser.fresh.feed
        [bytes "*1\r", bytes "\n$4\r\nPI", bytes "NG\r\nGET a\r\nGE"].flatten).1 :=
  (feedAll_eq_feed [bytes "*1\r", bytes "\n$4\r\nPI", bytes "NG\r\nGET a\r\nGE"] (by decide)
    (by decide)).1

end TinyRedis.Resp

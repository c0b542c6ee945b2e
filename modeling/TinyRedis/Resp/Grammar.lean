import TinyRedis.Resp.Frame

/-!
# The grammar of a multibulk request

A multibulk request is a line with the number of its elements, and then each element: a line with
its length, the payload, and CR LF. Both lines may end in LF alone. `Frame` says this of the bytes,
without the parser; the decoders take a request off a buffer when, and only when, it starts with
one.
-/

namespace TinyRedis.Resp

open Lib Lib.Incremental List

variable {buf rest line more b : Bytes} {n : ℕ} {argv : List Bytes} {c : UInt8}

/-- The end of a header line. -/
inductive Eol : Bytes → Prop
  | lf : Eol [kLF]
  | crlf : Eol crlf

/-- The digits of a number. -/
def Numeral (digits : Bytes) (n : ℕ) : Prop :=
  digits ≠ [] ∧ (∀ c ∈ digits, Decimal.isDigit c = true) ∧ Decimal.value digits = n

/-- A header line, with its end. -/
def Header (c : UInt8) (n : ℕ) (h : Bytes) : Prop :=
  ∃ digits eol, Numeral digits n ∧ Eol eol ∧ h = c :: digits ++ eol

/-- The elements of a request: their header lines, their payloads, and their bytes. -/
inductive Bulks : List Bytes → List Bytes → Bytes → Prop
  | nil : Bulks [] [] []
  | cons {h s b : Bytes} {hs ss : List Bytes} : Header 36 s.length h →
      s.length ≤ kMaxBulkBytes → Bulks hs ss b → Bulks (h :: hs) (s :: ss) (h ++ s ++ crlf ++ b)

/-- A request: its header lines, its payloads, and its bytes. -/
inductive Frame : List Bytes → List Bytes → Bytes → Prop
  | mk {h b : Bytes} {hs ss : List Bytes} : Header 42 ss.length h →
      ss.length ≤ kMaxMultiBulkElements → Bulks hs ss b → Frame (h :: hs) ss (h ++ b)

/-! ## Lines -/

/-- A line is what stands before the first line feed, without a carriage return. -/
theorem splitLine_eq_some : splitLine buf = some (line, rest) ↔
    ∃ l, kLF ∉ l ∧ buf = l ++ kLF :: rest ∧ line = dropCr l := by
  constructor
  · intro h
    by_cases hmem : kLF ∈ buf
    · obtain ⟨l, r, rfl, hl⟩ := eq_append_cons_of_mem hmem
      rw [splitLine_append hl, Option.some.injEq, Prod.mk.injEq] at h
      exact ⟨l, hl, by rw [h.2], h.1.symm⟩
    · rw [splitLine_of_notMem hmem] at h
      exact absurd h (by simp)
  · rintro ⟨l, hl, rfl, rfl⟩
    exact splitLine_append hl

/-- There is no line exactly when there is no line feed. -/
theorem splitLine_eq_none : splitLine buf = none ↔ kLF ∉ buf := by
  refine ⟨fun h hmem => ?_, splitLine_of_notMem⟩
  obtain ⟨l, r, rfl, hl⟩ := eq_append_cons_of_mem hmem
  rw [splitLine_append hl] at h
  exact absurd h (by simp)

/-- A line that was taken off had one of the two ends. -/
theorem eol_of_splitLine (h : splitLine buf = some (line, rest)) :
    ∃ eol, Eol eol ∧ buf = line ++ eol ++ rest := by
  obtain ⟨l, -, rfl, rfl⟩ := splitLine_eq_some.1 h
  by_cases hcr : l.getLast? = some kCR
  · refine ⟨crlf, .crlf, ?_⟩
    obtain ⟨line, rfl⟩ : ∃ line, l = line ++ [kCR] :=
      ⟨l.dropLast, (dropLast_append_getLast? kCR hcr).symm⟩
    rw [dropCr_append]
    simp [crlf]
  · exact ⟨[kLF], .lf, by simp [dropCr, hcr]⟩

/-- A numeral holds nothing but digits. -/
theorem Numeral.notMem {digits : Bytes} (h : Numeral digits n) (hc : Decimal.isDigit c = false) :
    c ∉ digits := fun hmem =>
  Bool.false_ne_true (hc.symm.trans (h.2.1 c hmem))

/-- A length is a numeral that fits. -/
theorem parseLength_eq_some {v : ℤ} :
    parseLength line = some v ↔ ∃ n, Numeral line n ∧ n < 2^63 ∧ v = n := by
  unfold parseLength
  by_cases hline : line = [] ∨ line.any fun c => !Decimal.isDigit c
  · rw [if_pos hline]
    simp only [reduceCtorEq, false_iff, not_exists, not_and]
    intro n hnum
    rcases hline with hnil | hany
    · exact absurd hnil hnum.1
    · obtain ⟨c, hc, hdigit⟩ := any_eq_true.1 hany
      rw [hnum.2.1 c hc] at hdigit
      exact absurd hdigit (by simp)
  · rw [if_neg hline]
    simp only [not_or, any_eq_true, not_exists, not_and] at hline
    have hdigits : ∀ c ∈ line, Decimal.isDigit c = true := fun c hc => by simpa using hline.2 c hc
    rw [stoll_of_digits hline.1 hdigits]
    constructor
    · intro h
      split_ifs at h with hlt
      exact ⟨_, ⟨hline.1, hdigits, rfl⟩, hlt, (Option.some.inj h).symm⟩
    · rintro ⟨n, ⟨-, -, rfl⟩, hlt, rfl⟩
      rw [if_pos hlt]

/-- A header line is taken off as the line without its end. -/
theorem Header.splitLine {h : Bytes} (hh : Header c n h) (hc : c ≠ kLF) (rest : Bytes) :
    ∃ digits, Numeral digits n ∧ Resp.splitLine (h ++ rest) = some (c :: digits, rest) ∧
      upToLf (h ++ rest) = upToLf h := by
  obtain ⟨digits, eol, hnum, heol, rfl⟩ := hh
  have hlf : kLF ∉ c :: digits := fun hmem =>
    (mem_cons.1 hmem).elim (fun h => hc h.symm) (hnum.notMem rfl)
  refine ⟨digits, hnum, ?_⟩
  cases heol with
  | lf =>
    have hlast : (c :: digits).getLast? ≠ some kCR := by
      rw [getLast?_cons_of_ne_nil hnum.1]
      exact fun hlast => hnum.notMem rfl (mem_of_getLast? hlast)
    rw [append_assoc, singleton_append, splitLine_append hlf, upToLf_append hlf,
      upToLf_append hlf, dropCr, if_neg hlast]
    exact ⟨rfl, rfl⟩
  | crlf =>
    have hlf' : kLF ∉ c :: digits ++ [kCR] := by
      rw [mem_append, not_or]
      exact ⟨hlf, by decide⟩
    have hcat : ∀ r, c :: digits ++ crlf ++ r = (c :: digits ++ [kCR]) ++ kLF :: r := fun r => by
      simp [crlf]
    have hup := hcat []
    rw [append_nil] at hup
    rw [hcat, hup, splitLine_append hlf', upToLf_append hlf', upToLf_append hlf', dropCr_append]
    exact ⟨rfl, rfl⟩

/-- A line whose number can be read is a header line. -/
theorem header_of_splitLine (hline : splitLine buf = some (line, rest)) (hhead : buf.head? = some c)
    (hnum : Numeral (line.drop 1) n) : ∃ h, Header c n h ∧ buf = h ++ rest := by
  obtain ⟨eol, heol, rfl⟩ := eol_of_splitLine hline
  cases line with
  | nil => exact absurd rfl hnum.1
  | cons d digits =>
    obtain rfl : d = c := Option.some.inj hhead
    exact ⟨_, ⟨digits, eol, hnum, heol, rfl⟩, rfl⟩

/-! ## Requests -/

/-- An element is taken off exactly where the grammar has one. -/
theorem decodeBulk_eq_done {s : Bytes} : decodeBulk buf = .done s rest ↔
    ∃ h, Header 36 s.length h ∧ s.length ≤ kMaxBulkBytes ∧ buf = h ++ s ++ crlf ++ rest := by
  constructor
  · intro hd
    unfold decodeBulk at hd
    cases hhead : buf.head? with
    | none => rw [hhead] at hd; exact absurd hd (by simp)
    | some c =>
      simp only [hhead] at hd
      by_cases hc : c ≠ 36
      · rw [if_pos hc] at hd
        exact absurd hd (by simp)
      rw [if_neg hc] at hd
      rw [not_not] at hc
      cases hline : splitLine buf with
      | none =>
        simp only [hline] at hd
        split_ifs at hd
      | some p =>
        obtain ⟨line, r⟩ := p
        simp only [hline] at hd
        cases hn : parseLength (line.drop 1) with
        | none => simp only [hn] at hd; exact absurd hd (by simp)
        | some v =>
          obtain ⟨n, hnum, -, rfl⟩ := parseLength_eq_some.1 hn
          obtain ⟨h, hh, rfl⟩ := header_of_splitLine hline (hc ▸ hhead) hnum
          simp only [hn, Int.toNat_natCast] at hd
          split_ifs at hd with hbig hlen hend
          simp only [Incremental.Outcome.done.injEq] at hd
          obtain ⟨rfl, rfl⟩ := hd
          have htake : (r.take n).length = n := by rw [length_take]; omega
          refine ⟨h, by rwa [htake], by omega, ?_⟩
          -- The two bytes after the payload are CR and LF.
          simp only [ne_eq, not_or, not_not] at hend
          have hcrlf : (r.drop n).take 2 = crlf := by
            have h0 : n < r.length := by omega
            have h1 : n + 1 < r.length := by omega
            rw [getElem?_eq_getElem h0, getElem?_eq_getElem h1] at hend
            rw [drop_eq_getElem_cons h0, drop_eq_getElem_cons h1,
              Option.some.inj hend.1, Option.some.inj hend.2]
            rfl
          rw [append_assoc, append_assoc, ← hcrlf, ← drop_drop, take_append_drop, take_append_drop]
  · rintro ⟨h, hh, hs, rfl⟩
    have hhead : (h ++ s ++ crlf ++ rest).head? = some 36 := by
      obtain ⟨digits, eol, -, -, rfl⟩ := hh
      rfl
    have hsmall : s.length < 2^63 := lt_of_le_of_lt hs (by decide)
    obtain ⟨digits, hnum, hline, -⟩ := hh.splitLine (by decide) (s ++ crlf ++ rest)
    have hlen : ¬(s ++ crlf ++ rest).length < s.length + 2 := by
      simp only [length_append, crlf, length_cons, length_nil]
      omega
    have hcr : (s ++ crlf ++ rest)[s.length]? = some kCR := by simp [crlf]
    have hlf : (s ++ crlf ++ rest)[s.length + 1]? = some kLF := by
      rw [append_assoc, getElem?_append_right (by omega)]
      simp [crlf]
    have htake : (s ++ crlf ++ rest).take s.length = s := by simp
    have hdrop : (s ++ crlf ++ rest).drop (s.length + 2) = rest := by
      rw [← drop_drop, append_assoc, drop_left]
      rfl
    unfold decodeBulk
    rw [hhead, append_assoc, append_assoc, ← append_assoc s, hline]
    dsimp only
    rw [if_neg (by simp), drop_one, tail_cons, parseLength_eq_some.2 ⟨_, hnum, hsmall, rfl⟩]
    dsimp only
    rw [if_neg (by omega), Int.toNat_natCast, if_neg hlen, hcr, hlf, if_neg (by simp), htake, hdrop]

/-- The elements are taken off one after another. -/
theorem decodeBulks_eq_done {k : ℕ} {out : List Bytes} : decodeBulks k buf out = .done argv rest ↔
      ∃ hs ss b, Bulks hs ss b ∧ ss.length = k ∧ argv = out ++ ss ∧ buf = b ++ rest := by
  induction k generalizing buf out with
  | zero =>
    rw [decodeBulks, Incremental.Outcome.done.injEq]
    constructor
    · rintro ⟨rfl, rfl⟩
      exact ⟨[], [], [], .nil, rfl, by simp, rfl⟩
    · rintro ⟨hs, ss, b, hb, hlen, rfl, rfl⟩
      cases hb with
      | nil => simp
      | cons _ _ _ => exact absurd hlen (by simp)
  | succ k ih =>
    rw [decodeBulks, Incremental.Outcome.bind_eq_done]
    constructor
    · rintro ⟨s, r, hs, hr⟩
      obtain ⟨h, hh, hsmall, rfl⟩ := decodeBulk_eq_done.1 hs
      obtain ⟨hs, ss, b, hb, rfl, rfl, rfl⟩ := ih.1 hr
      exact ⟨_, _, _, .cons hh hsmall hb, rfl, by simp, by simp⟩
    · rintro ⟨hs, ss, b, hb, hlen, rfl, rfl⟩
      cases hb with
      | nil => exact absurd hlen (by simp)
      | @cons h s b hs ss hh hsmall hb =>
        exact ⟨s, b ++ rest, decodeBulk_eq_done.2 ⟨h, hh, hsmall, by simp⟩,
          ih.2 ⟨hs, ss, b, hb, Nat.succ.inj hlen, by simp, rfl⟩⟩

/-- The number of elements is read from a header line. -/
theorem decodeCount_eq_done (hhead : buf.head? = some 42) : decodeCount buf = .done n rest ↔
    ∃ h, Header 42 n h ∧ n ≤ kMaxMultiBulkElements ∧ buf = h ++ rest := by
  unfold decodeCount
  constructor
  · intro hd
    cases hline : splitLine buf with
    | none =>
      simp only [hline] at hd
      split_ifs at hd
    | some p =>
      obtain ⟨line, r⟩ := p
      simp only [hline] at hd
      cases hn : parseLength (line.drop 1) with
      | none => simp only [hn] at hd; exact absurd hd (by simp)
      | some v =>
        obtain ⟨m, hnum, -, rfl⟩ := parseLength_eq_some.1 hn
        obtain ⟨h, hh, rfl⟩ := header_of_splitLine hline hhead hnum
        simp only [hn, Int.toNat_natCast] at hd
        split_ifs at hd with hbig
        simp only [Incremental.Outcome.done.injEq] at hd
        obtain ⟨rfl, rfl⟩ := hd
        exact ⟨h, hh, by omega, rfl⟩
  · rintro ⟨h, hh, hn, rfl⟩
    obtain ⟨digits, hnum, hline, -⟩ := hh.splitLine (by decide) rest
    have hsmall : n < 2^63 := lt_of_le_of_lt hn (by decide)
    rw [hline]
    dsimp only
    rw [drop_one, tail_cons, parseLength_eq_some.2 ⟨_, hnum, hsmall, rfl⟩]
    dsimp only
    rw [if_neg (by omega), Int.toNat_natCast]

/-- A request is taken off exactly where the grammar has one. -/
theorem decodeMultiBulk_eq_done (hhead : buf.head? = some 42) :
    decodeMultiBulk buf = .done argv rest ↔
      ∃ headers frame, Frame headers argv frame ∧ buf = frame ++ rest := by
  rw [decodeMultiBulk, Incremental.Outcome.bind_eq_done]
  constructor
  · rintro ⟨n, r, hn, hr⟩
    obtain ⟨h, hh, hsmall, rfl⟩ := (decodeCount_eq_done hhead).1 hn
    obtain ⟨hs, ss, b, hb, rfl, rfl, rfl⟩ := decodeBulks_eq_done.1 hr
    exact ⟨_, _, .mk hh hsmall hb, by simp⟩
  · rintro ⟨headers, frame, ⟨hh, hsmall, hb⟩, rfl⟩
    rw [append_assoc]
    refine ⟨_, _, (decodeCount_eq_done ?_).2 ⟨_, hh, hsmall, rfl⟩,
      decodeBulks_eq_done.2 ⟨_, _, _, hb, rfl, rfl, rfl⟩⟩
    rw [← hhead, append_assoc]

end TinyRedis.Resp

import TinyRedis.Resp.Model

/-!
# Replies

A reply is a value of the protocol RESP2: a line, a number, a bulk string, or an array of values.
The encoders of `src/resp.cpp` append whole values, and the headers of arrays whose elements come
later. `Partial n b` says that the bytes `b` are a value of which `n` elements are missing, so that
a handler can be followed from one call of an encoder to the next.

Where a value ends can be seen from its bytes (`encode_append_inj`), as long as there is no CR in
its lines; so bytes that are the encoding of one value are not that of several.
-/

namespace TinyRedis.Resp

open Lib List

/-- A line of text: it has neither CR nor LF. -/
def OneLine (s : Bytes) : Prop := kCR ∉ s ∧ kLF ∉ s

/-- This can be decided. -/
instance instDecidableOneLine (s : Bytes) : Decidable (OneLine s) :=
  inferInstanceAs (Decidable (_ ∧ _))

/-! ## Lines and numbers -/

/-- Two parts of a line. -/
theorem line_append_iff {s t : Bytes} : OneLine (s ++ t) ↔ OneLine s ∧ OneLine t := by
  unfold OneLine
  simp only [mem_append, not_or]
  exact ⟨fun h => ⟨⟨h.1.1, h.2.1⟩, h.1.2, h.2.2⟩, fun h => ⟨⟨h.1.1, h.2.1⟩, h.1.2, h.2.2⟩⟩

/-- A line ends at its first CR. -/
theorem crlf_append_inj {s t x y : Bytes} (hs : kCR ∉ s) (ht : kCR ∉ t)
    (h : s ++ crlf ++ x = t ++ crlf ++ y) : s = t ∧ x = y := by
  induction s generalizing t with
  | nil =>
    cases t with
    | nil => exact ⟨rfl, append_cancel_left h⟩
    | cons c t =>
      have hc : kCR = c := (List.cons.inj h).1
      exact absurd (hc ▸ mem_cons_self) ht
  | cons b s ih =>
    cases t with
    | nil =>
      have hb : b = kCR := (List.cons.inj h).1
      exact absurd (hb ▸ mem_cons_self) hs
    | cons c t =>
      obtain ⟨hbc, hrest⟩ := List.cons.inj h
      obtain ⟨rfl, hxy⟩ := ih (fun hc => hs (mem_cons_of_mem _ hc))
        (fun hc => ht (mem_cons_of_mem _ hc)) hrest
      exact ⟨by rw [hbc], hxy⟩

/-- A number has only digits. -/
theorem notMem_print {c : UInt8} (hc : Decimal.isDigit c = false) (n : ℕ) :
    c ∉ Decimal.print n := by
  intro hmem
  rw [Decimal.isDigit_of_mem_print hmem] at hc
  cases hc

/-- There is no CR in a number. -/
theorem kCR_notMem_printInt (n : ℤ) : kCR ∉ printInt n := by
  unfold printInt
  split_ifs
  · intro hmem
    rcases mem_cons.1 hmem with hc | hc
    · cases hc
    · exact notMem_print rfl _ hc
  · exact notMem_print rfl _

/-- A number is known from its digits. -/
theorem print_inj {m n : ℕ} (h : Decimal.print m = Decimal.print n) : m = n := by
  rw [← Decimal.value_print m, h, Decimal.value_print]

/-- And from its sign. -/
theorem printInt_inj {m n : ℤ} (h : printInt m = printInt n) : m = n := by
  have hminus : ∀ (a b : ℕ), 45 :: Decimal.print a ≠ Decimal.print b := fun a b hab =>
    notMem_print (c := 45) rfl b (hab ▸ mem_cons_self)
  unfold printInt at h
  split_ifs at h with hm hn hn
  · have := print_inj (List.cons.inj h).2
    omega
  · exact absurd h (hminus _ _)
  · exact absurd h.symm (hminus _ _)
  · have := print_inj h
    omega

/-! ## Values -/

/-- A value of RESP2. -/
inductive Reply where
  | simple (s : Bytes)
  | error (s : Bytes)
  | int (n : ℤ)
  | bulk (s : Bytes)
  | nullBulk
  | array (vs : List Reply)

namespace Reply

/-- The header of an array. -/
def header (n : ℕ) : Bytes := 42 :: printInt n ++ crlf

mutual

/-- The bytes of a value. -/
def encode : Reply → Bytes
  | .simple s => 43 :: s ++ crlf
  | .error s => 45 :: s ++ crlf
  | .int n => 58 :: printInt n ++ crlf
  | .bulk s => 36 :: Decimal.print s.length ++ crlf ++ s ++ crlf
  | .nullBulk => bytes "$-1" ++ crlf
  | .array vs => header vs.length ++ encodeAll vs

/-- The bytes of some values, one after another. -/
def encodeAll : List Reply → Bytes
  | [] => []
  | v :: vs => v.encode ++ encodeAll vs

end

mutual

/-- All lines of a value are lines. -/
def WellFormed : Reply → Prop
  | .simple s => OneLine s
  | .error s => OneLine s
  | .array vs => AllWellFormed vs
  | _ => True

/-- All lines of some values are lines. -/
def AllWellFormed : List Reply → Prop
  | [] => True
  | v :: vs => v.WellFormed ∧ AllWellFormed vs

end

/-- Whether a value is an error. -/
def isError : Reply → Bool
  | .error _ => true
  | _ => false

/-- Each of the values has only lines. -/
theorem allWellFormed_iff {vs : List Reply} : AllWellFormed vs ↔ ∀ v ∈ vs, v.WellFormed := by
  induction vs with
  | nil => exact ⟨fun _ v hv => absurd hv not_mem_nil, fun _ => trivial⟩
  | cons v vs ih => rw [AllWellFormed, ih, forall_mem_cons]

/-- Some values after others. -/
theorem encodeAll_append (us vs : List Reply) :
    encodeAll (us ++ vs) = encodeAll us ++ encodeAll vs := by
  induction us with
  | nil => rfl
  | cons u us ih => rw [cons_append, encodeAll, encodeAll, ih, append_assoc]

/-- Only an error begins as an error does. -/
theorem encode_ne_error {v : Reply} (h : v.isError = false) (b : Bytes) : v.encode ≠ 45 :: b := by
  cases v with
  | error s => cases h
  | _ => exact fun hc => absurd (List.cons.inj hc).1 (by decide)

/-! ## Where a value ends -/

/-- The first line of a value. -/
def line : Reply → Bytes
  | .simple s => 43 :: s
  | .error s => 45 :: s
  | .int n => 58 :: printInt n
  | .bulk s => 36 :: Decimal.print s.length
  | .nullBulk => bytes "$-1"
  | .array vs => 42 :: printInt vs.length

/-- What comes after the first line. -/
def body : Reply → Bytes
  | .bulk s => s ++ crlf
  | .array vs => encodeAll vs
  | _ => []

/-- The first line of a value, and the rest. -/
theorem encode_append (v : Reply) (x : Bytes) :
    v.encode ++ x = v.line ++ crlf ++ (v.body ++ x) := by
  rw [← append_assoc]
  congr 1
  cases v with
  | bulk s => simp only [encode, line, body, append_assoc, cons_append]
  | array vs => rfl
  | _ => exact (append_nil _).symm

/-- There is no CR in the first line. -/
theorem kCR_notMem_line {v : Reply} (h : v.WellFormed) : kCR ∉ v.line := by
  have hcons : ∀ {c : UInt8} {s : Bytes}, kCR ≠ c → kCR ∉ s → kCR ∉ c :: s := fun hc hs hmem =>
    (mem_cons.1 hmem).elim hc hs
  cases v with
  | simple s => exact hcons (by decide) h.1
  | error s => exact hcons (by decide) h.1
  | int n => exact hcons (by decide) (kCR_notMem_printInt n)
  | bulk s => exact hcons (by decide) (notMem_print rfl _)
  | nullBulk => exact (by decide +kernel)
  | array vs => exact hcons (by decide) (kCR_notMem_printInt _)

/-- A length has no sign. -/
theorem bulk_line_ne_nullBulk (s : Bytes) : (Reply.bulk s).line ≠ Reply.nullBulk.line := by
  intro h
  have hprint : Decimal.print s.length = 45 :: [49] := (List.cons.inj h).2
  exact notMem_print (c := 45) rfl s.length (hprint ▸ mem_cons_self)

mutual

/-- Where a value ends is known from its bytes. -/
theorem encode_append_inj : ∀ (v u : Reply) {x y : Bytes}, v.WellFormed → u.WellFormed →
    v.encode ++ x = u.encode ++ y → v = u ∧ x = y := by
  intro v u x y hv hu h
  rw [encode_append, encode_append] at h
  obtain ⟨hline, hbody⟩ := crlf_append_inj (kCR_notMem_line hv) (kCR_notMem_line hu) h
  cases v with
  | simple s =>
    cases u with
    | simple t => exact ⟨congrArg _ (List.cons.inj hline).2, hbody⟩
    | _ => exact absurd (List.cons.inj hline).1 (by decide)
  | error s =>
    cases u with
    | error t => exact ⟨congrArg _ (List.cons.inj hline).2, hbody⟩
    | _ => exact absurd (List.cons.inj hline).1 (by decide)
  | int m =>
    cases u with
    | int n => exact ⟨congrArg _ (printInt_inj (List.cons.inj hline).2), hbody⟩
    | _ => exact absurd (List.cons.inj hline).1 (by decide)
  | bulk s =>
    cases u with
    | bulk t =>
      -- The lengths of the payloads agree, and so do the payloads.
      obtain ⟨hpayload, hxy⟩ := append_inj hbody (by
        rw [body, body, length_append, length_append, print_inj (List.cons.inj hline).2])
      exact ⟨congrArg _ (append_cancel_right hpayload), hxy⟩
    | nullBulk => exact absurd hline (bulk_line_ne_nullBulk s)
    | _ => exact absurd (List.cons.inj hline).1 (by decide)
  | nullBulk =>
    cases u with
    | bulk t => exact absurd hline.symm (bulk_line_ne_nullBulk t)
    | nullBulk => exact ⟨rfl, hbody⟩
    | _ => exact absurd (List.cons.inj hline).1 (by decide)
  | array vs =>
    cases u with
    | array us =>
      have hlen : vs.length = us.length := Int.natCast_inj.1 (printInt_inj (List.cons.inj hline).2)
      obtain ⟨rfl, hxy⟩ := encodeAll_append_inj vs us hlen hv hu hbody
      exact ⟨rfl, hxy⟩
    | _ => exact absurd (List.cons.inj hline).1 (by decide)

/-- And so is where some values end. -/
theorem encodeAll_append_inj : ∀ (vs us : List Reply) {x y : Bytes}, vs.length = us.length →
    AllWellFormed vs → AllWellFormed us → encodeAll vs ++ x = encodeAll us ++ y → vs = us ∧ x = y
  | [], [], _, _, _, _, _, h => ⟨rfl, h⟩
  | v :: vs, u :: us, x, y, hlen, hvs, hus, h => by
    rw [encodeAll, encodeAll, append_assoc, append_assoc] at h
    obtain ⟨rfl, hrest⟩ := encode_append_inj v u hvs.1 hus.1 h
    obtain ⟨rfl, hxy⟩ := encodeAll_append_inj vs us (Nat.succ.inj hlen) hvs.2 hus.2 hrest
    exact ⟨rfl, hxy⟩

end

/-- A value has bytes. -/
theorem encode_ne_nil (v : Reply) : v.encode ≠ [] := by
  cases v <;> exact cons_ne_nil _ _

/-- The bytes of a value are those of one value, and of no other values. -/
theorem encodeAll_eq_encode_iff {v : Reply} {vs : List Reply} (hv : v.WellFormed)
    (hvs : AllWellFormed vs) : encodeAll vs = v.encode ↔ vs = [v] := by
  refine ⟨fun h => ?_, fun h => ?_⟩
  · cases vs with
    | nil => exact absurd h.symm (encode_ne_nil v)
    | cons u us =>
      rw [encodeAll, ← append_nil v.encode] at h
      obtain ⟨rfl, hus⟩ := encode_append_inj u v hvs.1 hv h
      cases us with
      | nil => rfl
      | cons u' us => exact absurd (append_eq_nil_iff.1 hus).1 (encode_ne_nil u')
  · rw [h, encodeAll, encodeAll, append_nil]

/-! ## Values with missing elements -/

/-- The bytes `b` begin a value that is not an error, and the next `n` values complete it. -/
def Partial (n : ℕ) (b : Bytes) : Prop :=
  ∀ vs, AllWellFormed vs → vs.length = n →
    ∃ v : Reply, v.WellFormed ∧ v.isError = false ∧ b ++ encodeAll vs = v.encode

variable {n k : ℕ} {b : Bytes}

/-- A whole value. -/
theorem partial_value {v : Reply} (hv : v.WellFormed) (he : v.isError = false) :
    Partial 0 v.encode := by
  intro vs _ hlen
  rw [length_eq_zero_iff.1 hlen]
  exact ⟨v, hv, he, append_nil _⟩

/-- The header of an array. -/
theorem partial_header (k : ℕ) : Partial k (header k) := by
  intro vs hvs hlen
  refine ⟨.array vs, hvs, rfl, ?_⟩
  rw [encode, hlen]

/-- Some of the missing values. -/
theorem Partial.values {us : List Reply} (h : Partial (n + us.length) b)
    (hus : AllWellFormed us) : Partial n (b ++ encodeAll us) := by
  intro vs hvs hlen
  have hall : AllWellFormed (us ++ vs) := by
    rw [allWellFormed_iff] at hus hvs ⊢
    intro v hv
    exact (mem_append.1 hv).elim (hus v) (hvs v)
  have hlength : (us ++ vs).length = n + us.length := by
    rw [length_append, hlen, Nat.add_comm]
  obtain ⟨v, hv, he, hencode⟩ := h (us ++ vs) hall hlength
  refine ⟨v, hv, he, ?_⟩
  rw [append_assoc, ← encodeAll_append, hencode]

/-- One of the missing values is an array with `k` elements. -/
theorem Partial.header (h : Partial (n + 1) b) (k : ℕ) : Partial (n + k) (b ++ Reply.header k) := by
  intro vs hvs hlen
  have hmem := allWellFormed_iff.1 hvs
  have htake : (vs.take k).length = k := by
    rw [length_take]
    omega
  -- The first `k` of the values that follow are the elements of the array.
  have hall : AllWellFormed (.array (vs.take k) :: vs.drop k) := by
    refine ⟨allWellFormed_iff.2 fun v hv => hmem v (mem_of_mem_take hv), ?_⟩
    exact allWellFormed_iff.2 fun v hv => hmem v (mem_of_mem_drop hv)
  have hlength : (Reply.array (vs.take k) :: vs.drop k).length = n + 1 := by
    rw [length_cons, length_drop]
    omega
  obtain ⟨v, hv, he, hencode⟩ := h _ hall hlength
  refine ⟨v, hv, he, ?_⟩
  rw [encodeAll, encode, htake, append_assoc, ← encodeAll_append, take_append_drop]
    at hencode
  rw [append_assoc, hencode]

/-- Nothing is missing. -/
theorem Partial.complete (h : Partial 0 b) :
    ∃ v : Reply, v.WellFormed ∧ v.isError = false ∧ b = v.encode := by
  obtain ⟨v, hv, he, hencode⟩ := h [] trivial rfl
  refine ⟨v, hv, he, ?_⟩
  rw [← hencode, encodeAll, append_nil]

/-! ## The encoders -/

/-- A loop of `AppendBulkReply`. -/
theorem foldl_appendBulkReply (items : List Bytes) (out : Bytes) :
    items.foldl appendBulkReply out = out ++ encodeAll (items.map .bulk) := by
  induction items generalizing out with
  | nil => exact (append_nil out).symm
  | cons s items ih =>
    rw [foldl_cons, ih, map_cons, encodeAll, ← append_assoc]
    congr 1
    simp only [appendBulkReply, encode, append_assoc, cons_append]

/-- What `AppendBulkArray` appends is an array. -/
theorem appendBulkArray_eq_encode (items : List Bytes) (out : Bytes) :
    appendBulkArray out items = out ++ (Reply.array (items.map .bulk)).encode := by
  rw [appendBulkArray, foldl_appendBulkReply, encode, length_map, ← append_assoc]
  congr 1
  simp only [appendArrayReply, Reply.header, append_assoc, cons_append]

/-- Bulk strings may have any bytes. -/
theorem allWellFormed_bulks (items : List Bytes) : AllWellFormed (items.map .bulk) := by
  rw [allWellFormed_iff]
  intro v hv
  obtain ⟨s, -, rfl⟩ := mem_map.1 hv
  trivial

end Reply

end TinyRedis.Resp

import Mathlib.Data.List.TakeWhile
import TinyRedis.Basic
import TinyRedis.Lib.Decimal

/-!
# Numbers in text

`strtoll` of the C library in base 10, `std::stoll`, which throws where it finds no number or one
that is out of range, and the formats `%zu` and `%lld`.
-/

namespace TinyRedis

open Lib List

/-- `isspace` in the C locale. -/
def isSpace (c : UInt8) : Bool := c == 32 || (decide (9 ≤ c.toNat) && decide (c.toNat ≤ 13))

/-- What `strtoll` finds: the value, the number of bytes up to `end`, and whether `errno` is
`ERANGE`. -/
structure Parsed where
  value : ℤ
  length : ℕ
  erange : Bool
  deriving DecidableEq, Repr

/-- `strtoll(s, &end, 10)`. A NUL byte is not a digit, so it ends the number as the end of the
string does. -/
def strtoll (s : Bytes) : Parsed :=
  let spaces := s.takeWhile isSpace
  let t := s.dropWhile isSpace
  let (neg, u) := match t with
    | 45 :: u => (true, u)
    | 43 :: u => (false, u)
    | _ => (false, t)
  let ds := u.takeWhile Decimal.isDigit
  if ds = [] then ⟨0, 0, false⟩
  else
    let v : ℤ := if neg then -Decimal.value ds else Decimal.value ds
    let length := spaces.length + (t.length - u.length) + ds.length
    if v < -2^63 then ⟨-2^63, length, true⟩
    else if 2^63 ≤ v then ⟨2^63 - 1, length, true⟩
    else ⟨v, length, false⟩

/-- `std::stoll(s)`, with `none` for an exception. -/
def stoll (s : Bytes) : Option ℤ :=
  let p := strtoll s
  if p.length = 0 ∨ p.erange then none else some p.value

/-- `%lld`, and `std::to_string` of an integer. -/
def printInt (n : ℤ) : Bytes :=
  if n < 0 then 45 :: Decimal.print n.natAbs else Decimal.print n.natAbs

/-- The text of a `long long` is short. -/
theorem length_printInt_lt {n : ℤ} (h : -2^63 ≤ n) (h' : n < 2^63) : (printInt n).length < 128 := by
  have hprint : (Decimal.print n.natAbs).length ≤ 19 + 1 := Decimal.length_print_le (by omega)
  unfold printInt
  split_ifs
  · rw [length_cons]
    omega
  · omega

/-- A digit is neither a space nor a sign. -/
theorem isSpace_of_isDigit {c : UInt8} (h : Decimal.isDigit c = true) :
    isSpace c = false ∧ c ≠ 45 ∧ c ≠ 43 := by
  have hrange : 48 ≤ c.toNat ∧ c.toNat ≤ 57 := by
    simpa [Decimal.isDigit] using h
  have hne : ∀ d : UInt8, d.toNat < 48 → c ≠ d := by
    rintro d hd rfl
    omega
  refine ⟨?_, hne 45 (by decide), hne 43 (by decide)⟩
  simp only [isSpace, Bool.or_eq_false_iff, beq_eq_false_iff_ne, Bool.and_eq_false_iff,
    decide_eq_false_iff_not]
  exact ⟨hne 32 (by decide), .inr (by omega)⟩

/-- `strtoll` on a string of digits with a minus sign or no sign. -/
theorem strtoll_of_digits {s : Bytes} (neg : Bool) (hne : s ≠ [])
    (hs : ∀ c ∈ s, Decimal.isDigit c = true) {v : ℤ}
    (hv : v = if neg then -(Decimal.value s : ℤ) else Decimal.value s) :
    strtoll (if neg then 45 :: s else s) =
      if v < -2^63 then ⟨-2^63, (if neg then 45 :: s else s).length, true⟩
      else if 2^63 ≤ v then ⟨2^63 - 1, (if neg then 45 :: s else s).length, true⟩
      else ⟨v, (if neg then 45 :: s else s).length, false⟩ := by
  obtain ⟨c, cs, rfl⟩ := exists_cons_of_ne_nil hne
  obtain ⟨hspace, h45, h43⟩ := isSpace_of_isDigit (hs c mem_cons_self)
  have htake : (c :: cs).takeWhile Decimal.isDigit = c :: cs := takeWhile_eq_self_iff.2 hs
  subst hv
  cases neg with
  | true =>
    have hspaces : (45 :: c :: cs).takeWhile isSpace = [] := rfl
    have hdrop : (45 :: c :: cs).dropWhile isSpace = 45 :: c :: cs := rfl
    unfold strtoll
    simp only [if_true, hspaces, hdrop, htake, reduceCtorEq, if_false, length_nil, length_cons]
    rw [Nat.add_sub_cancel_left, Nat.zero_add, Nat.add_comm 1]
  | false =>
    have hsign : (match c :: cs with
        | 45 :: u => (true, u)
        | 43 :: u => (false, u)
        | _ => (false, c :: cs)) = (false, c :: cs) := by
      split <;> simp_all
    have hspaces : (c :: cs).takeWhile isSpace = [] := by simp [hspace]
    have hdrop : (c :: cs).dropWhile isSpace = c :: cs := by simp [hspace]
    unfold strtoll
    simp only [Bool.false_eq_true, if_false, hdrop, hsign, htake, hspaces, reduceCtorEq]
    rw [Nat.sub_self, length_nil, Nat.zero_add]

/-- `strtoll` reads what `%lld` writes. -/
theorem strtoll_printInt {n : ℤ} (h : -2^63 ≤ n) (h' : n < 2^63) :
    strtoll (printInt n) = ⟨n, (printInt n).length, false⟩ := by
  have hprint : printInt n =
      if decide (n < 0) then 45 :: Decimal.print n.natAbs else Decimal.print n.natAbs := by
    simp only [printInt, decide_eq_true_iff]
  have hvalue : n = if decide (n < 0) then -(Decimal.value (Decimal.print n.natAbs) : ℤ)
      else Decimal.value (Decimal.print n.natAbs) := by
    simp only [Decimal.value_print, decide_eq_true_iff]
    split_ifs <;> omega
  rw [hprint, strtoll_of_digits _ (Decimal.print_ne_nil _)
    (fun c => Decimal.isDigit_of_mem_print) hvalue, if_neg (by omega), if_neg (by omega)]

/-- On a string of digits, `stoll` is the value of the digits, up to `LLONG_MAX`. -/
theorem stoll_of_digits {s : Bytes} (hne : s ≠ []) (hs : ∀ c ∈ s, Decimal.isDigit c = true) :
    stoll s = if Decimal.value s < 2^63 then some (Decimal.value s : ℤ) else none := by
  have hparse := strtoll_of_digits false hne hs (v := Decimal.value s) rfl
  have hlength : s.length ≠ 0 := fun h => hne (length_eq_zero_iff.1 h)
  rw [if_neg Bool.false_ne_true, if_neg (by omega)] at hparse
  unfold stoll
  rw [hparse]
  by_cases hlt : Decimal.value s < 2^63
  · rw [if_neg (show ¬(2^63 : ℤ) ≤ Decimal.value s by omega), if_pos hlt]
    simp [hlength]
  · rw [if_pos (show (2^63 : ℤ) ≤ Decimal.value s by omega), if_neg hlt]
    simp

end TinyRedis

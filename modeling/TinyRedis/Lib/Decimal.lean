import Mathlib.Data.Nat.Digits.Lemmas

/-!
# Decimal numerals

Natural numbers as ASCII digits, the most significant first. `value` reads what `print` writes.
-/

namespace TinyRedis.Lib.Decimal

open List

/-- The ASCII code of a digit. -/
def digit (d : ℕ) : UInt8 := UInt8.ofNat (48 + d)

/-- Whether a byte is an ASCII digit. -/
def isDigit (c : UInt8) : Bool := decide (48 ≤ c.toNat) && decide (c.toNat ≤ 57)

/-- The number that some digits stand for. -/
def value (s : List UInt8) : ℕ := s.foldl (fun n c => 10 * n + (c.toNat - 48)) 0

/-- The digits of a number. -/
def print (n : ℕ) : List UInt8 := if n = 0 then [48] else ((Nat.digits 10 n).map digit).reverse

/-- The digits follow one another. -/
theorem digit_toNat {d : ℕ} (h : d < 10) : (digit d).toNat = 48 + d :=
  UInt8.toNat_ofNat_of_lt' (by rw [UInt8.size]; omega)

/-- A number has a digit. -/
theorem print_ne_nil (n : ℕ) : print n ≠ [] := by
  unfold print
  split_ifs with h
  · simp
  · simp [Nat.digits_ne_nil_iff_ne_zero.2 h]

/-- A number has only digits. -/
theorem isDigit_of_mem_print {n : ℕ} {c : UInt8} (h : c ∈ print n) : isDigit c = true := by
  unfold print at h
  split_ifs at h with h0
  · rw [mem_singleton] at h
    rw [h]
    decide
  · rw [mem_reverse, mem_map] at h
    obtain ⟨d, hd, rfl⟩ := h
    have hlt := Nat.digits_lt_base (by decide : 1 < 10) hd
    unfold isDigit
    rw [digit_toNat hlt, Bool.and_eq_true, decide_eq_true_eq, decide_eq_true_eq]
    omega

/-- A number below `10 ^ (k + 1)` has at most `k + 1` digits. -/
theorem length_print_le {n k : ℕ} (h : n < 10 ^ (k + 1)) : (print n).length ≤ k + 1 := by
  unfold print
  split_ifs with h0
  · exact Nat.succ_le_succ (Nat.zero_le k)
  · rw [length_reverse, length_map]
    exact (Nat.digits_length_le_iff (by decide) n).2 h

/-- The number that the digits of a number stand for is this number. -/
theorem value_print (n : ℕ) : value (print n) = n := by
  unfold print
  split_ifs with h
  · rw [h]
    rfl
  · have hdigits : ∀ ds : List ℕ, (∀ d ∈ ds, d < 10) →
        value ((ds.map digit).reverse) = Nat.ofDigits 10 ds := by
      intro ds hds
      unfold value
      rw [foldl_reverse, foldr_map, Nat.ofDigits_eq_foldr]
      induction ds with
      | nil => rfl
      | cons d ds ih =>
        rw [foldr_cons, foldr_cons, ih fun x hx => hds x (mem_cons_of_mem d hx),
          digit_toNat (hds d mem_cons_self)]
        simp only [Nat.cast_id]
        omega
    rw [hdigits _ fun d hd => Nat.digits_lt_base (by decide) hd, Nat.ofDigits_digits]

end TinyRedis.Lib.Decimal

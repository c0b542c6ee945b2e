import TinyRedis.SkipList.Order

/-!
# Doubles

A `double` is its 64 bits: a sign, an exponent of 11 bits, and a fraction of 52 bits. Within one
sign, the order of the values is the order of the remaining 63 bits, so that the comparisons are
those of integers (`key`). The two zeros have the same key, and a NaN, with an exponent of all ones
and a fraction, compares to nothing.
-/

namespace TinyRedis

/-- A `double`. -/
structure Double where
  bits : UInt64
  deriving DecidableEq, Repr

namespace Double

/-- The bits below the sign. -/
def magnitude (d : Double) : ℕ := d.bits.toNat % 2^63

/-- `std::isnan`: the magnitude is above that of infinity. -/
def isNaN (d : Double) : Bool := decide (2047 * 2^52 < d.magnitude)

/-- `std::isinf`. -/
def isInf (d : Double) : Bool := decide (d.magnitude = 2047 * 2^52)

/-- `HUGE_VAL`. -/
def hugeVal : Double := ⟨0x7FF0000000000000⟩

/-- `-HUGE_VAL`. -/
def negHugeVal : Double := ⟨0xFFF0000000000000⟩

/-- The magnitude with its sign. -/
def key (d : Double) : ℤ := if 2^63 ≤ d.bits.toNat then -d.magnitude else d.magnitude

/-- The doubles compare as scores do. -/
instance : Score Double where
  zero := ⟨0⟩
  lt a b := !a.isNaN && !b.isNaN && decide (a.key < b.key)
  eq a b := !a.isNaN && !b.isNaN && decide (a.key = b.key)

/-- The key without its sign. -/
theorem natAbs_key (d : Double) : d.key.natAbs = d.magnitude := by
  unfold key
  split_ifs <;> simp

/-- The comparisons of doubles are those of a linear order, but for NaN. -/
theorem orderedBy : OrderedBy key fun d => d.isNaN = false where
  lt_iff a b := by simp [Score.lt, and_assoc]
  eq_iff a b := by simp [Score.eq, and_assoc]
  ok_of_key_eq a b ha hk := by
    unfold isNaN at ha ⊢
    rw [← natAbs_key b, ← hk, natAbs_key a]
    exact ha

end Double

end TinyRedis

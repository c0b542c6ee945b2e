import Mathlib.Data.Nat.Bitwise

/-!
# Little-endian numbers

A natural number as a fixed number of bytes, the least significant first.
-/

namespace TinyRedis.Lib.LittleEndian

/-- The low `k` bytes of a number. -/
def put : ℕ → ℕ → List UInt8
  | 0, _ => []
  | k + 1, v => UInt8.ofNat (v % 256) :: put k (v / 256)

/-- The number of some bytes: every byte is shifted to its place. -/
def get : List UInt8 → ℕ
  | [] => 0
  | b :: bs => b.toNat ||| get bs <<< 8

/-- There are `k` bytes. -/
@[simp]
theorem length_put (k v : ℕ) : (put k v).length = k := by
  induction k generalizing v with
  | zero => rfl
  | succ k ih => rw [put, List.length_cons, ih]

/-- Reading gives the low bytes of the number back. -/
theorem get_put (k v : ℕ) : get (put k v) = v % 256^k := by
  induction k generalizing v with
  | zero => rw [pow_zero, Nat.mod_one]; rfl
  | succ k ih =>
    have hbyte : (UInt8.ofNat (v % 256)).toNat = v % 256 :=
      UInt8.toNat_ofNat_of_lt' (Nat.mod_lt _ (by decide))
    have hor : v % 256 ||| (v / 256 % 256^k) <<< 8 = (v / 256 % 256^k) <<< 8 + v % 256 := by
      rw [Nat.lor_comm]
      exact (Nat.shiftLeft_add_eq_or_of_lt
        (show v % 256 < 2^8 from Nat.mod_lt _ (by decide)) _).symm
    have hmod : v % 256^(k + 1) = v % 256 + 256 * (v / 256 % 256^k) := by
      rw [pow_succ', Nat.mod_mul]
    rw [put, get, ih, hbyte, hor, Nat.shiftLeft_eq, hmod]
    omega

/-- A number that fits is read back. -/
theorem get_put_of_lt {k v : ℕ} (h : v < 256^k) : get (put k v) = v := by
  rw [get_put, Nat.mod_eq_of_lt h]

/-- One more byte. -/
theorem get_cons (b : UInt8) (bs : List UInt8) : get (b :: bs) = b.toNat + 256 * get bs := by
  rw [get, Nat.lor_comm, ← Nat.shiftLeft_add_eq_or_of_lt (show b.toNat < 2^8 from b.toNat_lt),
    Nat.shiftLeft_eq]
  omega

/-- The number fits into its bytes. -/
theorem get_lt (bs : List UInt8) : get bs < 256^bs.length := by
  induction bs with
  | nil => exact Nat.one_pos
  | cons b bs ih =>
    have hb := b.toNat_lt
    rw [get_cons, List.length_cons, pow_succ]
    omega

/-- Bytes are those of their number. -/
theorem put_get (bs : List UInt8) : put bs.length (get bs) = bs := by
  induction bs with
  | nil => rfl
  | cons b bs ih =>
    have hb := b.toNat_lt
    rw [List.length_cons, put, get_cons, Nat.add_mul_mod_self_left, Nat.mod_eq_of_lt (by omega),
      Nat.add_mul_div_left _ _ (by decide), Nat.div_eq_of_lt (by omega), Nat.zero_add, ih,
      UInt8.ofNat_toNat]

/-- The number tells bytes apart. -/
theorem get_injective {bs bs' : List UInt8} (hlen : bs.length = bs'.length)
    (h : get bs = get bs') : bs = bs' := by
  rw [← put_get bs, ← put_get bs', hlen, h]

end TinyRedis.Lib.LittleEndian

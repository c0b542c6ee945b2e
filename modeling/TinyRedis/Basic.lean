import Mathlib.Data.List.Lex
import Mathlib.Data.UInt

/-!
# Byte strings and faults

The program is binary safe: keys, values, members, and replies are `std::string`s of arbitrary
bytes. They are lists of bytes here, compared as `std::string` compares them: byte by byte as
unsigned values, the shorter first when it is a prefix of the other.

A C++ function either returns, or it runs into undefined behaviour, an exception, or a loop without
end. `Fault` names the second group, so that a modelled function returns `Except Fault α`, and that
it never faults is something to prove.
-/

namespace TinyRedis

/-- What a function can meet instead of returning. -/
inductive Fault where
  /-- A skip list node accessed through a null pointer, or after it was deleted. -/
  | danglingNode
  /-- `forward[i]` or `span[i]` past the height of the node. -/
  | levelIndex
  /-- Signed 64-bit arithmetic out of range. -/
  | signedOverflow
  /-- A container access past its end. -/
  | outOfRange
  /-- A loop that does not end. -/
  | diverges
  /-- `new` found no free address. -/
  | badAlloc
  deriving DecidableEq, Repr

variable {ε α β : Type} {x : Except ε α}

/-- What returns is passed on. -/
@[simp]
theorem ok_bind (a : α) (f : α → Except ε β) : (Except.ok a >>= f) = f a := rfl

/-- If the whole returns, so do its parts. -/
theorem bind_eq_ok {f : α → Except ε β} {b : β} (h : (x >>= f) = .ok b) :
    ∃ a, x = .ok a ∧ f a = .ok b := by
  cases x with
  | error e => cases h
  | ok a => exact ⟨a, rfl, h⟩

/-- What a computation ends with, found by running it. -/
theorem exists_ok_of_any {p : α → Bool} (h : x.toOption.any p = true) :
    ∃ a, x = .ok a ∧ p a = true := by
  cases x with
  | error e => cases h
  | ok a => exact ⟨a, rfl, h⟩

/-- The error that a computation ends with. -/
def errorOf : Except ε α → Option ε
  | .error e => some e
  | .ok _ => none

/-- A computation ends with the error that is read off it. -/
theorem eq_error_of_errorOf {e : ε} (h : errorOf x = some e) : x = .error e := by
  cases x with
  | error e' =>
    cases h
    rfl
  | ok a => cases h

/-- An error is passed on. -/
@[simp]
theorem error_bind (e : ε) (f : α → Except ε β) : (Except.error e >>= f) = .error e := rfl

/-- `std::string`: a sequence of arbitrary bytes. -/
abbrev Bytes := List UInt8

/-- The bytes of a literal of the source. -/
def bytes (s : String) : Bytes := s.toUTF8.data.toList

/-- Bytes are compared as unsigned values, as `std::char_traits<char>` compares them. -/
instance byteLinearOrder : LinearOrder UInt8 where
  le_refl := UInt8.le_refl
  le_trans _ _ _ := UInt8.le_trans
  le_antisymm _ _ := UInt8.le_antisymm
  le_total := UInt8.le_total
  lt_iff_le_not_ge a b := by
    rw [UInt8.le_iff_toNat_le, UInt8.le_iff_toNat_le, UInt8.lt_iff_toNat_lt]
    omega
  toDecidableLE := inferInstance

/-- `ToLower`: the letters `A` to `Z` to lower case, every other byte as it is. -/
def toLower (s : Bytes) : Bytes :=
  s.map fun c => if 65 ≤ c ∧ c ≤ 90 then c + 32 else c

/-- `ToUpper`: the letters `a` to `z` to upper case, every other byte as it is. -/
def toUpper (s : Bytes) : Bytes :=
  s.map fun c => if 97 ≤ c ∧ c ≤ 122 then c - 32 else c

end TinyRedis

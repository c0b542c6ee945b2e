import TinyRedis.Rdb.Model

/-!
# The checks of a file

`LoadFromFile` looks at the size, the magic, and the checksum of a file before it reads what is in
it. Neither check goes past the end of the file.
-/

namespace TinyRedis.Rdb

open Lib

/-- A slice within the buffer is read. -/
theorem slice_eq_ok {buf : Bytes} {pos n : ℕ} (h : pos + n ≤ buf.length) :
    slice buf pos n = .ok ((buf.drop pos).take n) := if_pos h

/-- The file has the magic, and is long enough for a header and a checksum. -/
def Headed (s : Bytes) : Prop := kMagicLen + 5 ≤ s.length ∧ s.take kMagicLen = kMagic

/-- The last four bytes are the checksum of what is before them. -/
def Sealed (s : Bytes) : Prop :=
  (crc32 (s.take (s.length - 4))).toNat = LittleEndian.get (s.drop (s.length - 4))

/-- The magic can be checked. -/
instance : DecidablePred Headed := fun s => by
  unfold Headed
  infer_instance

/-- The checksum can be checked. -/
instance : DecidablePred Sealed := fun s => by
  unfold Sealed
  infer_instance

/-- The magic check decides `Headed`. -/
theorem hasMagic_eq (s : Bytes) : hasMagic s = .ok (decide (Headed s)) := by
  unfold hasMagic Headed
  split_ifs with h
  · simp [Nat.not_le.2 h]
  · rw [slice_eq_ok (by omega), ok_bind, List.drop_zero]
    simp [Nat.not_lt.1 h]

/-- The checksum check decides `Sealed`. -/
theorem checksumOk_eq {s : Bytes} (h : 4 ≤ s.length) : checksumOk s = .ok (decide (Sealed s)) := by
  have htrailer : (s.drop (s.length - 4)).take 4 = s.drop (s.length - 4) :=
    List.take_of_length_le (by rw [List.length_drop]; omega)
  unfold checksumOk Sealed
  dsimp only
  rw [slice_eq_ok (by omega), ok_bind, slice_eq_ok (by omega), ok_bind, List.drop_zero, htrailer]

/-- The state in which `LoadFromFile` begins to read. -/
def start (s : Bytes) : LoadState := ⟨⟨s, kMagicLen, true⟩, 0⟩

/-- `LoadFromFile` of a file with some content. -/
theorem loadFromFile_data (flips : ℕ → ℕ → Bool) (path s : Bytes) (db : Database) :
    loadFromFile flips path (.data s) db =
      if Headed s then
        if Sealed s then replaceBy db (readDump flips (start s))
        else .ok (some (bytes "CRC mismatch (corrupt dump)"), db)
      else .ok (some (bytes "bad magic (not a TINYREDIS dump)"), db) := by
  unfold loadFromFile
  dsimp only
  rw [hasMagic_eq, ok_bind]
  by_cases hhead : Headed s
  · have hlen : 4 ≤ s.length := le_trans (by decide) hhead.1
    rw [checksumOk_eq hlen, ok_bind]
    by_cases hseal : Sealed s <;> simp [hhead, hseal, start]
  · simp [hhead]

end TinyRedis.Rdb

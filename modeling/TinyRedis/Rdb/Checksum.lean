import TinyRedis.Lib.Crc
import TinyRedis.Rdb.File

/-!
# The checksum detects short corruption

`Crc32` is a cyclic redundancy check (`crc32_eq_run`), with a table for the shifts of a byte. So a
file in which a few neighbouring bytes were changed, or only the checksum, is refused.
-/

namespace TinyRedis.Rdb

open Lib List

/-- The polynomial of `Crc32`. -/
def crcPoly : BitVec 32 := 0xEDB88320#32

/-- Masking with one reads the lowest bit. -/
theorem and_one_eq_one_iff (c : UInt32) : c &&& 1 = 1 ↔ c.toBitVec.getLsbD 0 = true := by
  rw [← UInt32.toBitVec_inj, UInt32.toBitVec_and]
  have hone := BitVec.and_one_eq_setWidth_ofBool_getLsbD (x := c.toBitVec)
  rw [show (1 : UInt32).toBitVec = 1#32 from rfl, hone]
  cases c.toBitVec.getLsbD 0 <;> decide

/-- One round of the table's loop is one shift of the library. -/
theorem crcBit_toBitVec (c : UInt32) : (crcBit c).toBitVec = Crc.shift crcPoly c.toBitVec := by
  unfold crcBit Crc.shift
  simp only [and_one_eq_one_iff]
  split_ifs <;> simp [crcPoly]

/-- An entry of the table is eight shifts of its index. -/
theorem crcTable_toBitVec (i : UInt8) :
    (crcTable i).toBitVec = (Crc.shift crcPoly)^[8] (i.toBitVec.setWidth 32) := by
  have hsemi : Function.Semiconj UInt32.toBitVec crcBit (Crc.shift crcPoly) := crcBit_toBitVec
  exact (hsemi.iterate_right 8) i.toUInt32

/-- A byte enters the checksum. -/
theorem crcStep_toBitVec (c : UInt32) (b : UInt8) :
    (crcTable (c.toUInt8 ^^^ b) ^^^ (c >>> 8)).toBitVec =
      Crc.step crcPoly c.toBitVec b.toBitVec := by
  rw [Crc.step_eq_table, UInt32.toBitVec_xor, crcTable_toBitVec]
  simp

/-- `Crc32` is a cyclic redundancy check. -/
theorem crc32_eq_run (data : Bytes) :
    (crc32 data).toBitVec =
      Crc.run crcPoly 0xFFFFFFFF#32 (data.map UInt8.toBitVec) ^^^ 0xFFFFFFFF#32 := by
  have hfold : ∀ (data : Bytes) (c : UInt32),
      (data.foldl (fun (crc : UInt32) b =>
        crcTable (crc.toUInt8 ^^^ b) ^^^ (crc >>> 8)) c).toBitVec =
        Crc.run crcPoly c.toBitVec (data.map UInt8.toBitVec) := by
    intro data
    induction data with
    | nil => exact fun c => rfl
    | cons b data ih =>
      intro c
      rw [foldl_cons, ih, crcStep_toBitVec]
      rfl
  unfold crc32
  rw [UInt32.toBitVec_xor, hfold]
  rfl

/-- A bit enters the reflected register: the polynomial is added if the bit differs from the one
that falls out. -/
def crcBitIn (c : UInt32) (b : Bool) : UInt32 :=
  if (decide (c &&& 1 = 1) ^^ b) = true then (0xEDB88320 : UInt32) ^^^ (c >>> 1) else c >>> 1

/-- The checksum bit by bit, with the least significant bit of a byte first. -/
def crc32Bitwise (data : Bytes) : UInt32 :=
  let bits := data.flatMap fun b => Crc.bitsOf b.toBitVec
  ~~~(bits.foldl crcBitIn 0xFFFFFFFF)

/-- Feeding a bit is the library's step. -/
theorem crcBitIn_toBitVec (c : UInt32) (b : Bool) :
    (crcBitIn c b).toBitVec = Crc.bitStep crcPoly c.toBitVec b := by
  have hhigh : (c.toBitVec ^^^ (BitVec.ofBool b).setWidth 32) >>> 1 = c.toBitVec >>> 1 := by
    rw [BitVec.ushiftRight_xor_distrib]
    cases b with
    | false => exact BitVec.xor_zero
    | true => exact BitVec.xor_zero
  have hlow : (c.toBitVec ^^^ (BitVec.ofBool b).setWidth 32).getLsbD 0 =
      (c.toBitVec.getLsbD 0 ^^ b) := by
    cases b with
    | false => simp
    | true => simp
  have hbit : decide (c &&& 1 = 1) = c.toBitVec.getLsbD 0 := by
    rw [Bool.eq_iff_iff, decide_eq_true_iff]
    exact and_one_eq_one_iff c
  unfold crcBitIn Crc.bitStep Crc.shift
  rw [hhigh, hlow, hbit]
  split_ifs <;> simp [crcPoly]

/-- The table makes no difference: `Crc32` is the checksum bit by bit. -/
theorem crc32_eq_bitwise (data : Bytes) : crc32 data = crc32Bitwise data := by
  have hbits : ∀ (bits : List Bool) (c : UInt32),
      (bits.foldl crcBitIn c).toBitVec = bits.foldl (Crc.bitStep crcPoly) c.toBitVec := by
    intro bits
    induction bits with
    | nil => exact fun c => rfl
    | cons b bits ih =>
      intro c
      rw [foldl_cons, ih, crcBitIn_toBitVec]
      rfl
  rw [← UInt32.toBitVec_inj, crc32_eq_run, Crc.run_eq_foldl_bitStep (by decide), flatMap_map]
  unfold crc32Bitwise
  dsimp only
  rw [UInt32.toBitVec_not, hbits]
  exact BitVec.xor_allOnes

/-- Two strings agree outside of a window. -/
theorem agree_outside {x y : Bytes} {a k : ℕ} (h : ∀ i, x[i]? ≠ y[i]? → a ≤ i ∧ i < a + k) :
    x.take a = y.take a ∧ x.drop (a + k) = y.drop (a + k) := by
  constructor
  · refine ext_getElem? fun i => ?_
    rw [getElem?_take, getElem?_take]
    split_ifs with hi
    · by_contra hc
      exact absurd (h i hc).1 (by omega)
    · rfl
  · refine ext_getElem? fun i => ?_
    rw [getElem?_drop, getElem?_drop]
    by_contra hc
    exact absurd (h (a + k + i) hc).2 (by omega)

/-- Strings with the same checksum that differ within four neighbouring bytes only are equal. -/
theorem eq_of_crc32_eq {x y : Bytes} {a : ℕ} (hlen : x.length = y.length)
    (h : ∀ i, x[i]? ≠ y[i]? → a ≤ i ∧ i < a + 4) (hcrc : crc32 x = crc32 y) : x = y := by
  have hsplit : ∀ z : Bytes, z = z.take a ++ (z.drop a).take 4 ++ z.drop (a + 4) := by
    intro z
    rw [append_assoc, ← drop_drop, take_append_drop, take_append_drop]
  obtain ⟨hpre, hpost⟩ := agree_outside h
  by_contra hne
  have hwindow : (x.drop a).take 4 ≠ (y.drop a).take 4 := by
    intro hw
    exact hne (by rw [hsplit x, hsplit y, hpre, hpost, hw])
  have hrun := congrArg UInt32.toBitVec hcrc
  rw [crc32_eq_run, crc32_eq_run, BitVec.xor_left_inj, hsplit x, hsplit y, hpre, hpost] at hrun
  simp only [map_append] at hrun
  refine Crc.run_ne_of_window (by decide) (by decide) _ _ _ ?_ ?_ (fun hc => hwindow ?_) hrun
  · simp [hlen]
  · rw [length_map, length_take]
    omega
  · exact map_injective_iff.2 (fun b b' hb => UInt8.toBitVec_inj.1 hb) hc

/-- What is serialized carries its checksum. -/
theorem sealed_serialize (db : Database) : Sealed (serialize db) := by
  have hcrc := (crc32 (serializeBody db)).toNat_lt
  unfold Sealed serialize putU32
  rw [length_append, LittleEndian.length_put, Nat.add_sub_cancel, take_left,
    drop_left, LittleEndian.get_put_of_lt (by omega)]

/-- A file that is not sealed is refused. -/
theorem refused_of_not_sealed {s : Bytes} (h : ¬Sealed s) (flips : ℕ → ℕ → Bool) (path : Bytes)
    (target : Database) :
    ∃ msg, loadFromFile flips path (.data s) target = .ok (some msg, target) := by
  rw [loadFromFile_data, if_neg h]
  split_ifs
  · exact ⟨_, rfl⟩
  · exact ⟨_, rfl⟩

/-- A file of the same length that differs from a dump in some byte, within four neighbouring bytes
before the checksum or within the checksum, is refused. -/
theorem short_corruption_detected (db : Database) {s : Bytes}
    (hlen : s.length = (serialize db).length) (hne : s ≠ serialize db)
    (h : (∃ a, a + 4 ≤ (serialize db).length - 4 ∧
        ∀ i, s[i]? ≠ (serialize db)[i]? → a ≤ i ∧ i < a + 4) ∨
      ∀ i, s[i]? ≠ (serialize db)[i]? → (serialize db).length - 4 ≤ i)
    (flips : ℕ → ℕ → Bool) (path : Bytes) (target : Database) :
    ∃ msg, loadFromFile flips path (.data s) target = .ok (some msg, target) := by
  refine refused_of_not_sealed (fun hs => hne ?_) flips path target
  have hdump := sealed_serialize db
  unfold Sealed at hs hdump
  rw [hlen] at hs
  generalize serialize db = dump at hlen h hs hdump
  generalize hbody : dump.length - 4 = body at h hs hdump
  suffices hparts : s.take body = dump.take body ∧ s.drop body = dump.drop body by
    rw [← take_append_drop body s, hparts.1, hparts.2, take_append_drop]
  rcases h with ⟨a, ha, hwindow⟩ | htrailer
  · -- The checksum is the same, so the bytes before it are.
    have hdrop : s.drop body = dump.drop body := by
      have hpost := congrArg (List.drop (body - (a + 4))) (agree_outside hwindow).2
      rwa [drop_drop, drop_drop, Nat.add_sub_cancel' ha] at hpost
    refine ⟨?_, hdrop⟩
    refine eq_of_crc32_eq (a := a) (by simp [hlen]) (fun i hi => hwindow i ?_) ?_
    · rw [getElem?_take, getElem?_take] at hi
      split_ifs at hi
      · exact hi
      · exact absurd rfl hi
    · rw [hdrop, ← hdump] at hs
      exact UInt32.toNat_inj.1 hs
  · -- The bytes before the checksum are the same, so their checksum is.
    have htake : s.take body = dump.take body := by
      refine ext_getElem? fun i => ?_
      rw [getElem?_take, getElem?_take]
      split_ifs with hi
      · by_contra hc
        exact absurd (htrailer i hc) (by omega)
      · rfl
    rw [htake, hdump] at hs
    exact ⟨htake, LittleEndian.get_injective (by simp [hlen]) hs.symm⟩

/-- A database with the key `k`. -/
def oneKey : Database :=
  Database.empty.set ⟨1, by decide⟩ (bytes "k") (.rawString (bytes "v")) 0

/-- The value of the key is changed in the dump. -/
theorem short_corruption_detected_oneByte :
    ∃ msg, loadFromFile (fun _ _ => false) [] (.data ((serialize oneKey).set 35 119)) .empty =
      .ok (some msg, .empty) := by
  refine short_corruption_detected oneKey (length_set) ?_ (.inl ⟨32, by decide +kernel, ?_⟩)
    _ _ _
  · intro h
    have hbyte := congrArg (fun s => s[35]?) h
    rw [getElem?_set_self (by decide +kernel)] at hbyte
    exact absurd hbyte (by decide +kernel)
  · intro i hi
    rw [getElem?_set] at hi
    split_ifs at hi with h1
    · omega
    · omega
    · exact absurd rfl hi

end TinyRedis.Rdb

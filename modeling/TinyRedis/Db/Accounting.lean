import Mathlib.Algebra.Order.BigOperators.Group.Finset
import TinyRedis.Db.Tables

/-!
# Memory accounting in the database

`used_memory` is the sum of the sizes of all entries (`Accounted`), and every function of `Database`
keeps it so: `MemSub` then never stops at zero.
-/

namespace TinyRedis.Database

open Lib

variable {db db' : Database} {i : DbIndex} {key : Bytes} {e : Entry} {tab : Table} {n : ℕ}

/-- The sum of the sizes of the entries of a key space. -/
def tableSize (t : Table) : ℕ := t.weight entrySize

/-- The sum of the sizes of all entries. -/
def totalSize (db : Database) : ℕ := ∑ i, tableSize (db.dbs i)

/-- `used_memory` is the sum of the sizes of all entries. -/
def Accounted (db : Database) : Prop := db.used = db.totalSize

/-- The empty database. -/
theorem accounted_empty : Accounted empty := by
  unfold Accounted totalSize empty
  simp [tableSize, Dict.weight_empty]

/-- A key space is replaced by another. -/
theorem totalSize_of_table (h : ∀ j, db'.table j = if j = i then tab else db.table j) :
    db'.totalSize + tableSize (db.dbs i) = db.totalSize + tableSize tab := by
  have hsum : db'.totalSize = (db.setTable i tab).totalSize :=
    Finset.sum_congr rfl fun j _ =>
      congrArg tableSize ((h j).trans (table_setTable db i j tab).symm)
  rw [hsum]
  exact sum_setTable tableSize db i tab

/-- An entry is part of what is accounted for. -/
theorem tableSize_erase (h : (db.table i).lookup key = some e) :
    entrySize key e + tableSize ((db.table i).erase key) = tableSize (db.dbs i) :=
  Dict.weight_erase entrySize h

/-- A key space is part of the database. -/
theorem tableSize_le_totalSize (db : Database) (i : DbIndex) :
    tableSize (db.dbs i) ≤ db.totalSize :=
  Finset.single_le_sum (fun j _ => Nat.zero_le (tableSize (db.dbs j))) (Finset.mem_univ i)

/-- So is an entry. -/
theorem entrySize_le_totalSize (h : (db.table i).lookup key = some e) :
    entrySize key e ≤ db.totalSize := by
  have h1 := tableSize_erase h
  have h2 := tableSize_le_totalSize db i
  omega

/-- An entry is dropped together with its size. If `used_memory` is too high, it stays so. -/
theorem used_drop (hdb : db.used = db.totalSize + n) (h : (db.table i).lookup key = some e) :
    (db.drop i key e).used = (db.drop i key e).totalSize + n := by
  have hle := entrySize_le_totalSize h
  have hsize := tableSize_erase h
  have htotal := totalSize_of_table fun j => table_drop db i j key e
  show (db.memSub (entrySize key e)).used = _
  rw [used_memSub]
  omega

/-- An entry is dropped. -/
theorem accounted_drop (hdb : db.Accounted) (h : (db.table i).lookup key = some e) :
    (db.drop i key e).Accounted :=
  (used_drop (hdb.trans (Nat.add_zero _).symm) h).trans (Nat.add_zero _)

/-- `Lookup` keeps the sum. -/
theorem accounted_lookup (hdb : db.Accounted) (i : DbIndex) (key : Bytes) (now : Int64) :
    (db.lookup i key now).2.Accounted :=
  lookup_cases (P := fun r => r.2.Accounted) (fun _ => hdb) (fun _ he _ => accounted_drop hdb he)
    fun _ _ _ => hdb

/-- `Delete` keeps the sum. -/
theorem accounted_delete (hdb : db.Accounted) (i : DbIndex) (key : Bytes) :
    (db.delete i key).2.Accounted := by
  unfold delete
  cases h : (db.table i).lookup key with
  | none => exact hdb
  | some e => exact accounted_drop hdb h

/-- A table with one more entry, in place of the old one. -/
theorem tableSize_insert (tab : Table) (key : Bytes) (e : Entry) :
    tableSize (tab.insert key e) = entrySize key e + tableSize (tab.erase key) :=
  Dict.weight_insert entrySize tab key e

/-- An entry is put in together with its size. If `used_memory` is too high, it stays so. -/
theorem used_set_of_used (hdb : db.used = db.totalSize + n) (i : DbIndex) (key : Bytes)
    (v : Value) (t : Int64) : (db.set i key v t).used = (db.set i key v t).totalSize + n := by
  have htotal := totalSize_of_table fun j => table_set db i j key v t
  have hle := tableSize_le_totalSize db i
  have hsplit : ((db.table i).lookup key).elim 0 (entrySize key) +
      tableSize ((db.table i).erase key) = tableSize (db.dbs i) := by
    cases h : (db.table i).lookup key with
    | none =>
      rw [Dict.erase_of_lookup_none h]
      exact Nat.zero_add _
    | some old => exact tableSize_erase h
  rw [tableSize_insert] at htotal
  rw [used_set]
  omega

/-- `Set` keeps the sum. -/
theorem accounted_set (hdb : db.Accounted) (i : DbIndex) (key : Bytes) (v : Value) (t : Int64) :
    (db.set i key v t).Accounted :=
  (used_set_of_used (hdb.trans (Nat.add_zero _).symm) i key v t).trans (Nat.add_zero _)

/-! ## Writes through a pointer -/

/-- A write to an entry changes the sum of the sizes by the change in its size. -/
theorem totalSize_assign (h : (db.table i).lookup key = some e) (e' : Entry) :
    (db.assign i key e').totalSize + entrySize key e = db.totalSize + entrySize key e' := by
  have hsize := tableSize_erase h
  have htotal := totalSize_of_table fun j => table_assign db i j key e'
  rw [tableSize_insert] at htotal
  omega

/-- A write that keeps the size of the value. -/
theorem accounted_assign (hdb : db.Accounted) (h : (db.table i).lookup key = some e) {e' : Entry}
    (he : valueSize e'.value = valueSize e.value) : (db.assign i key e').Accounted := by
  have htotal := totalSize_assign h e'
  have hentry : entrySize key e' = entrySize key e := by
    unfold entrySize
    rw [he]
  unfold Accounted at hdb ⊢
  show db.used = _
  omega

/-! ## Whole tables -/

/-- The sizes are subtracted one by one. -/
theorem used_foldl_memSub (sizes : List ((_ : Bytes) × Entry)) (db : Database) :
    (sizes.foldl (fun db kv => db.memSub (entrySize kv.1 kv.2)) db).used =
      db.used - (sizes.map fun kv => entrySize kv.1 kv.2).sum := by
  induction sizes generalizing db with
  | nil => rfl
  | cons kv sizes ih =>
    rw [List.foldl_cons, ih, used_memSub, List.map_cons, List.sum_cons]
    omega

/-- `FlushDb` subtracts all of its key space. -/
theorem accounted_flushDb (hdb : db.Accounted) (i : DbIndex) : (db.flushDb i).Accounted := by
  have htotal := totalSize_of_table (table_flushDb db i)
  have hused : (db.flushDb i).used = db.used - tableSize (db.dbs i) :=
    used_foldl_memSub (db.table i).entries db
  have hempty : tableSize ∅ = 0 := Dict.weight_empty _
  unfold Accounted at hdb ⊢
  omega

/-- One key of `ActiveExpireCycle`. -/
theorem accounted_expireKey {s : ℕ × Database} {kv : Bytes × Entry} (now : Int64)
    (h : s.2.Accounted) (he : (s.2.table i).lookup kv.1 = some kv.2) :
    (expireKey i now s kv).2.Accounted := by
  unfold expireKey
  split_ifs
  · exact accounted_drop h he
  · exact h

/-- One key space of `ActiveExpireCycle`. -/
theorem accounted_expireTable {keys : List (Bytes × Entry)} (rng : ℕ) (now : Int64)
    (s : ℕ × Database) (hdb : s.2.Accounted) (hkeys : keys.Perm (s.2.table i).toList) :
    (expireTable i rng keys now s).2.Accounted :=
  expireTable_keeps_of_perm (I := fun s => s.2.Accounted) rng hkeys hdb
    fun _ _ he h => accounted_expireKey now h he

end TinyRedis.Database

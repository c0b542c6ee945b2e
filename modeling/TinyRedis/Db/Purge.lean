import Mathlib.Algebra.BigOperators.Fin
import TinyRedis.Db.Tables

/-!
# Entries whose deadline has come

`purge t` takes the entries out whose deadline has come at the time `t`, and `Alike t` says that two
databases are the same without them. Whether such entries are still there makes no difference to a
lookup, and none to what is left of the database after a write. `ActiveExpireCycle` takes out some
of them, and nothing else.
-/

namespace TinyRedis.Database

open Lib

variable {db db' db'' : Database} {i : DbIndex} {key : Bytes} {e : Entry} {t t' : Int64}
  {tab : Table}

/-- The deadline of the entry has not come. -/
def alive (t : Int64) (_ : Bytes) (e : Entry) : Bool := !expired e t

/-- A table without the entries whose deadline has come. -/
def purgeTable (t : Int64) (tab : Table) : Table := Dict.filter (alive t) tab

/-- A database without the entries whose deadline has come. -/
def purge (t : Int64) (db : Database) : Database :=
  { db with dbs := fun i => purgeTable t (db.table i) }

/-- The databases are the same but for entries whose deadline has come. -/
def Alike (t : Int64) (db db' : Database) : Prop :=
  ∀ i, purgeTable t (db.table i) = purgeTable t (db'.table i)

/-! ## Databases that are alike -/

/-- A database is like itself. -/
theorem Alike.refl (t : Int64) (db : Database) : Alike t db db := fun _ => rfl

/-- The relation goes both ways. -/
theorem Alike.symm (h : Alike t db db') : Alike t db' db := fun i => (h i).symm

/-- Over a third database. -/
theorem Alike.trans (h : Alike t db db') (h' : Alike t db' db'') : Alike t db db'' :=
  fun i => (h i).trans (h' i)

/-- A purged database is like the one before. -/
theorem alike_purge (t : Int64) (db : Database) : Alike t db (db.purge t) :=
  fun i => (Dict.filter_filter_of_imp (alive t) (fun _ _ h => h) (db.table i)).symm

/-- Only the tables count. -/
theorem alike_of_table (h : db'.table = db.table) : Alike t db' db := fun i => by rw [h]

/-- A deadline that has come stays so. -/
theorem expired_mono (htt : t ≤ t') (h : expired e t = true) : expired e t' = true := by
  unfold expired at h ⊢
  rw [Bool.and_eq_true, decide_eq_true_iff, decide_eq_true_iff] at h ⊢
  exact ⟨h.1, Int64.le_trans h.2 htt⟩

/-- An entry that is alive was so before. -/
theorem alive_anti (htt : t ≤ t') (h : alive t' key e = true) : alive t key e = true := by
  unfold alive at h ⊢
  cases he : expired e t with
  | false => rfl
  | true =>
    rw [expired_mono htt he] at h
    cases h

/-- Later, there is less to tell databases apart. -/
theorem Alike.mono (h : Alike t db db') (htt : t ≤ t') : Alike t' db db' := by
  intro i
  have hpurge : ∀ tab, purgeTable t' (purgeTable t tab) = purgeTable t' tab :=
    fun tab => Dict.filter_filter_of_imp _ (fun _ _ => alive_anti htt) tab
  rw [← hpurge (db.table i), h i, hpurge]

/-- The live entry of a key. -/
theorem lookup_purgeTable_iff :
    (purgeTable t tab).lookup key = some e ↔ tab.lookup key = some e ∧ expired e t = false := by
  unfold purgeTable
  rw [Dict.lookup_filter_eq_some_iff]
  exact and_congr_right fun _ => iff_of_eq (Bool.not_eq_true' _)

/-- Live entries are in both databases. -/
theorem Alike.lookup_of_live (h : Alike t db db') (he : (db.table i).lookup key = some e)
    (hlive : expired e t = false) : (db'.table i).lookup key = some e := by
  have hp := lookup_purgeTable_iff.2 ⟨he, hlive⟩
  rw [h i] at hp
  exact (lookup_purgeTable_iff.1 hp).1

/-! ## Lookups and writes -/

/-- What `Lookup` returns. -/
theorem lookup_fst (db : Database) (i : DbIndex) (key : Bytes) (t : Int64) :
    (db.lookup i key t).1 = (purgeTable t (db.table i)).lookup key := by
  refine lookup_cases (P := fun r => r.1 = _) (fun hnone => ?_) (fun e he hexp => ?_)
    fun e he hexp => (lookup_purgeTable_iff.2 ⟨he, hexp⟩).symm
  all_goals
    refine (Option.eq_none_iff_forall_ne_some.2 fun e' he' => ?_).symm
    have hlive := lookup_purgeTable_iff.1 he'
  · cases hnone.symm.trans hlive.1
  · cases he.symm.trans hlive.1
    cases hexp.symm.trans hlive.2

/-- A lookup finds the same in both. -/
theorem Alike.lookup_fst (h : Alike t db db') (i : DbIndex) (key : Bytes) :
    (db.lookup i key t).1 = (db'.lookup i key t).1 := by
  rw [Database.lookup_fst, Database.lookup_fst, h i]

/-- An entry whose deadline has come can be dropped. -/
theorem alike_drop (he : (db.table i).lookup key = some e) (hexp : expired e t = true) :
    Alike t (db.drop i key e) db := by
  intro j
  rw [table_drop]
  split_ifs with hj
  · subst hj
    refine Dict.filter_erase_of_lookup _ he ?_
    unfold alive
    rw [hexp]
    rfl
  · rfl

/-- What `Lookup` drops makes no difference. -/
theorem alike_lookup (db : Database) (i : DbIndex) (key : Bytes) (t : Int64) :
    Alike t (db.lookup i key t).2 db :=
  lookup_cases (P := fun r => Alike t r.2 db) (fun _ => .refl t db) (fun _ => alike_drop)
    fun _ _ _ => .refl t db

/-- `Delete` of a key whose deadline has come, if it is there. -/
theorem alike_delete (hkey : ∀ e, (db.table i).lookup key = some e → expired e t = true) :
    Alike t (db.delete i key).2 db := by
  unfold Database.delete
  cases he : (db.table i).lookup key with
  | none => exact Alike.refl t db
  | some e => exact alike_drop he (hkey e he)

namespace Alike

variable (h : Alike t db db')
include h

/-- The same write to one table. -/
theorem write {dst dst' : Database} {tab' : Table}
    (hd : ∀ j, dst.table j = if j = i then tab else db.table j)
    (hd' : ∀ j, dst'.table j = if j = i then tab' else db'.table j)
    (htab : purgeTable t tab = purgeTable t tab') : Alike t dst dst' := by
  intro j
  rw [hd, hd']
  split_ifs
  · exact htab
  · exact h j

/-- The same entry is inserted. -/
theorem insert (i : DbIndex) (key : Bytes) (e : Entry) :
    purgeTable t ((db.table i).insert key e) = purgeTable t ((db'.table i).insert key e) := by
  unfold purgeTable
  rw [Dict.filter_insert, Dict.filter_insert]
  exact congrArg
    (fun tab : Table => if alive t key e = true then tab.insert key e else tab.erase key) (h i)

/-- The same key is erased. -/
theorem erase (i : DbIndex) (key : Bytes) :
    purgeTable t ((db.table i).erase key) = purgeTable t ((db'.table i).erase key) := by
  unfold purgeTable
  rw [Dict.filter_erase, Dict.filter_erase]
  exact congrArg (fun tab : Table => tab.erase key) (h i)

/-- `Set` keeps databases alike. -/
theorem set (i : DbIndex) (key : Bytes) (v : Value) (d : Int64) :
    Alike t (db.set i key v d) (db'.set i key v d) :=
  h.write (fun j => table_set db i j key v d) (fun j => table_set db' i j key v d)
    (h.insert i key _)

/-- So does a write through a pointer. -/
theorem assign (i : DbIndex) (key : Bytes) (e : Entry) :
    Alike t (db.assign i key e) (db'.assign i key e) :=
  h.write (fun j => table_assign db i j key e) (fun j => table_assign db' i j key e)
    (h.insert i key e)

/-- So does `Delete`. -/
theorem delete (i : DbIndex) (key : Bytes) : Alike t (db.delete i key).2 (db'.delete i key).2 :=
  h.write (fun j => table_delete db i j key) (fun j => table_delete db' i j key) (h.erase i key)

/-- So does `FlushDb`. -/
theorem flushDb (i : DbIndex) : Alike t (db.flushDb i) (db'.flushDb i) :=
  h.write (table_flushDb db i) (table_flushDb db' i) rfl

/-- So does `FlushAll`. -/
theorem flushAll : Alike t db.flushAll db'.flushAll := by
  unfold Database.flushAll
  induction List.finRange kNumDatabases generalizing db db' with
  | nil => exact h
  | cons i l ih => exact ih (h.flushDb i)

end Alike

/-! ## The active cycle -/

/-- The database `db'` is `db` without some entries whose deadline has come. -/
def Shed (t : Int64) (db db' : Database) : Prop :=
  ∀ i key, (db'.table i).lookup key = (db.table i).lookup key ∨
    ∃ e, (db.table i).lookup key = some e ∧ expired e t = true ∧ (db'.table i).lookup key = none

/-- Nothing is shed. -/
theorem Shed.refl (t : Int64) (db : Database) : Shed t db db := fun _ _ => .inl rfl

/-- First some entries are shed, then others. -/
theorem Shed.trans (h : Shed t db db') (h' : Shed t db' db'') : Shed t db db'' := by
  intro i key
  rcases h i key with h | ⟨e, he, hexp, h⟩
  · rcases h' i key with h' | ⟨e, he, hexp, h'⟩
    · exact .inl (h'.trans h)
    · exact .inr ⟨e, h ▸ he, hexp, h'⟩
  · rcases h' i key with h' | ⟨e', he', -, -⟩
    · exact .inr ⟨e, he, hexp, h'.trans h⟩
    · rw [h] at he'
      cases he'

/-- One entry is shed. -/
theorem shed_drop (he : (db.table i).lookup key = some e) (hexp : expired e t = true) :
    Shed t db (db.drop i key e) := by
  intro j key'
  rw [lookup_drop]
  split_ifs with h
  · obtain ⟨rfl, rfl⟩ := h
    exact .inr ⟨e, he, hexp, rfl⟩
  · exact .inl rfl

/-- The keys of all key spaces. -/
theorem totalKeys_eq (db : Database) : db.totalKeys = ∑ i, (db.table i).size :=
  (Fin.sum_univ_def _).symm

/-- One key less. -/
theorem totalKeys_drop (he : (db.table i).lookup key = some e) :
    (db.drop i key e).totalKeys + 1 = db.totalKeys := by
  have hsum := sum_setTable Dict.size (db.memSub (entrySize key e)) i ((db.table i).erase key)
  rw [table_memSub] at hsum
  rw [totalKeys_eq, totalKeys_eq]
  unfold drop
  rw [table_memSub]
  have hsize : Dict.size ((db.table i).erase key) + 1 = Dict.size (db.table i) :=
    (Dict.entries_perm_erase he).length_eq.symm
  omega

/-- `Lookup` adds to `total_expired_` the entries that it drops, and no others. -/
theorem exists_dropped_lookup (db : Database) (i : DbIndex) (key : Bytes) (now : Int64) :
    ∃ n, (db.lookup i key now).2.totalExpired = db.totalExpired + n ∧
      (db.lookup i key now).2.totalKeys + n = db.totalKeys := by
  refine lookup_cases
    (P := fun r => ∃ n, r.2.totalExpired = db.totalExpired + n ∧ r.2.totalKeys + n = db.totalKeys)
    (fun _ => ⟨0, rfl, Nat.add_zero _⟩) (fun e he _ => ⟨1, ?_, totalKeys_drop he⟩)
    fun _ _ _ => ⟨0, rfl, Nat.add_zero _⟩
  exact congrArg (· + 1) (apart_totalExpired.drop db i key e)

/-- What a part of `ActiveExpireCycle` does to the count of deleted keys and the database. -/
structure Expires (t : Int64) (s s' : ℕ × Database) : Prop where
  shed : Shed t s.2 s'.2
  alike : Alike t s'.2 s.2
  count : s'.1 + s'.2.totalKeys = s.1 + s.2.totalKeys

/-- No key is visited. -/
theorem Expires.refl (t : Int64) (s : ℕ × Database) : Expires t s s :=
  ⟨.refl t _, .refl t _, rfl⟩

/-- Some keys are visited, then others. -/
theorem Expires.trans {s s' s'' : ℕ × Database} (h : Expires t s s') (h' : Expires t s' s'') :
    Expires t s s'' :=
  ⟨h.shed.trans h'.shed, h'.alike.trans h.alike, h'.count.trans h.count⟩

/-- One key. -/
theorem expires_expireKey {s : ℕ × Database} {kv : Bytes × Entry}
    (he : (s.2.table i).lookup kv.1 = some kv.2) : Expires t s (expireKey i t s kv) := by
  unfold expireKey
  split_ifs with hexp
  · refine ⟨shed_drop he hexp, alike_drop he hexp, ?_⟩
    have hcount := totalKeys_drop he
    show s.1 + 1 + (s.2.drop i kv.1 kv.2).totalKeys = _
    omega
  · exact .refl t s

/-- One key space of `ActiveExpireCycle`, in any order and from any offset. -/
theorem expires_expireTable {rng : ℕ} {keys : List (Bytes × Entry)} (s : ℕ × Database)
    (hkeys : keys.Perm (s.2.table i).toList) : Expires t s (expireTable i rng keys t s) :=
  expireTable_keeps_of_perm rng hkeys (.refl t s) fun _ _ he h => h.trans (expires_expireKey he)

end TinyRedis.Database

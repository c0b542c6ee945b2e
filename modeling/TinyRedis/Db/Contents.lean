import TinyRedis.Db.Tables

/-!
# Databases with the same contents

A table is an unordered map, so two databases are the same to every reader if lookups in their
tables give the same entries, and their counters agree (`Same`). Writes to one entry and the lookup
and creation of another one can be done in either order.
-/

namespace TinyRedis.Database

open Lib

/-- Two databases hold the same entries, and their counters agree. -/
structure Same (db db' : Database) : Prop where
  entries : ∀ i key, (db.table i).lookup key = (db'.table i).lookup key
  used : db.used = db'.used
  maxMemory : db.maxMemory = db'.maxMemory
  totalExpired : db.totalExpired = db'.totalExpired

/-- The entries after a write through a pointer. -/
theorem lookup_assign (db : Database) (i j : DbIndex) (key key' : Bytes) (e : Entry) :
    ((db.assign i key e).table j).lookup key' =
      if j = i ∧ key' = key then some e else (db.table j).lookup key' := by
  rw [table_assign, lookup_written]

/-- The entries after `Set`. -/
theorem lookup_set (db : Database) (i j : DbIndex) (key key' : Bytes) (v : Value) (t : Int64) :
    ((db.set i key v t).table j).lookup key' =
      if j = i ∧ key' = key then some ⟨v, t⟩ else (db.table j).lookup key' := by
  rw [table_set, lookup_written]

/-- `Lookup` counts what it drops. -/
theorem totalExpired_lookup (db : Database) (i : DbIndex) (key : Bytes) (now : Int64) :
    (db.lookup i key now).2.totalExpired =
      db.totalExpired + (((db.table i).lookup key).filter (expired · now)).elim 0 fun _ => 1 := by
  refine lookup_cases (P := fun r => r.2.totalExpired = db.totalExpired + _) (fun hnone => ?_)
    (fun e he hexp => ?_) fun e he hexp => ?_
  · rw [hnone]
    rfl
  · rw [he, Option.filter_some, if_pos hexp]
    exact congrArg (· + 1) (apart_totalExpired.drop db i key e)
  · rw [he, Option.filter_some, hexp]
    rfl

namespace Same

variable {db db' db'' : Database}

/-- A database and itself. -/
theorem refl (db : Database) : Same db db := ⟨fun _ _ => rfl, rfl, rfl, rfl⟩

/-- The relation goes both ways. -/
theorem symm (h : Same db db') : Same db' db :=
  ⟨fun i key => (h.entries i key).symm, h.used.symm, h.maxMemory.symm, h.totalExpired.symm⟩

/-- Over a third database. -/
theorem trans (h : Same db db') (h' : Same db' db'') : Same db db'' :=
  ⟨fun i key => (h.entries i key).trans (h'.entries i key), h.used.trans h'.used,
    h.maxMemory.trans h'.maxMemory, h.totalExpired.trans h'.totalExpired⟩

/-- The same write through a pointer. -/
theorem assign (h : Same db db') (i : DbIndex) (key : Bytes) (e : Entry) :
    Same (db.assign i key e) (db'.assign i key e) := by
  refine ⟨fun j key' => ?_, h.used, h.maxMemory, h.totalExpired⟩
  rw [lookup_assign, lookup_assign, h.entries]

/-- The same `Set`. -/
theorem set (h : Same db db') (i : DbIndex) (key : Bytes) (v : Value) (t : Int64) :
    Same (db.set i key v t) (db'.set i key v t) := by
  refine ⟨fun j key' => ?_, ?_, ?_, ?_⟩
  · rw [lookup_set, lookup_set, h.entries]
  · rw [used_set, used_set, h.entries, h.used]
  · rw [apart_maxMemory.set, apart_maxMemory.set, h.maxMemory]
  · rw [apart_totalExpired.set, apart_totalExpired.set, h.totalExpired]

end Same

/-- Of two writes to an entry, the second one counts. -/
theorem same_assign_assign (db : Database) (i : DbIndex) (key : Bytes) (e e' : Entry) :
    Same (db.assign i key e) ((db.assign i key e').assign i key e) := by
  refine ⟨fun j key' => ?_, rfl, rfl, rfl⟩
  rw [lookup_assign, lookup_assign, lookup_assign]
  split_ifs <;> rfl

variable (db : Database) (i : DbIndex) {key key' : Bytes} (hne : key ≠ key')

include hne

/-- A write leaves the other entries. -/
theorem lookup_assign_of_ne (e : Entry) :
    ((db.assign i key e).table i).lookup key' = (db.table i).lookup key' := by
  rw [lookup_assign, if_neg fun h => hne h.2.symm]

/-- A write to an entry, before or after the lookup of another key. -/
theorem same_lookup_assign (e : Entry) (now : Int64) :
    Same ((db.assign i key e).lookup i key' now).2 ((db.lookup i key' now).2.assign i key e) := by
  refine ⟨fun j k => ?_, ?_, ?_, ?_⟩
  · rw [lookup_assign]
    by_cases hk : j = i ∧ k = key'
    · -- Both drop the entry, or both leave it.
      obtain ⟨rfl, rfl⟩ := hk
      rw [if_neg fun h => hne h.2.symm]
      have hassign := lookup_assign_of_ne db j hne e
      unfold lookup
      rw [hassign]
      cases (db.table j).lookup k with
      | none => exact hassign
      | some old =>
        dsimp only
        split_ifs
        · exact (lookup_drop _ _ _ _ _ _).trans
            ((if_pos ⟨rfl, rfl⟩).trans ((lookup_drop _ _ _ _ _ _).trans (if_pos ⟨rfl, rfl⟩)).symm)
        · exact hassign
    · rw [lookup_of_ne now hk, lookup_of_ne now hk, lookup_assign]
  · rw [used_lookup, lookup_assign_of_ne _ _ hne]
    exact (used_lookup db i key' now).symm
  · exact (maxMemory_lookup _ i key' now).trans (maxMemory_lookup db i key' now).symm
  · rw [totalExpired_lookup, lookup_assign_of_ne _ _ hne]
    exact (totalExpired_lookup db i key' now).symm

/-- A write to an entry, before or after another one is set. -/
theorem same_set_assign (e : Entry) (v : Value) (t : Int64) :
    Same ((db.assign i key e).set i key' v t) ((db.set i key' v t).assign i key e) := by
  refine ⟨fun j k => ?_, ?_, ?_, ?_⟩
  · rw [lookup_set, lookup_assign, lookup_assign, lookup_set]
    by_cases hk : j = i ∧ k = key'
    · rw [if_pos hk, if_pos hk, if_neg fun h => hne (h.2.symm.trans hk.2)]
    · rw [if_neg hk, if_neg hk]
  · rw [used_set, lookup_assign_of_ne _ _ hne]
    exact (used_set db i key' v t).symm
  · exact (apart_maxMemory.set _ i key' v t).trans (apart_maxMemory.set db i key' v t).symm
  · exact (apart_totalExpired.set _ i key' v t).trans (apart_totalExpired.set db i key' v t).symm

end TinyRedis.Database

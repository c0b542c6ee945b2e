import Mathlib.Algebra.BigOperators.Group.Finset.Piecewise
import TinyRedis.Db.Model

/-!
# What the functions of `Database` do to the tables

A function either writes one entry, or only drops some (`Within`).
-/

namespace TinyRedis.Database

open Lib

variable {β : Type} {f : Database → β} {P : Option Entry × Database → Prop} {db db' : Database}
  {i : DbIndex} {key : Bytes} {e : Entry} {now : Int64} {l keys : List (Bytes × Entry)}
  {s : ℕ × Database} {I : ℕ × Database → Prop}

/-! ## One entry -/

section Entries

variable (db) (i j : DbIndex) (key key' : Bytes) (e : Entry) (v : Value) (t : Int64)

/-- A table is replaced. -/
theorem table_setTable (tab : Table) :
    (db.setTable i tab).table j = if j = i then tab else db.table j :=
  Function.update_apply db.dbs i tab j

/-- `MemSub` only counts. -/
theorem table_memSub (n : ℕ) : (db.memSub n).table = db.table := by
  unfold memSub
  split_ifs <;> rfl

/-- `Set` writes one entry. -/
theorem table_set :
    (db.set i key v t).table j =
      if j = i then (db.table i).insert key ⟨v, t⟩ else db.table j := by
  have hset : ∀ d : Database, d.table = db.table →
      ((d.setTable i ((d.table i).insert key ⟨v, t⟩)).memAdd (entrySize key ⟨v, t⟩)).table j =
      if j = i then (db.table i).insert key ⟨v, t⟩ else db.table j := by
    intro d hd
    rw [← hd]
    exact table_setTable d i j _
  unfold set
  cases (db.table i).lookup key with
  | none => exact hset db rfl
  | some old => exact hset (db.memSub (entrySize key old)) (table_memSub db _)

/-- So does a write through a pointer. -/
theorem table_assign :
    (db.assign i key e).table j = if j = i then (db.table i).insert key e else db.table j :=
  table_setTable db i j _

/-- The database without an entry, and with less memory in use. -/
def drop (db : Database) (i : DbIndex) (key : Bytes) (e : Entry) : Database :=
  (db.memSub (entrySize key e)).setTable i (((db.memSub (entrySize key e)).table i).erase key)

/-- One entry is gone. -/
theorem table_drop :
    (db.drop i key e).table j = if j = i then (db.table i).erase key else db.table j := by
  unfold drop
  rw [table_setTable, table_memSub]

/-- The table after `Delete`, whether the key was there or not. -/
theorem table_delete :
    (db.delete i key).2.table j = if j = i then (db.table i).erase key else db.table j := by
  unfold delete
  cases h : (db.table i).lookup key with
  | some e => exact table_drop db i j key e
  | none =>
    split_ifs with hj
    · subst hj
      exact (Dict.erase_of_lookup_none h).symm
    · rfl

/-- The entries after one is written. -/
theorem lookup_written :
    (if j = i then (db.table i).insert key e else db.table j).lookup key' =
      if j = i ∧ key' = key then some e else (db.table j).lookup key' := by
  by_cases hj : j = i
  · subst hj
    rw [if_pos rfl, Dict.lookup_insert_eq]
    simp only [true_and]
  · rw [if_neg hj, if_neg fun h => hj h.1]

/-- The entries after one is dropped. -/
theorem lookup_dropped :
    (if j = i then (db.table i).erase key else db.table j).lookup key' =
      if j = i ∧ key' = key then none else (db.table j).lookup key' := by
  by_cases hj : j = i
  · subst hj
    rw [if_pos rfl, Dict.lookup_erase_eq]
    simp only [true_and]
  · rw [if_neg hj, if_neg fun h => hj h.1]

/-- The entries after `drop`. -/
theorem lookup_drop :
    ((db.drop i key e).table j).lookup key' =
      if j = i ∧ key' = key then none else (db.table j).lookup key' := by
  rw [table_drop, lookup_dropped]

/-- `Delete` drops one entry, if it is there. -/
theorem lookup_delete :
    ((db.delete i key).2.table j).lookup key' =
      if j = i ∧ key' = key then none else (db.table j).lookup key' := by
  rw [table_delete, lookup_dropped]

end Entries

/-- `Lookup` finds nothing, drops an entry whose deadline has come, or returns the entry. -/
theorem lookup_cases (hnone : (db.table i).lookup key = none → P (none, db))
    (hdrop : ∀ e, (db.table i).lookup key = some e → expired e now = true →
      P (none, { db.drop i key e with totalExpired := (db.drop i key e).totalExpired + 1 }))
    (hkeep : ∀ e, (db.table i).lookup key = some e → expired e now = false → P (some e, db)) :
    P (db.lookup i key now) := by
  unfold lookup
  cases he : (db.table i).lookup key with
  | none => exact hnone he
  | some e =>
    dsimp only
    split_ifs with hexp
    · exact hdrop e he hexp
    · exact hkeep e he (Bool.eq_false_of_not_eq_true hexp)

/-- A sum over the tables, when one is replaced. -/
theorem sum_setTable (g : Table → ℕ) (db : Database) (i : DbIndex) (tab : Table) :
    ∑ j, g ((db.setTable i tab).table j) + g (db.table i) = ∑ j, g (db.table j) + g tab := by
  have hsplit : ∀ f : DbIndex → ℕ, ∑ j, f j = f i + ∑ j ∈ Finset.univ \ {i}, f j := fun f =>
    Finset.sum_eq_add_sum_sdiff_singleton_of_mem (Finset.mem_univ i) f
  have hrest : ∑ j ∈ Finset.univ \ {i}, g ((db.setTable i tab).table j) =
      ∑ j ∈ Finset.univ \ {i}, g (db.table j) := by
    refine Finset.sum_congr rfl fun j hj => ?_
    have hne : j ≠ i := by simpa using hj
    rw [table_setTable, if_neg hne]
  rw [hsplit fun j => g ((db.setTable i tab).table j), hsplit fun j => g (db.table j), hrest,
    table_setTable, if_pos rfl]
  omega

/-! ## The active cycle -/

/-- A cycle keeps what it keeps with each key. -/
theorem expireTable_keeps (rng : ℕ) (keys : List (Bytes × Entry)) (hs : I s)
    (hkey : ∀ s kv, I s → I (expireKey i now s kv)) : I (expireTable i rng keys now s) := by
  unfold expireTable
  split_ifs
  · exact hs
  · exact List.foldlRecOn _ _ hs fun s h kv _ => hkey s kv h

/-- The keys that `ActiveExpireCycle` still has to look at are in the table, each of them once. -/
structure Pending (i : DbIndex) (l : List (Bytes × Entry)) (s : ℕ × Database) : Prop where
  nodup : (l.map Prod.fst).Nodup
  mem : ∀ kv ∈ l, (s.2.table i).lookup kv.1 = some kv.2

/-- One key is looked at. -/
theorem Pending.step {kv : Bytes × Entry} (h : Pending i (kv :: l) s) (now : Int64) :
    Pending i l (expireKey i now s kv) := by
  have hnodup := List.nodup_cons.1 h.nodup
  refine ⟨hnodup.2, fun kv' hkv' => ?_⟩
  rw [← h.mem kv' (List.mem_cons_of_mem _ hkv')]
  unfold expireKey
  split_ifs
  · -- The key that was deleted is none of the remaining ones.
    have hne : kv'.1 ≠ kv.1 := fun hc => hnodup.1 (List.mem_map.2 ⟨kv', hkv', hc⟩)
    exact (lookup_drop s.2 i i kv.1 kv'.1 kv.2).trans (if_neg fun hc => hne hc.2)
  · rfl

/-- The keys in any order of iteration, or some of them. -/
theorem pending_of_perm (hkeys : keys.Perm (s.2.table i).toList) (hsub : l.Sublist keys) :
    Pending i l s := by
  refine ⟨?_, fun kv hkv => ?_⟩
  · refine List.Nodup.sublist (hsub.map _) ?_
    exact (hkeys.map Prod.fst).nodup_iff.2 (Dict.toList_nodup _)
  · exact Dict.lookup_eq_some_iff.2 (hkeys.subset (hsub.subset hkv))

/-- The keys of one cycle. -/
theorem window_sublist (keys : List (Bytes × Entry)) (offset : ℕ) :
    ((keys.drop offset).take kSampleWindow).Sublist keys :=
  (List.take_sublist _ _).trans (List.drop_sublist _ _)

/-- A cycle keeps what it keeps with each key that is in the table. -/
theorem expireTable_keeps_of_perm (rng : ℕ) (hkeys : keys.Perm (s.2.table i).toList) (hs : I s)
    (hkey : ∀ s kv, (s.2.table i).lookup kv.1 = some kv.2 → I s → I (expireKey i now s kv)) :
    I (expireTable i rng keys now s) := by
  have hfold : ∀ (l : List (Bytes × Entry)) s, Pending i l s → I s →
      I (l.foldl (expireKey i now) s) := by
    intro l
    induction l with
    | nil => exact fun _ _ hs => hs
    | cons kv l ih =>
      exact fun s h hs => ih _ (h.step now) (hkey s kv (h.mem kv List.mem_cons_self) hs)
  unfold expireTable
  split_ifs
  · exact hs
  · exact hfold _ s (pending_of_perm hkeys (window_sublist keys _)) hs

/-! ## The other fields -/

/-- What `f` reads is neither in the tables, nor is it the memory in use. -/
def Apart (f : Database → β) : Prop := ∀ db dbs used, f { db with dbs, used } = f db

/-- The memory limit is. -/
theorem apart_maxMemory : Apart maxMemory := fun _ _ _ => rfl

/-- Only the deadlines count for the number of entries that have expired. -/
theorem apart_totalExpired : Apart totalExpired := fun _ _ _ => rfl

namespace Apart

variable (h : Apart f) (db) (i) (key)

include h

/-- `MemSub`. -/
theorem memSub (n : ℕ) : f (db.memSub n) = f db := by
  unfold Database.memSub
  split_ifs <;> exact h db _ _

/-- `Set`. -/
theorem set (v : Value) (t : Int64) : f (db.set i key v t) = f db := by
  unfold Database.set
  cases (db.table i).lookup key with
  | none => exact h db _ _
  | some old => exact (h (db.memSub _) _ _).trans (h.memSub db _)

/-- An entry is dropped. -/
theorem drop (e : Entry) : f (db.drop i key e) = f db :=
  (h (db.memSub _) _ _).trans (h.memSub db _)

/-- `Delete`. -/
theorem delete : f (db.delete i key).2 = f db := by
  unfold Database.delete
  cases (db.table i).lookup key with
  | none => rfl
  | some e => exact h.drop db i key e

/-- `FlushDb`. -/
theorem flushDb : f (db.flushDb i) = f db :=
  (h _ _ _).trans (List.foldlRecOn (motive := fun db' => f db' = f db) _ _ rfl
    fun db' hdb _ _ => (h.memSub db' _).trans hdb)

/-- `FlushAll`. -/
theorem flushAll : f db.flushAll = f db :=
  List.foldlRecOn (motive := fun db' => f db' = f db) _ _ rfl
    fun db' hdb i _ => (h.flushDb db' i).trans hdb

end Apart

/-- `Lookup` leaves the limit alone. -/
theorem maxMemory_lookup (db : Database) (i : DbIndex) (key : Bytes) (now : Int64) :
    (db.lookup i key now).2.maxMemory = db.maxMemory :=
  lookup_cases (P := fun r => r.2.maxMemory = db.maxMemory) (fun _ => rfl)
    (fun e _ _ => apart_maxMemory.drop db i key e) fun _ _ _ => rfl

/-- So does the active cycle. -/
theorem maxMemory_expireTable (i : DbIndex) (rng : ℕ) (keys : List (Bytes × Entry)) (now : Int64)
    (s : ℕ × Database) : (expireTable i rng keys now s).2.maxMemory = s.2.maxMemory := by
  refine expireTable_keeps (I := fun s' => s'.2.maxMemory = s.2.maxMemory) rng keys rfl
    fun s' kv h => ?_
  unfold expireKey
  split_ifs
  · exact (apart_maxMemory.drop s'.2 i kv.1 kv.2).trans h
  · exact h

/-! ## The memory in use -/

/-- `MemSub` stops at zero. -/
theorem used_memSub (db : Database) (n : ℕ) : (db.memSub n).used = db.used - n := by
  unfold memSub
  split_ifs with h
  · rfl
  · show 0 = db.used - n
    omega

/-- `Lookup` gives back the size of what it drops. -/
theorem used_lookup (db : Database) (i : DbIndex) (key : Bytes) (now : Int64) :
    (db.lookup i key now).2.used =
      db.used - (((db.table i).lookup key).filter (expired · now)).elim 0 (entrySize key) := by
  refine lookup_cases (P := fun r => r.2.used = db.used - _) (fun hnone => ?_) (fun e he hexp => ?_)
    fun e he hexp => ?_
  · rw [hnone]
    rfl
  · rw [he, Option.filter_some, if_pos hexp]
    exact used_memSub db _
  · rw [he, Option.filter_some, hexp]
    rfl

/-- `Set` counts the new entry in place of the old one. -/
theorem used_set (db : Database) (i : DbIndex) (key : Bytes) (v : Value) (t : Int64) :
    (db.set i key v t).used =
      db.used - ((db.table i).lookup key).elim 0 (entrySize key) + entrySize key ⟨v, t⟩ := by
  unfold set
  cases (db.table i).lookup key with
  | none => rfl
  | some old => exact congrArg (· + _) (used_memSub db _)

/-! ## Lookups -/

/-- A lookup that finds no entry drops the one whose deadline has come. -/
theorem lookup_of_none :
    (db.lookup i key now).1 = none → ((db.lookup i key now).2.table i).lookup key = none := by
  refine lookup_cases (P := fun r => r.1 = none → (r.2.table i).lookup key = none)
    (fun hnone _ => hnone) (fun e _ _ _ => ?_) fun _ _ _ hc => by cases hc
  exact (lookup_drop db i i key key e).trans (if_pos ⟨rfl, rfl⟩)

/-- A lookup drops no other entry. -/
theorem lookup_of_ne {j : DbIndex} {key' : Bytes} (now : Int64) (hne : ¬(j = i ∧ key' = key)) :
    ((db.lookup i key now).2.table j).lookup key' = (db.table j).lookup key' :=
  lookup_cases (P := fun r => (r.2.table j).lookup key' = _) (fun _ => rfl)
    (fun e _ _ => (lookup_drop db i j key key' e).trans (if_neg hne)) fun _ _ _ => rfl

/-- A lookup that finds an entry changes nothing. -/
theorem lookup_of_some : (db.lookup i key now).1 = some e →
    (db.table i).lookup key = some e ∧ (db.lookup i key now).2 = db :=
  lookup_cases (P := fun r => r.1 = some e → (db.table i).lookup key = some e ∧ r.2 = db)
    (fun _ hc => by cases hc) (fun _ _ _ hc => by cases hc) fun _ he _ h => ⟨he.trans h, rfl⟩

/-! ## Functions that only drop entries -/

/-- All entries of `db'` are entries of `db`. -/
def Within (db' db : Database) : Prop :=
  ∀ i key e, (db'.table i).lookup key = some e → (db.table i).lookup key = some e

/-- Nothing is dropped. -/
theorem Within.refl (db : Database) : Within db db := fun _ _ _ h => h

/-- First some entries are dropped, then others. -/
theorem Within.trans {db'' : Database} (h : Within db'' db') (h' : Within db' db) :
    Within db'' db := fun i key e he => h' i key e (h i key e he)

/-- One entry is dropped. -/
theorem within_drop (db : Database) (i : DbIndex) (key : Bytes) (e : Entry) :
    Within (db.drop i key e) db := by
  intro j key' e' h
  rw [lookup_drop] at h
  split_ifs at h
  exact h

/-- `Lookup` only drops. -/
theorem within_lookup (db : Database) (i : DbIndex) (key : Bytes) (now : Int64) :
    Within (db.lookup i key now).2 db :=
  lookup_cases (P := fun r => Within r.2 db) (fun _ => .refl db)
    (fun e _ _ => within_drop db i key e) fun _ _ _ => .refl db

/-- So does `Delete`. -/
theorem within_delete (db : Database) (i : DbIndex) (key : Bytes) :
    Within (db.delete i key).2 db := by
  unfold delete
  cases (db.table i).lookup key with
  | none => exact .refl db
  | some e => exact within_drop db i key e

/-- The sizes are subtracted one by one. -/
theorem table_foldl_memSub (sizes : List ((_ : Bytes) × Entry)) (db : Database) :
    (sizes.foldl (fun db kv => db.memSub (entrySize kv.1 kv.2)) db).table = db.table :=
  List.foldlRecOn (motive := fun db' => db'.table = db.table) _ _ rfl
    fun db' h _ _ => (table_memSub db' _).trans h

/-- The tables after `FlushDb`. -/
theorem table_flushDb (db : Database) (i j : DbIndex) :
    (db.flushDb i).table j = if j = i then ∅ else db.table j := by
  unfold flushDb
  rw [table_setTable, table_foldl_memSub]

/-- `FlushDb` only drops. -/
theorem within_flushDb (db : Database) (i : DbIndex) : Within (db.flushDb i) db := by
  intro j key e h
  rw [table_flushDb] at h
  split_ifs at h
  · cases h
  · exact h

/-- One key of the active cycle. -/
theorem within_expireKey (i : DbIndex) (now : Int64) (s : ℕ × Database) (kv : Bytes × Entry) :
    Within (expireKey i now s kv).2 s.2 := by
  unfold expireKey
  split_ifs
  · exact within_drop s.2 i kv.1 kv.2
  · exact .refl _

/-- One key space of the active cycle. -/
theorem within_expireTable (i : DbIndex) (rng : ℕ) (keys : List (Bytes × Entry)) (now : Int64)
    (s : ℕ × Database) : Within (expireTable i rng keys now s).2 s.2 :=
  expireTable_keeps (I := fun s' => Within s'.2 s.2) rng keys (.refl _)
    fun s' kv h => (within_expireKey i now s' kv).trans h

end TinyRedis.Database

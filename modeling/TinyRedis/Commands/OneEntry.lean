import TinyRedis.Commands.Calls

/-!
# Changes to one entry

A handler that gets or creates the value under its key changes nothing but the entry under this key
(`Altered`). If the key was found, and its entry is the same in the end, nothing has changed; if it
was missing, there is an entry that was not there before.
-/

namespace TinyRedis.Commands

open Lib Resp

variable {env : Env} {w₀ w : World} {T : Type} {k : Kind T} {key : Bytes} {t : T} {e e' : Entry}
  {empty : T}

/-- The world `w` comes after `w₀`, and only the entry under the key may be another: it is `e`. -/
structure Altered (w₀ : World) (key : Bytes) (e : Entry) (w : World) : Prop where
  cs : w.cs = w₀.cs
  out : w.out = w₀.out
  tick : w₀.tick ≤ w.tick
  others : ∀ i key', ¬(i = w₀.cs.dbIndex ∧ key' = key) →
    (w.db.table i).lookup key' = (w₀.db.table i).lookup key'
  entry : (w.db.table w₀.cs.dbIndex).lookup key = some e

/-- An entry without a deadline is found. -/
theorem live_of_lookup {v : Value} (h : (w.db.table w.cs.dbIndex).lookup key = some ⟨v, 0⟩) :
    live env key w = some ⟨v, 0⟩ := by
  unfold live Database.lookup
  rw [h]
  rfl

namespace Altered

/-- The altered entry is stored. -/
theorem stores (h : Altered w₀ key e w) (ht : k.get e.value = some t) : Stores k key e t w := by
  refine ⟨?_, ht⟩
  rw [h.cs]
  exact h.entry

/-- The environment is read. -/
theorem reads (h : Altered w₀ key e w) : Altered w₀ key e { w with tick := w.tick + 1 } :=
  ⟨h.cs, h.out, h.tick.trans (Nat.le_succ _), h.others, h.entry⟩

/-- The entry is overwritten. -/
theorem assign (h : Altered w₀ key e w) (e' : Entry) :
    Altered w₀ key e' { w with db := w.db.assign w.cs.dbIndex key e' } := by
  refine ⟨h.cs, h.out, h.tick, fun i key' hne => ?_, ?_⟩
  · rw [← h.others i key' hne]
    dsimp only
    rw [Database.table_assign, h.cs]
    split_ifs with hi
    · subst hi
      exact AList.lookup_insert_ne fun hkey => hne ⟨rfl, hkey⟩
    · rfl
  · dsimp only
    rw [Database.table_assign, if_pos (by rw [h.cs]), AList.lookup_insert]

/-- A lookup that finds the key. -/
theorem of_live (h : live env key w = some e) : Altered w key e (afterLookup env key w) := by
  obtain ⟨hentry, hdb⟩ := lookup_of_live h
  refine ⟨rfl, rfl, Nat.le_succ _, fun i key' _ => ?_, ?_⟩
  · rw [hdb]
  · rw [hdb]
    exact hentry

/-- A lookup that does not find the key, which then gets an empty value. -/
theorem of_created (env : Env) (key : Bytes) (w : World) (v : Value) :
    Altered w key ⟨v, 0⟩ { afterLookup env key w with
      db := (afterLookup env key w).db.set w.cs.dbIndex key v 0, tick := w.tick + 2 } := by
  refine ⟨rfl, rfl, Nat.le_add_right _ _, fun i key' hne => ?_, ?_⟩
  · refine Eq.trans ?_ (Database.lookup_of_ne (env.nowMs w.tick) hne)
    dsimp only
    rw [Database.table_set]
    split_ifs with hi
    · subst hi
      exact AList.lookup_insert_ne fun hkey => hne ⟨rfl, hkey⟩
    · rfl
  · dsimp only
    rw [Database.table_set, if_pos rfl, AList.lookup_insert]

/-- If the key was found, and its entry is the same in the end, nothing has changed. -/
theorem undisturbed (h : Altered w₀ key e w) (hlive : live env key w₀ = some e) (i j : ℕ) :
    Undisturbed env i j w₀.db w.db := by
  have hsame : ∀ d key', (w.db.table d).lookup key' = (w₀.db.table d).lookup key' := by
    intro d key'
    by_cases hkey : d = w₀.cs.dbIndex ∧ key' = key
    · rw [hkey.1, hkey.2, h.entry, (lookup_of_live hlive).1]
    · exact h.others d key' hkey
  exact ⟨fun d key' e he _ => (hsame d key').trans he,
    fun d key' e he => (hsame d key').symm.trans he⟩

/-- If the key was missing, there is an entry without a deadline that was not there before. -/
theorem not_undisturbed {v : Value} (h : Altered w₀ key ⟨v, 0⟩ w) (hlive : live env key w₀ = none)
    (i j : ℕ) : ¬Undisturbed env i j w₀.db w.db := by
  intro hdb
  -- An entry without a deadline would have been found.
  rw [live_of_lookup (hdb.nothingNew _ _ _ h.entry)] at hlive
  cases hlive

end Altered

/-- The value under the key is `t`, in the entry `e`, or there is none, and `e` is an entry with an
empty value. -/
structure Gets (env : Env) (k : Kind T) (empty : T) (key : Bytes) (e : Entry) (t : T) (w : World) :
    Prop where
  value : k.get e.value = some t
  found : live env key w = some e ∨ (live env key w = none ∧ e = ⟨k.put empty, 0⟩)

/-- A key without a live entry gets the empty value. -/
theorem Gets.eq_empty (h : Gets env k empty key e t w) (hlive : live env key w = none) :
    t = empty := by
  rcases h.found with hfound | ⟨-, rfl⟩
  · cases hlive.symm.trans hfound
  · exact Option.some.inj (h.value.symm.trans (k.get_put empty))

/-- A handler that gets or creates the value goes on with it. -/
theorem Gets.findOrCreate_eq (h : Gets env k empty key e t w) :
    ∃ w', findOrCreate env k empty key w = .ok (some key, w') ∧ Altered w key e w' ∧
      w.tick < w'.tick := by
  rcases h.found with hlive | ⟨hlive, rfl⟩
  · rw [findOrCreate_of_live hlive, if_pos (k.type_of_get h.value)]
    exact ⟨_, rfl, .of_live hlive, Nat.lt_succ_self _⟩
  · rw [findOrCreate_of_not_live hlive]
    exact ⟨_, rfl, .of_created env key w _, Nat.lt_add_of_pos_right (by decide)⟩

/-- A value of another type is under the key. -/
def WrongType (env : Env) (k : Kind T) (key : Bytes) (w : World) : Prop :=
  ∃ e, live env key w = some e ∧ k.get e.value = none

/-- `findOrCreate` gives no handle for a key of another type. -/
theorem WrongType.findOrCreate_eq (h : WrongType env k key w) (empty : T) :
    findOrCreate env k empty key w = .ok (none, { w with tick := w.tick + 1 }) := by
  obtain ⟨e, hlive, hget⟩ := h
  have hdb := (lookup_of_live hlive).2
  rw [findOrCreate_of_live hlive, if_neg ((k.get_eq_none _).1 hget)]
  unfold afterLookup at hdb ⊢
  dsimp only at hdb
  rw [hdb]

/-- A key that gets a value is not of another type. -/
theorem Gets.not_wrongType (h : Gets env k empty key e t w) : ¬WrongType env k key w := by
  rintro ⟨e', hlive, hget⟩
  rcases h.found with hfound | ⟨hmissing, -⟩
  · cases hfound.symm.trans hlive
    cases hget.symm.trans h.value
  · cases hmissing.symm.trans hlive

/-- What is got is determined by the key. -/
theorem Gets.unique {t' : T} (h : Gets env k empty key e t w) (h' : Gets env k empty key e' t' w) :
    e = e' ∧ t = t' := by
  have he : e = e' := by
    rcases h.found with hfound | ⟨hmissing, rfl⟩
    · rcases h'.found with hfound' | ⟨hmissing', -⟩
      · exact Option.some.inj (hfound.symm.trans hfound')
      · cases hfound.symm.trans hmissing'
    · rcases h'.found with hfound' | ⟨-, rfl⟩
      · cases hmissing.symm.trans hfound'
      · rfl
  subst he
  exact ⟨rfl, Option.some.inj (h.value.symm.trans h'.value)⟩

/-- Every key has a value of the type, or of another, or is missing. -/
theorem wrongType_or_gets (env : Env) (k : Kind T) (empty : T) (key : Bytes) (w : World) :
    WrongType env k key w ∨ ∃ e t, Gets env k empty key e t w := by
  cases hlive : live env key w with
  | none => exact .inr ⟨_, empty, k.get_put empty, .inr ⟨hlive, rfl⟩⟩
  | some e =>
    cases hget : k.get e.value with
    | none => exact .inl ⟨e, hlive, hget⟩
    | some t => exact .inr ⟨e, t, hget, .inl hlive⟩

end TinyRedis.Commands

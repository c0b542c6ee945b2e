import TinyRedis.Commands.Accounting

/-!
# Renaming a key

`RENAME` moves the value and the deadline of a live key to another key, whatever is there. The value
is moved out of the old entry before `Delete` takes the size of that entry off `used_memory`, so the
books are kept only for a value that is as small as a moved-from one.
-/

namespace TinyRedis.Commands

open Lib Resp Database

variable {env : Env} {w w' : World} {old new : Bytes} {e : Entry}

/-- What `RENAME` should do to a live key with the entry `e`. -/
structure Renames (old new : Bytes) (e : Entry) (w w' : World) : Prop where
  moved : (w'.db.table w.cs.dbIndex).lookup new = some e
  gone : (w'.db.table w.cs.dbIndex).lookup old = none
  others : ∀ i key, ¬(i = w.cs.dbIndex ∧ (key = old ∨ key = new)) →
    (w'.db.table i).lookup key = (w.db.table i).lookup key
  accounted : w.db.Accounted → w'.db.Accounted

/-- The books are kept exactly when the value has the size of a moved-from one. -/
theorem renames_renamed_iff (hlive : live env old w = some e) (hne : new ≠ old)
    (hdb : w'.db = renamed w.db w.cs.dbIndex old new e) :
    Renames old new e w w' ↔
      (w.db.Accounted → valueSize (movedFrom e.value) = valueSize e.value) := by
  have hsize : w.db.Accounted →
      (w'.db.Accounted ↔ valueSize (movedFrom e.value) = valueSize e.value) := by
    intro hw
    have hused := used_renamed new hw (lookup_of_live hlive).1
    have hle := valueSize_movedFrom_le e.value
    rw [← hdb] at hused
    unfold Accounted
    omega
  constructor
  · exact fun h hw => (hsize hw).1 (h.accounted hw)
  · intro h
    refine ⟨?_, ?_, fun i key hkey => ?_, fun hw => (hsize hw).2 (h hw)⟩
    · rw [hdb, lookup_renamed, if_pos ⟨rfl, rfl⟩]
    · rw [hdb, lookup_renamed, if_neg fun h => hne h.2.symm, if_pos ⟨rfl, rfl⟩]
    · rw [hdb, lookup_renamed, if_neg fun h => hkey ⟨h.1, .inr h.2⟩,
        if_neg fun h => hkey ⟨h.1, .inl h.2⟩]

/-- Without a limit on the memory, `RENAME` of a live key to another one does what it should
exactly when, if `used_memory` is right before, the value has the size of a moved-from one. -/
theorem rename_moves_iff (env : Env) (hmax : env.opts.maxmemory = 0) (tx : Tx)
    (htx : tx.inMulti = false) (depth : ℕ) (w : World) (argv : Args)
    (haccepts : accepts .rename argv = true) (e : Entry)
    (hlive : live env (argv.getD 1 []) w = some e) (hne : argv.getD 2 [] ≠ argv.getD 1 []) :
    (∃ w', Answers env depth argv tx w (.simple (bytes "OK")) w' ∧
        Renames (argv.getD 1 []) (argv.getD 2 []) e w w') ↔
      (w.db.Accounted → valueSize (movedFrom e.value) = valueSize e.value) := by
  have hrun : handler env (lowerName argv) argv .rename w = _ :=
    (rename_of_live (minArgs_le_of_accepts haccepts) hlive hne.symm).trans (replySimple_eq _ _)
  have hanswers : Answers env depth argv tx w (.simple (bytes "OK")) _ :=
    Enters.answers (.mk haccepts htx (gated_of_unlimited hmax) rfl) depth hrun rfl
  constructor
  · rintro ⟨w', h, hrenames⟩
    cases (hanswers.unique h).2
    exact (renames_renamed_iff hlive hne rfl).1 hrenames
  · exact fun h => ⟨_, hanswers, (renames_renamed_iff hlive hne rfl).2 h⟩

/-- An empty string is moved as it should be. -/
theorem rename_moves_iff_empty :
    ∃ w', Answers stillEnv 0 [bytes "RENAME", bytes "k", bytes "n"] .idle
        (worldWith (.rawString [])) (.simple (bytes "OK")) w' ∧
      Renames (bytes "k") (bytes "n") ⟨.rawString [], 0⟩ (worldWith (.rawString [])) w' :=
  (rename_moves_iff stillEnv rfl .idle rfl 0 (worldWith (.rawString []))
    [bytes "RENAME", bytes "k", bytes "n"] (by decide +kernel) ⟨.rawString [], 0⟩
    (finds_worldWith stillEnv stringKind []).live (by decide)).2 fun _ => rfl

/-- The byte of the string stays in `used_memory`. -/
theorem rename_drifts : (worldWith (.rawString [118])).db.Accounted ∧
    ¬∃ w', Answers stillEnv 0 [bytes "RENAME", bytes "k", bytes "n"] .idle
        (worldWith (.rawString [118])) (.simple (bytes "OK")) w' ∧
      Renames (bytes "k") (bytes "n") ⟨.rawString [118], 0⟩ (worldWith (.rawString [118])) w' := by
  have hbefore : (worldWith (.rawString [118])).db.Accounted := by
    unfold Accounted
    decide +kernel
  have hafter : (dispatch stillEnv 1 [bytes "RENAME", bytes "k", bytes "n"] .idle
      (worldWith (.rawString [118]))).toOption.any
        (fun p => decide (p.2.db.used ≠ p.2.db.totalSize)) = true := by
    decide +kernel
  refine ⟨hbefore, fun ⟨w', h, hrenames⟩ => ?_⟩
  rw [h.run] at hafter
  exact of_decide_eq_true hafter (hrenames.accounted hbefore)

end TinyRedis.Commands

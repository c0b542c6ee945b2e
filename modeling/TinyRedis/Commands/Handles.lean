import TinyRedis.Commands.Moves
import TinyRedis.Commands.SetResults

/-!
# Pointers that are kept over lookups

`LMOVE`, `RPOPLPUSH`, `SMOVE`, and the set operations look up several keys before they read what
they found. Each lookup reads the clock, and erases an entry whose deadline has come. If a key is
given twice and expires between its two lookups, the pointer from the first one is left to an entry
that is gone. `losesHandle` says when one of these commands then reads through it.
-/

namespace TinyRedis.Commands

open Lib Resp

variable {env : Env} {argv : Args} {tx : Tx} {c : Cmd} {w : World}

/-- The command reads through a pointer to an entry that is gone. -/
def losesHandle (env : Env) (c : Cmd) (argv : Args) (w : World) : Bool :=
  match c with
  | .lmove => isSide (argv.getD 3 []) && isSide (argv.getD 4 []) &&
      moveLoses env .kList (argv.getD 1 []) (argv.getD 2 []) w
  | .rpoplpush => moveLoses env .kList (argv.getD 1 []) (argv.getD 2 []) w
  | .smove => moveLoses env .kSet (argv.getD 1 []) (argv.getD 2 []) w
  | c => (setOpOf c).any fun (op, store) =>
      ((sources env (argv.drop (firstSource store)) w).find? (stops op)).isNone &&
        dangles op (foundBy env (argv.drop (firstSource store)) w)

/-- The commands that look up several keys before they read what they found. -/
def keepsHandles (c : Cmd) : Bool :=
  decide (c = .lmove ∨ c = .rpoplpush ∨ c = .smove) || (setOpOf c).isSome

/-! ## Calls -/

/-- The body dangles exactly when its handle is lost. -/
theorem DanglesIf.error_iff {lost : Bool} {m : M Unit} {Q : Database → Prop}
    (h : DanglesIf lost m w Q) : m w = .error .danglingHandle ↔ lost = true := by
  unfold DanglesIf at h
  cases lost with
  | true => exact iff_of_true h rfl
  | false =>
    obtain ⟨w', hw', -⟩ := h
    rw [hw']
    exact iff_of_false nofun Bool.false_ne_true

/-- A set operation dangles when no source stops it and one of the found sets strays. -/
theorem danglesIf_setOp {op : SetOp} {store : Bool} (h : SetOpCall c op store argv tx)
    (lower : Bytes) :
    DanglesIf (((sources env (argv.drop (firstSource store)) w).find? (stops op)).isNone &&
      dangles op (foundBy env (argv.drop (firstSource store)) w)) (handler env lower argv c) w
      fun _ => True := by
  have hok : ∀ {r w₁}, evalSetOp env argv (firstSource store) op w = .ok (r, w₁) →
      ∃ w', handler env lower argv c w = .ok ((), w') ∧ True := fun heval =>
    (h.handler_ok heval lower).imp fun _ hrun => ⟨hrun, trivial⟩
  unfold DanglesIf
  cases hstop : (sources env (argv.drop (firstSource store)) w).find? (stops op) with
  | some s =>
    obtain ⟨keys, heval⟩ := evalSetOp_stop hstop
    rw [Option.isNone_some, Bool.false_and, if_neg Bool.false_ne_true]
    split_ifs at heval
    · exact hok heval
    · exact hok heval
  | none =>
    obtain ⟨res, -, heval⟩ := evalSetOp_go hstop
    rw [Option.isNone_none, Bool.true_and]
    split_ifs at heval ⊢
    · exact h.handler_error heval lower
    · exact hok heval

/-- What the handlers of the three groups of commands do. -/
theorem danglesIf_handler (hc : keepsHandles c = true) (haccepts : accepts c argv = true)
    (htx : tx.inMulti = false) (lower : Bytes) :
    DanglesIf (losesHandle env c argv w) (handler env lower argv c) w fun _ => True := by
  have hargs := minArgs_le_of_accepts haccepts
  unfold keepsHandles at hc
  rw [Bool.or_eq_true, decide_eq_true_iff] at hc
  rcases hc with (rfl | rfl | rfl) | hset
  · exact (danglesIf_cmdLMove hargs).imp fun _ _ => trivial
  · exact (danglesIf_rpoplpush hargs).imp fun _ _ => trivial
  · exact (danglesIf_smove hargs).imp fun _ _ => trivial
  · obtain ⟨⟨op, store⟩, hop⟩ := Option.isSome_iff_exists.1 hset
    have hloses : losesHandle env c argv w = (setOpOf c).any fun (op, store) =>
        ((sources env (argv.drop (firstSource store)) w).find? (stops op)).isNone &&
          dangles op (foundBy env (argv.drop (firstSource store)) w) := by
      cases c <;> first | rfl | cases hop
    rw [hloses, hop]
    exact danglesIf_setOp ⟨hop, haccepts, htx⟩ lower

/-- The pointers that `LMOVE`, `RPOPLPUSH`, `SMOVE`, and the set operations keep over their lookups
point to entries of the table whenever they are used, if and only if the call does not reach the
handler, or no key expires between two lookups of it whose first result is read (`losesHandle`). -/
theorem handles_survive_iff (hc : keepsHandles c = true) (hcmd : commandOf argv = some c)
    (depth : ℕ) : dispatch env (depth + 1) argv tx w ≠ .error .danglingHandle ↔
      (reaches env c argv tx w = true → losesHandle env c argv w = false) := by
  have hcontrol : isControl c = false := by
    cases c <;> first | rfl | cases hc
  cases hreaches : reaches env c argv tx w with
  | true =>
    have hreach := hreaches
    unfold reaches at hreach
    simp only [Bool.and_eq_true, Bool.not_eq_true'] at hreach
    rw [Ne, (enters_of_reaches hreaches hcontrol).error_iff,
      (danglesIf_handler hc hreach.1.1 hreach.1.2 _).error_iff, Bool.not_eq_true]
    exact ⟨fun h _ => h, fun h => h rfl⟩
  | false =>
    obtain ⟨tx', w', hrun, -⟩ := dispatch_of_not_reaches hcmd hcontrol hreaches depth
    rw [hrun]
    exact iff_of_true nofun fun h => absurd h Bool.false_ne_true

/-- `LMOVE k k LEFT RIGHT`, with a list whose deadline comes after both lookups. -/
theorem handles_survive_iff_list :
    dispatch tickingEnv 2 [bytes "LMOVE", bytes "k", bytes "k", bytes "LEFT", bytes "RIGHT"] .idle
      { freshServer.world 0 with
        db := (freshServer.world 0).db.set (freshServer.world 0).cs.dbIndex (bytes "k")
          (.list [bytes "a", bytes "b"]) 9 } ≠ .error .danglingHandle :=
  (handles_survive_iff (c := .lmove) rfl (by decide +kernel) 1).2 fun _ => by decide +kernel

/-- `LMOVE k k LEFT RIGHT`, where the key expires between the two lookups. -/
theorem lmove_reads_lost :
    dispatch tickingEnv 2 [bytes "LMOVE", bytes "k", bytes "k", bytes "LEFT", bytes "RIGHT"] .idle
      (fleetingWorld (.list [bytes "a"])) = .error .danglingHandle :=
  eq_error_of_errorOf (by decide +kernel)

end TinyRedis.Commands

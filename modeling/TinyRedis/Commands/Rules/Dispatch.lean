import TinyRedis.Commands.Transactions

/-!
# How `Dispatch` reacts to a call

`Reacts` lists all that a call of `Dispatch` can do when it returns, but for an `EXEC` that runs its
queue: it rejects the call with an error, it only changes the state of the transaction, or it runs
one handler.
-/

namespace TinyRedis.Commands

open Lib Resp

/-- The command that a call names, if there is one. -/
def commandOf (argv : Args) : Option Cmd := (findCommand (toUpper (argv.headD []))).map Arity.cmd

/-- The command is found by its name. -/
theorem commandOf_cons {name : Bytes} {args : Args} {a : Arity}
    (h : findCommand (toUpper name) = some a) : commandOf (name :: args) = some a.cmd :=
  congrArg (Option.map Arity.cmd) h

/-- A call of `Dispatch` that takes the transaction and the world from `tx` and `w` to `tx'` and
`w'`, without running a queue. -/
inductive Reacts (env : Env) : Args → Tx → World → Tx → World → Prop
  /-- There is no command. -/
  | nothing {tx : Tx} {w : World} : Reacts env [] tx w tx w
  /-- There is no such command. -/
  | unknown {name : Bytes} {args : Args} {tx : Tx} {w : World} :
      findCommand (toUpper name) = none →
      Reacts env (name :: args) tx w (if tx.inMulti then { tx with multiError := true } else tx)
        { w with out := appendErrorReply w.out (unknownText name args) }
  /-- The number of arguments is wrong. -/
  | arity {name : Bytes} {args : Args} {a : Arity} {tx : Tx} {w : World} :
      findCommand (toUpper name) = some a → arityOk a (name :: args).length = false →
      Reacts env (name :: args) tx w
        (if tx.inMulti && !isControl a.cmd then { tx with multiError := true } else tx)
        { w with out := appendErrorReply w.out (wrongArgsText (toLower name)) }
  /-- The command is queued. -/
  | queued {name : Bytes} {args : Args} {a : Arity} {tx : Tx} {w : World} :
      findCommand (toUpper name) = some a → arityOk a (name :: args).length = true →
      tx.inMulti = true →
      Reacts env (name :: args) tx w { tx with multiQueue := tx.multiQueue ++ [name :: args] }
        { w with out := appendSimpleReply w.out (bytes "QUEUED") }
  /-- `MULTI` or `DISCARD` at the wrong time. -/
  | misplaced {name : Bytes} {args : Args} {a : Arity} {s : Bytes} {tx : Tx} {w : World} :
      findCommand (toUpper name) = some a → arityOk a (name :: args).length = true → OneLine s →
      Reacts env (name :: args) tx w tx { w with out := appendErrorReply w.out s }
  /-- `MULTI` or `DISCARD`. -/
  | accepted {name : Bytes} {args : Args} {a : Arity} {b : Bool} {tx : Tx} {w : World} :
      findCommand (toUpper name) = some a → arityOk a (name :: args).length = true →
      Reacts env (name :: args) tx w ⟨b, false, []⟩
        { w with out := appendSimpleReply w.out (bytes "OK") }
  /-- `EXEC` of a transaction that is aborted. -/
  | aborted {name : Bytes} {args : Args} {a : Arity} {s : Bytes} {tx : Tx} {w : World} :
      findCommand (toUpper name) = some a → arityOk a (name :: args).length = true →
      a.cmd = .exec → OneLine s →
      Reacts env (name :: args) tx w ⟨false, true, []⟩ { w with out := appendErrorReply w.out s }
  /-- The command is run. -/
  | ran {name : Bytes} {args : Args} {a : Arity} {tx : Tx} {w w' : World} :
      findCommand (toUpper name) = some a → arityOk a (name :: args).length = true → Plain a.cmd →
      runCommand env a.cmd (toLower name) (name :: args) w = .ok ((), w') →
      Reacts env (name :: args) tx w tx w'

/-- Only the command of the call is added to the queue. -/
theorem Reacts.queue {env : Env} {argv : Args} {tx tx' : Tx} {w w' : World} {P : Args → Prop}
    (hargv : P argv) (htx : ∀ q ∈ tx.multiQueue, P q) (h : Reacts env argv tx w tx' w') :
    ∀ q ∈ tx'.multiQueue, P q := by
  cases h with
  | nothing => exact htx
  | unknown =>
    split_ifs
    · exact htx
    · exact htx
  | arity =>
    split_ifs
    · exact htx
    · exact htx
  | queued =>
    intro q hq
    rcases List.mem_append.1 hq with hq | hq
    · exact htx q hq
    · rw [List.mem_singleton.1 hq]
      exact hargv
  | misplaced => exact htx
  | accepted => exact fun _ hq => absurd hq List.not_mem_nil
  | aborted => exact fun _ hq => absurd hq List.not_mem_nil
  | ran => exact htx

/-- The queue of a transaction is run. -/
structure ExecRuns (env : Env) (depth : ℕ) (argv : Args) (tx : Tx) (w : World) (tx' : Tx)
    (w' : World) : Prop where
  exec : commandOf argv = some .exec
  inMulti : tx.inMulti = true
  multiError : tx.multiError = false
  queue : runQueue (dispatch env depth) tx.multiQueue .idle (execHeader tx w) = .ok (((), tx'), w')

variable {env : Env} {depth : ℕ} {tx tx' : Tx} {w w' : World} {name : Bytes} {args argv : Args}
  {a : Arity}

/-- A reply that is planned is one of these reactions. -/
theorem reacts_of_plan {f : Bytes → Bytes} (h : plan argv tx = .reply tx' f) :
    Reacts env argv tx w tx' { w with out := f w.out } := by
  cases argv with
  | nil =>
    cases h
    exact .nothing
  | cons name args =>
    rw [plan] at h
    cases ha : findCommand (toUpper name) with
    | none =>
      rw [ha] at h
      cases h
      exact .unknown ha
    | some a =>
      have harity : arityOk a (name :: args).length = false → Reacts env (name :: args) tx w _ _ :=
        .arity ha
      rw [ha] at h
      dsimp only at h
      split_ifs at h with hqueued hok hok hm hin hd hin he hin herror
      all_goals cases h
      · exact .queued ha hok (Bool.and_eq_true_iff.1 hqueued).1
      · rw [if_pos hqueued] at harity
        exact harity (Bool.eq_false_iff.2 hok)
      · rw [if_neg hqueued] at harity
        exact harity (by simpa using hok)
      · exact .misplaced ha (by simpa using hok) (by decide)
      · exact .accepted ha (by simpa using hok)
      · exact .misplaced ha (by simpa using hok) (by decide)
      · exact .accepted ha (by simpa using hok)
      · exact .misplaced ha (by simpa using hok) (by decide)
      · exact .aborted ha (by simpa using hok) he (by decide)

/-- A call of `Dispatch` that returns either reacts, or runs the queue of a transaction. -/
theorem dispatch_reacts (h : dispatch env (depth + 1) argv tx w = .ok (((), tx'), w')) :
    Reacts env argv tx w tx' w' ∨ ExecRuns env depth argv tx w tx' w' := by
  rw [dispatch_eq_plan] at h
  rcases plan_cases argv tx with ⟨tx₁, f, hplan⟩ | ⟨a, ha, hok, hplan⟩
  · rw [hplan] at h
    cases h
    exact .inl (reacts_of_plan hplan)
  rcases hplan with ⟨hplan, hplain⟩ | ⟨hplan, hc, hin, herror⟩
  · rw [hplan] at h
    obtain ⟨⟨⟨⟩, w₁⟩, hcommand, hend⟩ := bind_eq_ok h
    cases hend
    cases argv with
    | nil => cases ha
    | cons name args => exact .inl (.ran ha hok hplain hcommand)
  · rw [hplan] at h
    exact .inr ⟨(congrArg (Option.map Arity.cmd) ha).trans (congrArg some hc), hin, herror, h⟩

end TinyRedis.Commands

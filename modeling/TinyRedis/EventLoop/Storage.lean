import TinyRedis.Commands.DualIndex
import TinyRedis.EventLoop.Model

/-!
# The database under the event loop

Only `Dispatch` and `ActiveExpireCycle` change the database. What they keep, every run of
`Server::Run` keeps.
-/

namespace TinyRedis.EventLoop

open Lib Commands

variable {env : Env} {I : Database → Prop} {α β : Type} {h : Handle} {m m' : Machine}
  {polls : ℕ → Poll} {f f' : L α}

/-- The database keeps `I`. -/
def KeepsDb (I : Database → Prop) (f : L α) : Prop :=
  Safe (fun s : Reactor => I s.db) (fun _ => True) f fun _ => True

namespace KeepsDb

/-- One program after another. -/
theorem bind {g : α → L β} (hf : KeepsDb I f) (hg : ∀ a, KeepsDb I (g a)) : KeepsDb I (f >>= g) :=
  Safe.bind hf fun a _ => hg a

/-- A case split. -/
theorem ite {c : Prop} [Decidable c] (hf : KeepsDb I f) (hf' : KeepsDb I f') :
    KeepsDb I (if c then f else f') :=
  Safe.ite (fun _ => hf) fun _ => hf'

/-- Nothing is done. -/
theorem pure (a : α) : KeepsDb I (pure a : L α) := Safe.pure trivial

/-- A fault. -/
theorem fault (e : LoopFault) : KeepsDb I (fault e : L α) := Safe.intro fun _ _ => trivial

/-- The state is read. -/
theorem get : KeepsDb I (get : L Reactor) := Safe.intro fun _ hs => ⟨hs, trivial⟩

/-- A write that does not touch the database. -/
theorem modify {u : Reactor → Reactor} (hu : ∀ s, (u s).db = s.db) :
    KeepsDb I (modify u : L Unit) :=
  Safe.modify fun s hs => hu s ▸ hs

/-- A handle is used. -/
theorem deref : KeepsDb I (deref h) := by
  refine Safe.intro fun s hs => ?_
  unfold EventLoop.deref
  grind

/-- A connection is updated. -/
theorem update (u : Connection → Connection) : KeepsDb I (update h u) :=
  .bind .deref fun _ => .modify fun _ => rfl

/-- The interest in writing is set. -/
theorem enableWrite (b : Bool) : KeepsDb I (enableWrite h b) :=
  .bind .deref fun _ => .ite (.update _) (.ite (.update _) (.pure _))

/-- A connection is closed. -/
theorem closeConn : KeepsDb I (closeConn h) := by
  have hdestroy : KeepsDb I (destroy h) := .bind .deref fun _ => .modify fun _ => rfl
  exact .bind .deref fun _ => .bind .get fun _ =>
    .ite (.pure _) (.ite (.bind (.enableWrite _) fun _ => hdestroy) hdestroy)

/-- All connections are closed. -/
theorem closeEach : ∀ l, KeepsDb I (closeEach l)
  | [] => .pure _
  | _ :: l => .bind .closeConn fun _ => closeEach l

/-- Connections are accepted. -/
theorem onAccept : ∀ l, KeepsDb I (onAccept l)
  | [] => .fault _
  | .accepted _ :: l => .bind (.modify fun _ => rfl) fun _ => onAccept l
  | .interrupted :: l => onAccept l
  | .again :: _ | .failed :: _ => .pure _

/-- A round of the loop of `OnWritable`. -/
theorem whileOut {f : L Unit} (hf : KeepsDb I f) : KeepsDb I (whileOut h f) :=
  .bind .deref fun _ => .ite (.enableWrite _) hf

/-- Replies are written. -/
theorem onWritable : ∀ l, KeepsDb I (onWritable h l)
  | [] => .whileOut (.fault _)
  | .wrote _ :: l => .whileOut (.ite (.bind (.update _) fun _ => onWritable l) .closeConn)
  | .again :: _ => .whileOut (.enableWrite _)
  | .interrupted :: l => .whileOut (onWritable l)
  | .failed :: _ => .whileOut .closeConn

variable (hk : Server.Kept env (fun _ => true) I)
include hk

/-- A command is dispatched. -/
theorem dispatchOne (argv : Args) : KeepsDb I (dispatchOne env h argv) := by
  refine .bind (.modify fun _ => rfl) fun _ => .bind .deref fun c => Safe.intro fun s hs => ?_
  have hrun : (MonadState.get >>= fun s => conclude h argv c (dispatch env 2 argv c.tx (s.world c)))
      s = conclude h argv c (dispatch env 2 argv c.tx (s.world c)) s := rfl
  rw [hrun]
  cases hd : dispatch env 2 argv c.tx (s.world c) with
  | error e => trivial
  | ok p =>
    exact ⟨dispatch_keeps (K := fun _ => True) (fun x p ha _ => hk.handler x p ha rfl) 2 argv c.tx
      (s.world c) p hs (fun _ _ => trivial) hd, trivial⟩

/-- All commands are dispatched. -/
theorem dispatchAll : ∀ l, KeepsDb I (dispatchAll env h l)
  | [] => .pure _
  | argv :: l => .ite (dispatchAll l) <| .bind (.dispatchOne hk argv) fun _ => .bind .deref fun _ =>
      .bind .get fun _ => .ite (.pure _) (.ite (.pure _) (dispatchAll l))

/-- A connection is read. -/
theorem onReadable (reads : List ReadResult) (l : List WriteResult) :
    KeepsDb I (onReadable env h reads l) := by
  refine .bind .deref fun c => ?_
  split
  · exact .fault _
  · refine .bind (.update _) fun _ => ?_
    split
    · exact .bind (.update _) fun _ => .bind (.onWritable l) fun _ => .closeConn
    · exact .closeConn
    · exact .bind (.dispatchAll hk _) fun _ => .bind .get fun _ => .ite (.modify fun _ => rfl) <|
        .bind .deref fun _ => .ite (.bind (.onWritable l) fun _ => .bind .deref fun _ =>
          .ite .closeConn (.pure _)) (.ite (.onWritable l) (.pure _))

/-- An event is handled. -/
theorem onEvent : ∀ e, KeepsDb I (onEvent env e)
  | .signal => .modify fun _ => rfl
  | .listen l => .onAccept l
  | .conn _ none _ _ => .pure _
  | .conn .read (some _) reads l =>
    .bind .deref fun _ => .bind .get fun _ => .ite (.pure _) (.onReadable hk reads l)
  | .conn .write (some _) _ l =>
    .bind .deref fun _ => .bind .get fun _ => .ite (.pure _) (.onWritable l)

end KeepsDb

/-- Every step keeps `I`, if the commands and the expiry do. -/
theorem step_keepsDb (hk : Server.Kept env (fun _ => true) I) (hm : I m.reactor.db)
    (hstep : step env polls m = .ok m') : I m'.reactor.db := by
  have hend (h : m.finish = .ok m') : I m'.reactor.db := by
    obtain ⟨p, hp, h⟩ := bind_eq_ok h
    cases h
    exact ((KeepsDb.closeEach _).triple.of_ok hm hp).1
  unfold step at hstep
  split at hstep
  · grind
  · obtain ⟨p, hp, h⟩ := bind_eq_ok hstep
    cases h
    exact ((KeepsDb.onEvent hk _).triple.of_ok hm hp).1
  · cases hstep
    exact Server.activeExpireCycle_keeps hk hm
  · grind

/-- In every run of the event loop, in whatever order connections come and go, and wherever reads
and writes are cut, every stored sorted set keeps the pairs of its dict in its skip list. -/
theorem run_zset_indexed {n : ℕ} (hm : AllValues IndexedValue m.reactor.db)
    (hrun : run env polls n m = .ok m') : AllValues IndexedValue m'.reactor.db :=
  Process.run_keeps (I := fun m : Machine => AllValues IndexedValue m.reactor.db)
    (fun _ _ hs _ => step_keepsDb (kept_indexed env) hs) hm (Process.meets_true n m) hrun

/-- A sorted set is stored, and the reply waits. -/
def zaddOnce : ℕ → Poll :=
  batches [[.listen [.accepted 5, .again]],
    [.conn .read (some ⟨5, 1⟩) [.ofBytes (bytes "ZADD z 0 a\r\n")] [.again]]]

/-- The sorted set is there. -/
theorem run_zset_indexed_zadd : ∃ m, run stillEnv zaddOnce 5 freshMachine = .ok m ∧
    m.reactor.db.used ≠ 0 ∧ AllValues IndexedValue m.reactor.db := by
  obtain ⟨m, hrun, hm⟩ := exists_ok_of_any (p := fun m : Machine => decide (m.reactor.db.used ≠ 0))
    (x := run stillEnv zaddOnce 5 freshMachine) (by decide +kernel)
  exact ⟨m, hrun, of_decide_eq_true hm, run_zset_indexed (fun _ _ _ h => by cases h) hrun⟩

end TinyRedis.EventLoop

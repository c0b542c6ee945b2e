import TinyRedis.Commands.Rules.Dispatch
import TinyRedis.EventLoop.Runs

/-!
# `QUIT`

The loop over the commands stops at `QUIT`, and the connection is closed when the replies are
written. If they cannot be written at once, the connection stays, and what it sends then is read and
dispatched as before, as far as the next command. So nothing is run after `QUIT` in the runs in
which no connection is read that has asked to quit.
-/

namespace TinyRedis.Commands

open Lib

variable {env : Env} {depth : ℕ} {tx tx' : Tx} {w w' : World}

/-- `QUIT`, without arguments. -/
def isQuit (argv : Args) : Bool := decide (commandOf argv = some .quit) && decide (argv.length = 1)

/-- `QUIT` does not write. -/
theorem isWriteCommand_quit : isWriteCommand .quit = false := by decide

/-- It takes no arguments. -/
theorem arityOk_quit : ∀ a ∈ arityTable, a.cmd = .quit → arityOk a 1 = true := by decide +kernel

/-- `QUIT` is run also in a transaction. -/
theorem dispatch_quit {argv : Args} (hquit : isQuit argv = true)
    (hrun : dispatch env (depth + 1) argv tx w = .ok (((), tx'), w')) :
    w'.cs.quitRequested = true := by
  rw [isQuit, Bool.and_eq_true] at hquit
  have hcmd := of_decide_eq_true hquit.1
  have hlen := of_decide_eq_true hquit.2
  cases argv with
  | nil => cases hlen
  | cons name args =>
    obtain rfl : args = [] := List.eq_nil_of_length_eq_zero (Nat.succ.inj hlen)
    obtain ⟨a, ha, hc⟩ := Option.map_eq_some_iff.1 hcmd
    replace ha : findCommand (toUpper name) = some a := ha
    have hok : arityOk a [name].length = true :=
      arityOk_quit a (List.mem_of_find?_eq_some ha) hc
    have hdirect : (tx.inMulti && !isControl .quit) = false := Bool.and_false _
    rw [dispatch_eq_plan, plan, ha] at hrun
    dsimp only at hrun
    rw [hok, hc, hdirect] at hrun
    obtain ⟨⟨⟨⟩, w₁⟩, hcommand, hend⟩ := bind_eq_ok hrun
    cases hend
    unfold runCommand gated at hcommand
    rw [isWriteCommand_quit, Bool.and_false] at hcommand
    cases hcommand
    rfl

end TinyRedis.Commands

namespace TinyRedis.EventLoop

open Lib Commands List

variable {env : Env} {c c' : Connection}

/-- No command was dispatched after one that asks to quit. -/
structure QuitLast (c : Connection) : Prop where
  last : ∀ d ∈ c.history.dispatched.dropLast, d.quit = false
  unasked : c.session.quitRequested = false → ∀ d ∈ c.history.dispatched, d.quit = false
  asked : ∀ d ∈ c.history.dispatched, isQuit d.argv = true → d.quit = true

/-- Nothing was asked for yet. -/
structure NotQuit (c : Connection) : Prop where
  unasked : ∀ d ∈ c.history.dispatched, d.quit = false
  asked : ∀ d ∈ c.history.dispatched, isQuit d.argv = true → d.quit = true

/-- Then no command was dispatched after `QUIT`. -/
theorem NotQuit.quitLast (hc : NotQuit c) : QuitLast c :=
  ⟨fun d hd => hc.unasked d (mem_of_mem_dropLast hd), fun _ => hc.unasked, hc.asked⟩

/-- A command that is dispatched after others that do not ask to quit. -/
theorem NotQuit.answers {argv : Args} {quit shutdown : Bool} (hc : NotQuit c)
    (h : Answers env argv c c' quit shutdown) : QuitLast c' ∧ (quit = false → NotQuit c') := by
  obtain ⟨s, tx, w, hrun, rfl, hquit, -⟩ := h.result
  have hasked : ∀ d ∈ (c.answered argv tx w).history.dispatched, isQuit d.argv = true →
      d.quit = true := by
    intro d hd
    rcases mem_append.1 hd with hd | hd
    · exact hc.asked d hd
    · rw [mem_singleton.1 hd]
      exact fun h => dispatch_quit h hrun
  have hopen : w.cs.quitRequested = false →
      ∀ d ∈ (c.answered argv tx w).history.dispatched, d.quit = false := by
    intro hw d hd
    rcases mem_append.1 hd with hd | hd
    · exact hc.unasked d hd
    · rw [mem_singleton.1 hd]
      exact hw
  refine ⟨⟨fun d hd => ?_, hopen, hasked⟩, fun hq => ⟨hopen (hquit.trans hq), hasked⟩⟩
  have hdrop : (c.answered argv tx w).history.dispatched.dropLast = c.history.dispatched :=
    dropLast_concat
  rw [hdrop] at hd
  exact hc.unasked d hd

/-- The loop over the commands stops at `QUIT`. -/
theorem serves_quitLast (env : Env) : Serves env (fun _ => NotQuit) QuitLast where
  done _ hc := hc.quitLast
  skip _ _ hc := hc
  last _ _ _ _ _ _ _ hc h _ := (hc.answers h).1
  next _ _ _ _ _ hc h := (hc.answers h).2 rfl

/-- Output does not matter. -/
theorem quitLast_undisturbed : Undisturbed QuitLast where
  send _ _ hc := ⟨hc.last, hc.unasked, hc.asked⟩
  interest _ _ hc := ⟨hc.last, hc.unasked, hc.asked⟩

/-- The course of a connection. -/
theorem course_quitLast : Course (fun _ => QuitLast) QuitLast QuitLast where
  output := quitLast_undisturbed
  closing := quitLast_undisturbed
  fresh _ _ := ⟨fun _ hd => absurd hd not_mem_nil, fun _ _ hd => absurd hd not_mem_nil,
    fun _ hd => absurd hd not_mem_nil⟩
  starts _ _ hc := hc
  settled _ _ hc := hc.1
  stopping _ hc := hc
  destroyed _ hc := hc

/-- The event that is handled next does not read from a connection that has asked to quit. -/
def readsOpen (m : Machine) : Bool :=
  match m.point with
  | .handling (.conn .read (some h) _ _ :: _) =>
    (m.reactor.conns.lookup h.fd).all fun c => !c.session.quitRequested
  | _ => true

/-- What the test ensures. -/
theorem ensures_quitLast (env : Env) :
    Ensures env (fun _ => QuitLast) QuitLast QuitLast readsOpen := by
  intro m e rest hm hpoint h reads writes c he hc hlast r end_ _
  have hopen : c.session.quitRequested = false := by
    unfold readsOpen at hm
    rw [hpoint, he] at hm
    dsimp only at hm
    rw [hc.lookup, Option.all_some, Bool.not_eq_true'] at hm
    exact hm
  have hreceive : QuitLast (c.receive r) := ⟨hlast.last, hlast.unasked, hlast.asked⟩
  cases end_ with
  | refused => exact ⟨⟨hlast.last, hlast.unasked, hlast.asked⟩, fun _ => trivial⟩
  | hangup => exact hreceive
  | drained =>
    exact ⟨fun _ => NotQuit, serves_quitLast env, ⟨hlast.unasked hopen, hlast.asked⟩,
      fun _ _ _ _ => trivial⟩

/-- In every run in which no event is handled that reads from a connection that has asked to quit,
`QUIT` is the last command of its connection that is passed to `Dispatch`. -/
theorem run_quit_last {polls : ℕ → Poll} {n : ℕ} {m₀ m : Machine} (hm : m₀.Initial)
    (hmeets : Process.meets (step env polls) readsOpen n m₀ = true)
    (hrun : run env polls n m₀ = .ok m) {c : Connection}
    (hc : (∃ fd, m.reactor.conns.lookup fd = some c) ∨ c ∈ m.reactor.gone)
    {before after : List Dispatched} {d : Dispatched}
    (hsplit : c.history.dispatched = before ++ d :: after) (hquit : isQuit d.argv = true) :
    after = [] := by
  have hall : Everyone (fun _ => QuitLast) QuitLast m.reactor :=
    run_keeps course_quitLast (ensures_quitLast env) hm hmeets hrun
  have hlast : QuitLast c := hall.of_mem (fun _ _ hc => hc) (fun _ hc => hc) hc
  have hd : d ∈ c.history.dispatched := by
    rw [hsplit]
    exact mem_append_right _ mem_cons_self
  by_contra hafter
  -- Otherwise there is a command after it.
  have hmem : d ∈ c.history.dispatched.dropLast := by
    rw [hsplit, dropLast_append_of_ne_nil (cons_ne_nil _ _), dropLast_cons_of_ne_nil hafter]
    exact mem_append_right _ mem_cons_self
  have hopen := hlast.last d hmem
  rw [hlast.asked d hd hquit] at hopen
  cases hopen

/-- Two commands and `QUIT` come at once, the replies are written, and another command is not
read. -/
def quitting : ℕ → Poll :=
  batches [[.listen [.accepted 5, .again]],
    [.conn .read (some ⟨5, 1⟩) [.ofBytes (bytes "PING\r\nQUIT\r\nPING\r\n")] [.wrote 12]]]

/-- `QUIT` was the last command. -/
theorem run_quit_last_flushed : ∃ m c before d, run stillEnv quitting 5 freshMachine = .ok m ∧
    c ∈ m.reactor.gone ∧ isQuit d.argv = true ∧ c.history.dispatched = before ++ [d] := by
  obtain ⟨m, hrun, hm⟩ := exists_ok_of_any
    (p := fun m : Machine => m.reactor.gone.any fun c : Connection =>
      (c.history.dispatched[1]?).any fun d => isQuit d.argv)
    (x := run stillEnv quitting 5 freshMachine) (by decide +kernel)
  obtain ⟨c, hc, hd⟩ := any_eq_true.1 hm
  obtain ⟨d, hat, hquit⟩ := (Option.any_eq_true _ _).1 hd
  obtain ⟨before, after, hsplit⟩ := append_of_mem (mem_of_getElem? hat)
  have hlast := run_quit_last freshMachine_initial (by decide +kernel) hrun (.inr hc) hsplit hquit
  rw [hlast] at hsplit
  exact ⟨m, c, before, d, hrun, hc, hquit, hsplit⟩

/-- The reply to `QUIT` cannot be written at once, and then another command comes. -/
def blocked : ℕ → Poll :=
  batches [[.listen [.accepted 5, .again]],
    [.conn .read (some ⟨5, 1⟩) [.ofBytes (bytes "QUIT\r\n")] [.again]],
    [.conn .read (some ⟨5, 1⟩) [.ofBytes (bytes "PING\r\n")] [.again]]]

/-- It is dispatched. -/
theorem quit_not_last : ∃ m c, run stillEnv blocked 8 freshMachine = .ok m ∧
    m.reactor.conns.lookup 5 = some c ∧
    c.history.dispatched.map Dispatched.argv = [[bytes "QUIT"], [bytes "PING"]] := by
  obtain ⟨m, hrun, hm⟩ := exists_ok_of_any
    (p := fun m : Machine => (m.reactor.conns.lookup 5).any fun c : Connection =>
      decide (c.history.dispatched.map Dispatched.argv = [[bytes "QUIT"], [bytes "PING"]]))
    (x := run stillEnv blocked 8 freshMachine) (by decide +kernel)
  obtain ⟨c, hc, hd⟩ := (Option.any_eq_true _ _).1 hm
  exact ⟨m, c, hrun, hc, of_decide_eq_true hd⟩

end TinyRedis.EventLoop

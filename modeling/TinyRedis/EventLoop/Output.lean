import TinyRedis.Commands.Effects
import TinyRedis.EventLoop.Runs

/-!
# Output

Replies are appended to `out`, and `write` takes bytes from its front, whatever it returns and
whenever it is called again. So nothing is lost, repeated, or reordered; and when the event loop
goes on, it has asked to be told when it can write what is left.
-/

namespace TinyRedis.EventLoop

open Lib Commands Resp

variable {env : Env} {c c' : Connection}

/-- What was sent and what is still to be sent are the replies. -/
def Balanced (c : Connection) : Prop := c.history.sent ++ c.out = c.history.replies.flatten

/-- Writing keeps the balance. -/
theorem balanced_undisturbed : Undisturbed Balanced where
  send c n hc := by
    show c.history.sent ++ c.out.take n ++ c.out.drop n = c.history.replies.flatten
    rw [List.append_assoc, List.take_append_drop]
    exact hc
  interest _ _ hc := hc

/-- A reply is appended. -/
theorem balanced_append {reply : Bytes} (hc : Balanced c) :
    c.history.sent ++ (c.out ++ reply) = (c.history.replies ++ [reply]).flatten := by
  rw [List.flatten_append, List.flatten_singleton, ← hc, List.append_assoc]

/-- So does the reply to a protocol error. -/
theorem balanced_refuse (hc : Balanced c) : Balanced c.refuse := by
  have happend : c.refuse.out = c.out ++ appendErrorReply [] c.parser.errorMsg :=
    List.append_assoc _ _ _
  unfold Balanced
  rw [happend]
  exact balanced_append hc

/-- So does a command. -/
theorem balanced_answers {argv : Args} {quit shutdown : Bool}
    (h : Answers env argv c c' quit shutdown) (hc : Balanced c) : Balanced c' := by
  obtain ⟨s, tx, w, hrun, rfl, -, -⟩ := h.result
  obtain ⟨reply, hreply⟩ := dispatch_appends hrun
  replace hreply : c.out ++ reply = w.out := hreply
  show c.history.sent ++ w.out = (c.history.replies ++ [w.out.drop c.out.length]).flatten
  rw [← hreply, List.drop_left]
  exact balanced_append hc

/-- So do all commands. -/
theorem serves_balanced (env : Env) : Serves env (fun _ => Balanced) Balanced where
  done _ hc := hc
  skip _ _ hc := hc
  last _ _ _ _ _ _ _ hc h _ := balanced_answers h hc
  next _ _ _ _ _ hc h := balanced_answers h hc

/-- What there is to write is waited for, unless the server is to stop. -/
def Delivers (q : Bool) (c : Connection) : Prop :=
  Balanced c ∧ (q = false → c.out ≠ [] → c.wantWrite = true)

/-- The course of a connection. -/
theorem course_delivers : Course Delivers Balanced Balanced where
  output := balanced_undisturbed
  closing := balanced_undisturbed
  fresh _ _ := ⟨rfl, fun _ h => absurd rfl h⟩
  starts _ _ hc := hc.1
  settled _ _ hc := ⟨hc.1, fun _ hout => hc.2.resolve_left hout⟩
  stopping _ hc := ⟨hc, fun hq => by cases hq⟩
  destroyed _ hc := hc

/-- However the reading ends. -/
theorem reads_balanced {writes : List WriteResult} {r : Reading} (e : ReadEnd) (hc : Balanced c) :
    Reads env (fun _ => True) Balanced Balanced writes c r e := by
  have hreceive : Balanced (c.receive r) := hc
  cases e with
  | refused => exact ⟨balanced_refuse hreceive, fun _ => trivial⟩
  | hangup => exact hreceive
  | drained => exact ⟨fun _ => Balanced, serves_balanced env, hreceive, fun _ _ _ _ => trivial⟩

/-- In every run, for every connection that is there or was destroyed, what `write` has taken and
what is left in `out` are together the replies in the order of the commands, so that what was taken
is a beginning of them. And wherever the event loop goes on and is not to stop, it waits to write
what is left. -/
theorem run_output_in_order {polls : ℕ → Poll} {n : ℕ} {m₀ m : Machine} (hm : m₀.Initial)
    (hrun : run env polls n m₀ = .ok m) :
    (∀ c, (∃ fd, m.reactor.conns.lookup fd = some c) ∨ c ∈ m.reactor.gone →
      c.history.sent ++ c.out = c.history.replies.flatten ∧
        c.history.sent <+: c.history.replies.flatten) ∧
    (m.reactor.quit = false → ∀ fd c, m.reactor.conns.lookup fd = some c → c.out ≠ [] →
      c.wantWrite = true) := by
  have hall : Everyone Delivers Balanced m.reactor :=
    run_keeps course_delivers (K := fun _ => true)
      (fun _ _ _ _ _ _ _ _ _ _ _ hc _ e _ => reads_balanced e hc.1) hm (Process.meets_true n m₀)
      hrun
  refine ⟨fun c hc => ?_, fun hq fd c hc => (hall.alive fd c hc).2 hq⟩
  have hbalanced : Balanced c := hall.of_mem (fun _ _ hc => hc.1) (fun _ hc => hc) hc
  exact ⟨hbalanced, c.out, hbalanced⟩

/-- A connection sends `PING`. The reply is written in parts: three bytes at once, and the rest when
the connection can be written again. -/
def inParts : ℕ → Poll :=
  batches [[.listen [.accepted 5, .again]],
    [.conn .read (some ⟨5, 1⟩) [.ofBytes (bytes "PING\r\n")] [.wrote 3, .again]],
    [.conn .write (some ⟨5, 1⟩) [] [.interrupted, .wrote 2, .wrote 2]]]

/-- Between the parts, the bytes that are left are waited for. -/
theorem run_output_in_order_parts : ∃ m c, run stillEnv inParts 5 freshMachine = .ok m ∧
    m.reactor.conns.lookup 5 = some c ∧ c.history.sent = bytes "+PO" ∧
    c.history.sent ++ c.out = c.history.replies.flatten ∧
    c.history.sent <+: c.history.replies.flatten ∧ c.wantWrite = true := by
  obtain ⟨m, hrun, hm⟩ := exists_ok_of_any
    (p := fun m : Machine => !m.reactor.quit && (m.reactor.conns.lookup 5).any fun c : Connection =>
      decide (c.history.sent = bytes "+PO") && decide (c.out ≠ []))
    (x := run stillEnv inParts 5 freshMachine) (by decide +kernel)
  rw [Bool.and_eq_true, Bool.not_eq_true'] at hm
  obtain ⟨hquit, hm⟩ := hm
  obtain ⟨c, hlook, hc⟩ := (Option.any_eq_true _ _).1 hm
  rw [Bool.and_eq_true] at hc
  obtain ⟨hall, hwait⟩ := run_output_in_order freshMachine_initial hrun
  obtain ⟨hbalanced, hbegin⟩ := hall c (.inl ⟨5, hlook⟩)
  exact ⟨m, c, hrun, hlook, of_decide_eq_true hc.1, hbalanced, hbegin,
    hwait hquit 5 c hlook (of_decide_eq_true hc.2)⟩

end TinyRedis.EventLoop

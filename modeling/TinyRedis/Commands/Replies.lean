import TinyRedis.Commands.Effects

/-!
# One reply for each command

A command that exists and has the right number of arguments is answered with one value of the
protocol, after what is in the output already. `EXEC` is answered with an array that has one value
for each command in the queue.
-/

namespace TinyRedis.Commands

open Lib Resp List

variable {env : Env} {depth : ℕ} {argv : Args} {tx tx' : Tx} {w w' : World} {run : Args → D Unit}

/-- A command that exists, has the right number of arguments, and is none of `SHUTDOWN`, `CONFIG`,
and `CLIENT`. -/
structure Answerable (argv : Args) : Prop where
  intro ::
  known : ∃ a, findCommand (toUpper (argv.headD [])) = some a ∧
    arityOk a argv.length = true ∧ a.cmd ≠ .shutdown ∧ a.cmd ≠ .config ∧ a.cmd ≠ .client

/-- Whether a request can be answered is decidable. -/
instance instDecidableAnswerable (argv : Args) : Decidable (Answerable argv) :=
  decidable_of_iff ((findCommand (toUpper (argv.headD []))).any (fun a => arityOk a argv.length &&
      decide (a.cmd ≠ .shutdown ∧ a.cmd ≠ .config ∧ a.cmd ≠ .client)) = true) (by
    rw [Option.any_eq_true]
    simp only [Bool.and_eq_true, decide_eq_true_eq]
    exact ⟨.intro, Answerable.known⟩)

/-- The errors of writing a snapshot are lines. -/
structure SavesWithLines (env : Env) : Prop where
  saveToFile : ∀ n s, env.saveToFile n = some s → OneLine s
  bgSaveFork : ∀ n s, env.bgSaveFork n = some s → OneLine s

/-- The value `v` is what was appended to the output, and all that was. -/
def Replied (w w' : World) (v : Reply) : Prop :=
  v.WellFormed ∧ ∀ vs, Reply.AllWellFormed vs → (w'.out = w.out ++ Reply.encodeAll vs ↔ vs = [v])

/-- Output that grows by an encoded reply is that reply. -/
theorem replied_of_out {v : Reply} (hv : v.WellFormed) (hout : w'.out = w.out ++ v.encode) :
    Replied w w' v := by
  refine ⟨hv, fun vs hvs => ?_⟩
  rw [hout, append_cancel_left_eq, eq_comm]
  exact Reply.encodeAll_eq_encode_iff hv hvs

/-- The output grows by the encoded reply. -/
theorem Replied.out {v : Reply} (h : Replied w w' v) : w'.out = w.out ++ v.encode := by
  have hout := (h.2 [v] ⟨h.1, trivial⟩).2 rfl
  rwa [Reply.encodeAll, Reply.encodeAll, append_nil] at hout

/-! ## One command -/

/-- What a call other than `EXEC` in a transaction replies. -/
theorem runCommand_replied {c : Cmd} {lower : Bytes} (hlower : OneLine lower)
    (hsaves : SavesWithLines env) (hplain : Plain c) (hshutdown : c ≠ .shutdown)
    (hconfig : c ≠ .config) (hclient : c ≠ .client)
    (hrun : runCommand env c lower argv w = .ok ((), w')) : ∃ v, Replied w w' v := by
  have hpermits : (lineRules env).Permits c argv :=
    permits_lines (fun _ => hsaves.saveToFile) (fun _ => hsaves.bgSaveFork)
      (fun h => absurd h hconfig) fun h => absurd h hclient
  obtain ⟨p, hp, h⟩ := holds_runCommand hpermits free_of_true hlower hrun
  obtain ⟨b, hout, hb⟩ := h.answer
  rcases hp with hp | hp | ⟨hnothing, -⟩
  · rw [hp] at hb
    obtain ⟨s, hs, rfl⟩ := hb
    exact ⟨.error s, replied_of_out hs hout⟩
  · rw [hp] at hb
    obtain ⟨v, hv, -, rfl⟩ := Reply.Partial.complete hb
    exact ⟨v, replied_of_out hv hout⟩
  · exfalso
    obtain ⟨hm, hd, he⟩ := hplain
    have hcases : c = .shutdown ∨ c = .multi ∨ c = .exec ∨ c = .discard := by
      simpa [repliesNothing] using hnothing
    rcases hcases with hc | hc | hc | hc
    · exact hshutdown hc
    · exact hm hc
    · exact he hc
    · exact hd hc

/-- A call that does not run a queue is answered with one value. -/
theorem Reacts.replied (hsaves : SavesWithLines env) (hargv : Answerable argv)
    (h : Reacts env argv tx w tx' w') : ∃ v, Replied w w' v := by
  obtain ⟨a, ha, hok, hshutdown, hconfig, hclient⟩ := hargv
  have hsimple : ∀ {s : Bytes}, OneLine s →
      ∃ v, Replied w { w with out := appendSimpleReply w.out s } v := fun {s} hs =>
    ⟨.simple s, replied_of_out hs (append_assoc _ _ _)⟩
  have herror : ∀ {s : Bytes}, OneLine s →
      ∃ v, Replied w { w with out := appendErrorReply w.out s } v := fun {s} hs =>
    ⟨.error s, replied_of_out hs (append_assoc _ _ _)⟩
  cases h with
  | nothing => cases ha
  | unknown ha' => cases ha'.symm.trans ha
  | arity ha' hok' =>
    cases ha'.symm.trans ha
    rw [hok] at hok'
    cases hok'
  | queued => exact hsimple (by decide +kernel)
  | misplaced _ _ hs => exact herror hs
  | accepted => exact hsimple (by decide +kernel)
  | aborted _ _ _ hs => exact herror hs
  | ran ha' hok' hplain hrun =>
    cases ha'.symm.trans ha
    exact runCommand_replied (line_of_findCommand ha') hsaves hplain hshutdown hconfig hclient hrun

/-- There are only answerable commands in the queue. -/
def Tx.Answerable (tx : Tx) : Prop := ∀ q ∈ tx.multiQueue, Commands.Answerable q

/-! ## The queue of a transaction -/

/-- Each command of the queue is answered with one value, if that holds of each call. -/
theorem runQueue_replied (hcall : ∀ argv tx w tx' w', Answerable argv →
      tx.Answerable → run argv tx w = .ok (((), tx'), w') →
      (∃ v, Replied w w' v) ∧ tx'.Answerable) (queue : List Args)
    (hqueue : ∀ q ∈ queue, Answerable q) (htx : tx.Answerable)
    (hrun : runQueue run queue tx w = .ok (((), tx'), w')) :
    (∃ vs, vs.length = queue.length ∧ Reply.AllWellFormed vs ∧
      w'.out = w.out ++ Reply.encodeAll vs) ∧ tx'.Answerable := by
  induction queue generalizing tx w with
  | nil =>
    cases hrun
    exact ⟨⟨[], rfl, trivial, (append_nil _).symm⟩, htx⟩
  | cons q queue ih =>
    rw [runQueue_cons] at hrun
    obtain ⟨⟨⟨⟨⟩, tx₁⟩, w₁⟩, hfirst, hrest⟩ := bind_eq_ok hrun
    obtain ⟨⟨v, hv⟩, htx₁⟩ := hcall q tx w tx₁ w₁ (hqueue q mem_cons_self) htx hfirst
    obtain ⟨⟨vs, hlen, hvs, hout⟩, htx'⟩ :=
      ih (fun q hq => hqueue q (mem_cons_of_mem _ hq)) htx₁ hrest
    refine ⟨⟨v :: vs, congrArg Nat.succ hlen, ⟨hv.1, hvs⟩, ?_⟩, htx'⟩
    rw [hout, hv.out, Reply.encodeAll, append_assoc]

/-- The reply to `EXEC` is an array with one value for each command. -/
theorem exec_replied (hcall : ∀ argv tx w tx' w', Answerable argv →
      tx.Answerable → run argv tx w = .ok (((), tx'), w') →
      (∃ v, Replied w w' v) ∧ tx'.Answerable) (htx : tx.Answerable)
    (hrun : runQueue run tx.multiQueue .idle (execHeader tx w) = .ok (((), tx'), w')) :
    (∃ vs, vs.length = tx.multiQueue.length ∧ Replied w w' (.array vs)) ∧ tx'.Answerable := by
  obtain ⟨⟨vs, hlen, hvs, hout⟩, htx'⟩ := runQueue_replied hcall tx.multiQueue htx
    (fun q hq => absurd hq not_mem_nil) hrun
  refine ⟨⟨vs, hlen, replied_of_out hvs ?_⟩, htx'⟩
  rw [hout, Reply.encode, hlen, ← append_assoc]
  congr 1
  exact append_assoc _ _ _

/-- Every dispatched request is answered by one reply. -/
theorem dispatch_replied (hsaves : SavesWithLines env) : ∀ argv tx w tx' w', Answerable argv →
    tx.Answerable → dispatch env depth argv tx w = .ok (((), tx'), w') →
    (∃ v, Replied w w' v) ∧ tx'.Answerable := by
  induction depth with
  | zero => exact fun argv tx w tx' w' _ _ hrun => by cases hrun
  | succ depth ih =>
    intro argv tx w tx' w' hargv htx hrun
    rcases dispatch_reacts hrun with hreacts | hexec
    · exact ⟨hreacts.replied hsaves hargv, hreacts.queue hargv htx⟩
    · obtain ⟨⟨vs, -, hv⟩, htx'⟩ := exec_replied ih htx hexec.queue
      exact ⟨⟨.array vs, hv⟩, htx'⟩

/-- `EXEC` in a transaction without errors runs the queue. -/
theorem dispatch_exec (hargv : Answerable argv) (hcmd : commandOf argv = some .exec)
    (hin : tx.inMulti = true) (herror : tx.multiError = false) :
    dispatch env (depth + 1) argv tx w =
      runQueue (dispatch env depth) tx.multiQueue .idle (execHeader tx w) := by
  obtain ⟨a, ha, hok, -⟩ := hargv
  cases argv with
  | nil => cases ha
  | cons name args =>
    have ha : findCommand (toUpper name) = some a := ha
    have hc : a.cmd = .exec := Option.some.inj ((commandOf_cons ha).symm.trans hcmd)
    rw [dispatch_eq_plan, plan, ha]
    dsimp only
    rw [hok, hc, hin, herror]
    rfl

/-- A call of a command that exists and has the right number of arguments is answered with one value
of the protocol, and with nothing else. In the case of `EXEC` in a transaction without errors it is
an array with one value for each command in the queue. -/
theorem dispatch_one_reply (hsaves : SavesWithLines env) (hargv : Answerable argv)
    (hqueue : commandOf argv = some .exec → tx.Answerable)
    (hrun : dispatch env depth argv tx w = .ok (((), tx'), w')) :
    ∃ v, Replied w w' v ∧ (commandOf argv = some .exec → tx.inMulti = true →
      tx.multiError = false → ∃ vs, vs.length = tx.multiQueue.length ∧ v = .array vs) := by
  cases depth with
  | zero => cases hrun
  | succ depth =>
    by_cases hexec : commandOf argv = some .exec ∧ tx.inMulti = true ∧ tx.multiError = false
    · obtain ⟨hcmd, hin, herror⟩ := hexec
      rw [dispatch_exec hargv hcmd hin herror] at hrun
      obtain ⟨⟨vs, hlen, hv⟩, -⟩ := exec_replied (dispatch_replied hsaves) (hqueue hcmd) hrun
      exact ⟨.array vs, hv, fun _ _ _ => ⟨vs, hlen, rfl⟩⟩
    · rcases dispatch_reacts hrun with hreacts | hruns
      · obtain ⟨v, hv⟩ := hreacts.replied hsaves hargv
        exact ⟨v, hv, fun hcmd hin herror => absurd ⟨hcmd, hin, herror⟩ hexec⟩
      · exact absurd ⟨hruns.exec, hruns.inMulti, hruns.multiError⟩ hexec

/-- A transaction of two commands. -/
def twoCommands : Tx := ⟨true, false, [[bytes "PING"], [bytes "GET", bytes "k"]]⟩

/-- `EXEC` with two queued commands replies one array of two replies. -/
theorem dispatch_one_reply_exec : ∃ tx' w' v,
    dispatch stillEnv 2 [bytes "EXEC"] twoCommands stringWorld = .ok (((), tx'), w') ∧
      Replied stringWorld w' v ∧ ∃ vs, vs.length = 2 ∧ v = .array vs := by
  obtain ⟨⟨⟨⟨⟩, tx'⟩, w'⟩, hrun, -⟩ := exists_ok_of_any (p := fun _ => true)
    (x := dispatch stillEnv 2 [bytes "EXEC"] twoCommands stringWorld) (by decide +kernel)
  have hsaves : SavesWithLines stillEnv := ⟨fun _ _ h => (by cases h), fun _ _ h => (by cases h)⟩
  have hqueue : ∀ q ∈ twoCommands.multiQueue, Answerable q := by decide +kernel
  obtain ⟨v, hv, harray⟩ := dispatch_one_reply hsaves (by decide +kernel) (fun _ => hqueue) hrun
  exact ⟨tx', w', v, hrun, hv, harray (by decide +kernel) rfl rfl⟩

end TinyRedis.Commands

import TinyRedis.Commands.Faults
import TinyRedis.Commands.Safety.Runs

/-!
# Transactions

A transaction is a detour of one client: it collects commands, and runs them one after another at
its `EXEC`. `unwind` says what a call of `Dispatch` comes down to outside transactions, from the
state of the transaction alone, and `history` does so for all the calls of a run. `run_eq_serial`
says that a run of the server, with any number of clients, does what its serial history does.
-/

namespace TinyRedis.Commands

open Function List

/-- Outside a transaction. -/
def Tx.idle : Tx := ⟨false, false, []⟩

/-! ## One client -/

/-- What is left of a call when transactions are taken out. -/
inductive Local where
  /-- A command is run outside a transaction. -/
  | command (argv : Args)
  /-- There is only a reply. -/
  | reply (f : Bytes → Bytes)

/-- The reply to a command that is rejected when it is to be queued, or run. -/
def Local.error (text : Bytes) : Local := .reply (Resp.appendErrorReply · text)

/-- The reply to a command that is accepted. -/
def Local.simple (text : Bytes) : Local := .reply (Resp.appendSimpleReply · text)

/-- What a call comes down to, and the state of the transaction afterwards. -/
def unwind (argv : Args) (tx : Tx) : List Local × Tx :=
  match argv with
  | [] => ([], tx)
  | name :: args =>
    match findCommand (toUpper name) with
    | none =>
      if tx.inMulti then
        ([.error (unknownText name args)], { tx with multiError := true })
      else ([.command (name :: args)], tx)
    | some r =>
      if tx.inMulti && !isControl r.cmd then
        if arityOk r (name :: args).length then
          ([.simple (bytes "QUEUED")], { tx with multiQueue := tx.multiQueue ++ [name :: args] })
        else ([.error (wrongArgsText (toLower name))], { tx with multiError := true })
      else if !arityOk r (name :: args).length then ([.command (name :: args)], tx)
      else if r.cmd = .multi then
        if tx.inMulti then ([.error (bytes "ERR MULTI calls can not be nested")], tx)
        else ([.simple (bytes "OK")], ⟨true, false, []⟩)
      else if r.cmd = .discard then
        if tx.inMulti then ([.simple (bytes "OK")], .idle)
        else ([.error (bytes "ERR DISCARD without MULTI")], tx)
      else if r.cmd = .exec then
        if !tx.inMulti then ([.error (bytes "ERR EXEC without MULTI")], tx)
        else if tx.multiError then
          ([.error (bytes "EXECABORT Transaction discarded because of previous errors.")],
            ⟨false, true, []⟩)
        else
          (.reply (Resp.appendArrayReply · tx.multiQueue.length) :: tx.multiQueue.map .command,
            .idle)
      else ([.command (name :: args)], tx)

/-- One step outside transactions. -/
def Local.run (env : Env) : Local → World → Except CommandFault World
  | .command argv, w => do
    let (_, w) ← dispatch env 2 argv .idle w
    .ok w
  | .reply f, w => .ok { w with out := f w.out }

/-- Some steps outside transactions. -/
def runLocal (env : Env) : List Local → World → Except CommandFault World
  | [], w => .ok w
  | x :: xs, w => do
    let w ← x.run env w
    runLocal env xs w

variable {env : Env} {argv args : Args} {tx : Tx} {w : World} {name : Bytes} {r : Arity} {c : Cmd}
  {depth : ℕ} {P : Args → Prop}

/-- A command that `Dispatch` may queue. -/
structure Queueable (argv : Args) : Prop where
  known : ∃ r, findCommand (toUpper (argv.headD [])) = some r ∧ arityOk r argv.length = true ∧
    isControl r.cmd = false
  nonempty : argv ≠ []

/-- There are only such commands in the queue. -/
def Tx.WellFormed (tx : Tx) : Prop := ∀ argv ∈ tx.multiQueue, Queueable argv

/-- Every command that may be queued is such a command. -/
theorem plain_of_not_control (h : isControl c = false) : Plain c := by
  refine ⟨?_, ?_, ?_⟩ <;> rintro rfl <;> cases h

/-- There is no such command. -/
theorem dispatch_unknown (hr : findCommand (toUpper name) = none) :
    dispatch env (depth + 1) (name :: args) tx w =
      .ok (((), if tx.inMulti then { tx with multiError := true } else tx),
        { w with out := Resp.appendErrorReply w.out (unknownText name args) }) := by
  rw [dispatch_eq_plan, plan, hr]
  rfl

/-- A command that is queued, or rejected instead. -/
theorem dispatch_queued (hr : findCommand (toUpper name) = some r)
    (hqueued : (tx.inMulti && !isControl r.cmd) = true) :
    dispatch env (depth + 1) (name :: args) tx w =
      Plan.run env depth (name :: args) tx w (if arityOk r (name :: args).length then
          .simple { tx with multiQueue := tx.multiQueue ++ [name :: args] } (bytes "QUEUED")
        else .error { tx with multiError := true } (wrongArgsText (toLower name))) := by
  rw [dispatch_eq_plan, plan, hr]
  dsimp only
  rw [if_pos hqueued]

/-- A command that is not one of the transaction commands, or has not the right number of arguments,
is not concerned with the transaction. -/
theorem dispatch_plain (hr : findCommand (toUpper name) = some r)
    (hplain : arityOk r (name :: args).length = true → Plain r.cmd) (depth : ℕ)
    (hrun : (tx.inMulti && !isControl r.cmd) = false) :
    dispatch env (depth + 1) (name :: args) tx w =
      ((if arityOk r (name :: args).length then runCommand env r.cmd (toLower name) (name :: args)
        else errWrongArgs (toLower name)) w >>= fun p => .ok (((), tx), p.2)) := by
  rw [dispatch_eq_plan, plan, hr]
  dsimp only
  rw [hrun]
  cases hok : arityOk r (name :: args).length with
  | false => rfl
  | true =>
    obtain ⟨hm, hd, he⟩ := hplain hok
    simp only [if_neg hm, if_neg hd, if_neg he]
    rfl

/-- The same outside transactions. -/
theorem run_plain (hr : findCommand (toUpper name) = some r)
    (hplain : arityOk r (name :: args).length = true → Plain r.cmd) :
    (Local.command (name :: args)).run env w =
      ((if arityOk r (name :: args).length then runCommand env r.cmd (toLower name) (name :: args)
        else errWrongArgs (toLower name)) w >>= fun p => .ok p.2) := by
  have hidle : dispatch env 2 (name :: args) .idle w = _ := dispatch_plain hr hplain 1 rfl
  rw [Local.run, hidle]
  generalize (if arityOk r (name :: args).length then
    runCommand env r.cmd (toLower name) (name :: args) else errWrongArgs (toLower name)) w = x
  cases x <;> rfl

/-- Such a command does what it does outside a transaction. -/
theorem dispatch_eq_command (hr : findCommand (toUpper name) = some r)
    (hplain : arityOk r (name :: args).length = true → Plain r.cmd) (depth : ℕ)
    (hrun : (tx.inMulti && !isControl r.cmd) = false) :
    dispatch env (depth + 1) (name :: args) tx w =
      ((Local.command (name :: args)).run env w >>= fun w => .ok (((), tx), w)) := by
  rw [dispatch_plain hr hplain depth hrun, run_plain hr hplain]
  generalize (if arityOk r (name :: args).length then
    runCommand env r.cmd (toLower name) (name :: args) else errWrongArgs (toLower name)) w = x
  cases x <;> rfl

/-- A command from the queue does not call `Dispatch` again, and does not start a transaction. -/
theorem dispatch_queueable (h : Queueable argv) (hin : tx.inMulti = false) (depth : ℕ)
    (w : World) :
    dispatch env (depth + 1) argv tx w =
      ((Local.command argv).run env w >>= fun w => .ok (((), tx), w)) := by
  obtain ⟨⟨r, hr, hok, hc⟩, hne⟩ := h
  cases argv with
  | nil => exact absurd rfl hne
  | cons name args =>
    exact dispatch_eq_command hr (fun _ => plain_of_not_control hc) depth (by rw [hin]; rfl)

/-- The queue is run as its commands are outside a transaction. -/
theorem runQueue_eq_runLocal (depth : ℕ) (queue : List Args) (h : ∀ argv ∈ queue, Queueable argv)
    (w : World) :
    runQueue (dispatch env (depth + 1)) queue .idle w =
      (runLocal env (queue.map .command) w >>= fun w => .ok (((), .idle), w)) := by
  induction queue generalizing w with
  | nil => rfl
  | cons argv queue ih =>
    rw [runQueue_cons, dispatch_queueable (h argv mem_cons_self) rfl, map_cons, runLocal]
    cases (Local.command argv).run env w with
    | error f => rfl
    | ok w' => exact ih (fun q hq => h q (mem_cons_of_mem _ hq)) w'

/-- What a command comes down to that is not concerned with the transaction. -/
theorem unwind_plain (hr : findCommand (toUpper name) = some r)
    (hplain : arityOk r (name :: args).length = true → Plain r.cmd)
    (hrun : (tx.inMulti && !isControl r.cmd) = false) :
    unwind (name :: args) tx = ([.command (name :: args)], tx) := by
  unfold unwind
  dsimp only
  rw [hr]
  dsimp only
  rw [hrun]
  cases hok : arityOk r (name :: args).length with
  | false => rfl
  | true =>
    obtain ⟨hm, hd, he⟩ := hplain hok
    simp only [if_neg hm, if_neg hd, if_neg he]
    rfl

/-- A call of `Dispatch` does what it comes down to outside transactions. -/
theorem dispatch_eq_unwind (hwf : tx.WellFormed) (depth : ℕ) :
    dispatch env (depth + 2) argv tx w =
      (runLocal env (unwind argv tx).1 w >>= fun w => .ok (((), (unwind argv tx).2), w)) := by
  cases argv with
  | nil => rfl
  | cons name args =>
    cases hr : findCommand (toUpper name) with
    | none =>
      unfold unwind
      dsimp only
      rw [dispatch_unknown hr, hr]
      dsimp only
      cases tx.inMulti with
      | true => rfl
      | false =>
        show _ = (dispatch env 2 (name :: args) .idle w >>= _) >>= _ >>= _
        rw [dispatch_unknown hr]
        rfl
    | some r =>
      -- A command that is run at once is run in the same way outside a transaction.
      have hcommand (hrun : (tx.inMulti && !isControl r.cmd) = false)
          (hplain : arityOk r (name :: args).length = true → Plain r.cmd) :
          dispatch env (depth + 2) (name :: args) tx w =
            (runLocal env (unwind (name :: args) tx).1 w >>= fun w =>
              .ok (((), (unwind (name :: args) tx).2), w)) := by
        rw [dispatch_eq_command hr hplain _ hrun, unwind_plain hr hplain hrun, runLocal]
        cases (Local.command (name :: args)).run env w <;> rfl
      cases hqueued : (tx.inMulti && !isControl r.cmd) with
      | true =>
        unfold unwind
        dsimp only
        rw [dispatch_queued hr hqueued, hr]
        dsimp only
        rw [hqueued]
        cases arityOk r (name :: args).length <;> rfl
      | false =>
        cases hok : arityOk r (name :: args).length with
        | false => exact hcommand hqueued fun h => by rw [hok] at h; cases h
        | true =>
          by_cases hplain : Plain r.cmd
          · exact hcommand hqueued fun _ => hplain
          rw [dispatch_eq_plan, plan, unwind, hr]
          dsimp only
          rw [hqueued, hok]
          obtain ⟨inMulti, multiError, queue⟩ := tx
          generalize r.cmd = c at hplain ⊢
          obtain rfl | rfl | rfl : c = .multi ∨ c = .discard ∨ c = .exec := by
            by_contra h
            simp only [not_or] at h
            exact hplain h
          · cases inMulti <;> rfl
          · cases inMulti <;> rfl
          · cases inMulti with
            | false => rfl
            | true =>
              cases multiError with
              | true => rfl
              | false =>
                show runQueue (dispatch env (depth + 1)) queue .idle _ = _
                rw [runQueue_eq_runLocal depth _ hwf]
                rfl

/-- A step that does not call `Dispatch` again. -/
def Local.Direct : Local → Prop
  | .reply _ => True
  | .command argv => ∀ r, findCommand (toUpper (argv.headD [])) = some r →
      arityOk r argv.length = true → Plain r.cmd

/-- A command from the queue does not. -/
theorem direct_of_queueable (h : Queueable argv) : (Local.command argv).Direct := by
  obtain ⟨⟨r, hr, -, hc⟩, -⟩ := h
  intro r' hr' _
  cases hr.symm.trans hr'
  exact plain_of_not_control hc

/-- What is in the queue has been there before, or was sent last. -/
theorem queue_unwind {q : Args} (h : q ∈ (unwind argv tx).2.multiQueue) :
    q = argv ∨ q ∈ tx.multiQueue := by
  cases argv with
  | nil => exact .inr h
  | cons name args =>
    unfold unwind at h
    dsimp only at h
    cases hr : findCommand (toUpper name) with
    | none =>
      rw [hr] at h
      dsimp only at h
      split_ifs at h
      · exact .inr h
      · exact .inr h
    | some r =>
      rw [hr] at h
      dsimp only at h
      split_ifs at h
      · rcases mem_append.1 h with h | h
        · exact .inr h
        · exact .inl (mem_singleton.1 h)
      all_goals first | exact .inr h | exact absurd h not_mem_nil

/-- The handlers of a queue have the arguments of its commands. -/
theorem argv_of_ranQueue (queue : List Args) (hqueue : ∀ argv ∈ queue, Queueable argv)
    (hin : tx.inMulti = false) (hnil : tx.multiQueue = []) (w : World) :
    ∀ x ∈ ranQueue (dispatch env 1) (ran env 1) queue tx w, x.argv ∈ queue := by
  induction queue generalizing w with
  | nil => exact fun x hx => absurd hx not_mem_nil
  | cons argv queue ih =>
    intro x hx
    rw [ranQueue_cons] at hx
    rcases mem_append.1 hx with hx | hx
    · rcases dispatch_cases env 0 argv tx w with h | h | h
      · obtain ⟨-, -, -, hran⟩ := h
        rw [hran] at hx
        cases hx
      · obtain ⟨c, -, -, hran, -⟩ := h
        rw [hran] at hx
        rw [mem_singleton.1 hx]
        exact mem_cons_self
      · rw [h.2, hnil] at hx
        cases hx
    · cases hrun : dispatch env 1 argv tx w with
      | error f =>
        rw [hrun] at hx
        cases hx
      | ok p =>
        -- The command leaves the transaction as it is.
        have htx : p.1.2 = tx := by
          rw [dispatch_queueable (hqueue argv mem_cons_self) hin] at hrun
          obtain ⟨q, -, hq⟩ := bind_eq_ok hrun
          cases hq
          rfl
        rw [hrun] at hx
        dsimp only at hx
        rw [htx] at hx
        exact mem_cons_of_mem _
          (ih (fun q hq => hqueue q (mem_cons_of_mem _ hq)) p.2 x hx)

/-- The arguments of a handler are those of the call, or come from the queue. -/
theorem argv_of_ran (hwf : tx.WellFormed) {x : Ran} (hx : x ∈ ran env 2 argv tx w) :
    x.argv = argv ∨ x.argv ∈ tx.multiQueue := by
  rcases dispatch_cases env 1 argv tx w with h | h | h
  · obtain ⟨-, -, -, hran⟩ := h
    rw [hran] at hx
    cases hx
  · obtain ⟨c, -, -, hran, -⟩ := h
    rw [hran] at hx
    rw [mem_singleton.1 hx]
    exact .inl rfl
  · rw [h.2] at hx
    exact .inr (argv_of_ranQueue tx.multiQueue hwf rfl rfl _ x hx)

/-- What a call comes down to is direct, and there are only commands in the queue that may be
queued. -/
theorem unwind_wellFormed (hwf : tx.WellFormed) (argv : Args) :
    (∀ x ∈ (unwind argv tx).1, x.Direct) ∧ (unwind argv tx).2.WellFormed := by
  have hnil : ∀ b c, (Tx.mk b c []).WellFormed := fun _ _ _ h => absurd h not_mem_nil
  have hreply : ∀ f, ∀ x ∈ [Local.reply f], x.Direct := by
    intro f x hx
    cases mem_singleton.1 hx
    trivial
  cases argv with
  | nil => exact ⟨fun x hx => absurd hx not_mem_nil, hwf⟩
  | cons name args =>
    unfold unwind
    dsimp only
    cases hr : findCommand (toUpper name) with
    | none =>
      dsimp only
      split_ifs
      · exact ⟨hreply _, hwf⟩
      · refine ⟨fun x hx => ?_, hwf⟩
        cases mem_singleton.1 hx
        intro r hr'
        cases hr.symm.trans hr'
    | some r =>
      have hplain : (arityOk r (name :: args).length = true → Plain r.cmd) →
          ∀ x ∈ [Local.command (name :: args)], x.Direct := by
        intro h x hx
        cases mem_singleton.1 hx
        intro r' hr' hok
        cases hr.symm.trans hr'
        exact h hok
      dsimp only
      split_ifs with hqueued hok hok hm hin hd hin he hin herror
      · refine ⟨hreply _, fun q hq => ?_⟩
        rcases mem_append.1 hq with hq | hq
        · exact hwf q hq
        · cases mem_singleton.1 hq
          rw [Bool.and_eq_true, Bool.not_eq_true'] at hqueued
          exact ⟨⟨r, hr, hok, hqueued.2⟩, nofun⟩
      · exact ⟨hreply _, hwf⟩
      · refine ⟨hplain fun h => ?_, hwf⟩
        rw [h] at hok
        cases hok
      · exact ⟨hreply _, hwf⟩
      · exact ⟨hreply _, hnil _ _⟩
      · exact ⟨hreply _, hnil _ _⟩
      · exact ⟨hreply _, hwf⟩
      · exact ⟨hreply _, hwf⟩
      · exact ⟨hreply _, hnil _ _⟩
      · refine ⟨fun x hx => ?_, hnil _ _⟩
        rcases mem_cons.1 hx with rfl | hx
        · trivial
        · obtain ⟨q, hq, rfl⟩ := mem_map.1 hx
          exact direct_of_queueable (hwf q hq)
      · exact ⟨hplain fun _ => ⟨hm, hd, he⟩, hwf⟩

/-- No handler calls `Dispatch`. -/
theorem runCommand_ne_recursion (hargc : minArgs c ≤ argv.length) :
    runCommand env c (toLower (argv.headD [])) argv w ≠ .error .recursion := by
  unfold runCommand
  split_ifs
  · exact nofun
  · intro h
    have hfault : Ran.outcome env ⟨c, argv, w⟩ = .error .recursion := h
    rcases fault_of_outcome hargc hfault with hb | hb | ⟨i, hi, -⟩
    · exact hb
    · cases hb.1
    · cases hi

/-- A direct step does not call `Dispatch` too often. -/
theorem run_ne_recursion {x : Local} (hx : x.Direct) : x.run env w ≠ .error .recursion := by
  cases x with
  | reply f => exact fun h => by cases h
  | command argv =>
    cases argv with
    | nil => exact fun h => by cases h
    | cons name args =>
      cases hr : findCommand (toUpper name) with
      | none =>
        rw [Local.run, dispatch_unknown hr]
        exact fun h => by cases h
      | some r =>
        rw [run_plain hr (hx r hr)]
        cases hok : arityOk r (name :: args).length with
        | false => exact fun h => by cases h
        | true =>
          have hne : runCommand env r.cmd (toLower name) (name :: args) w ≠ .error .recursion :=
            @runCommand_ne_recursion env (name :: args) w _ (minArgs_le_of_arityOk hr hok)
          rw [if_pos rfl]
          generalize runCommand env r.cmd (toLower name) (name :: args) w = y at hne ⊢
          cases y with
          | ok p => exact fun h => by cases h
          | error f =>
            intro h
            cases h
            exact hne rfl

/-- Nor do some direct steps. -/
theorem runLocal_ne_recursion (xs : List Local) (hxs : ∀ x ∈ xs, x.Direct) (w : World) :
    runLocal env xs w ≠ .error .recursion := by
  induction xs generalizing w with
  | nil => exact nofun
  | cons x xs ih =>
    have hx : x.run env w ≠ .error .recursion := run_ne_recursion (hxs x mem_cons_self)
    rw [runLocal]
    cases hrun : x.run env w with
    | ok w' => exact ih (fun y hy => hxs y (mem_cons_of_mem _ hy)) w'
    | error f =>
      rw [hrun] at hx
      exact hx

/-! ### In a transaction -/

section

variable {name : Bytes} {args : Args} {r : Arity}

/-- A command that is queued or rejected. -/
theorem unwind_queued (hin : tx.inMulti = true)
    (h : ∀ r, findCommand (toUpper name) = some r → isControl r.cmd = false) :
    ∃ accepted f, unwind (name :: args) tx = ([.reply f],
      if accepted then { tx with multiQueue := tx.multiQueue ++ [name :: args] }
      else { tx with multiError := true }) ∧
      (accepted = true ↔ ∃ r, findCommand (toUpper name) = some r ∧
        arityOk r (name :: args).length = true) := by
  unfold unwind
  dsimp only
  rw [hin]
  cases hr : findCommand (toUpper name) with
  | none => exact ⟨false, _, rfl, nofun, fun ⟨_, hc, _⟩ => by cases hc⟩
  | some r =>
    dsimp only
    rw [h r hr]
    cases hok : arityOk r (name :: args).length with
    | true => exact ⟨true, _, rfl, fun _ => ⟨r, rfl, hok⟩, fun _ => rfl⟩
    | false =>
      refine ⟨false, _, rfl, nofun, fun ⟨r', hr', hok'⟩ => ?_⟩
      cases hr'
      rw [hok] at hok'
      cases hok'

/-- The error stays until the end of the transaction. -/
theorem unwind_error (hin : tx.inMulti = true) (herror : tx.multiError = true)
    (h : ∀ r, findCommand (toUpper name) = some r → r.cmd ≠ .exec ∧ r.cmd ≠ .discard) :
    (unwind (name :: args) tx).2.inMulti = true ∧
      (unwind (name :: args) tx).2.multiError = true := by
  unfold unwind
  dsimp only
  cases hr : findCommand (toUpper name) with
  | none =>
    dsimp only
    rw [if_pos hin]
    exact ⟨hin, rfl⟩
  | some r =>
    dsimp only
    split_ifs with hqueued hok hok hm hd he
    · exact ⟨hin, herror⟩
    · exact ⟨hin, rfl⟩
    · exact ⟨hin, herror⟩
    · exact ⟨hin, herror⟩
    · exact absurd hd (h r hr).2
    · exact absurd he (h r hr).1
    · exact absurd he (h r hr).1
    · exact ⟨hin, herror⟩

/-- `EXEC` and `DISCARD` take no arguments. -/
theorem arityOk_exec_discard : ∀ r ∈ arityTable, r.cmd = .exec ∨ r.cmd = .discard →
    arityOk r 1 = true := by decide +kernel

/-- `EXEC` in a transaction. -/
theorem unwind_exec (hin : tx.inMulti = true) (hr : findCommand (toUpper name) = some r)
    (hc : r.cmd = .exec) :
    unwind [name] tx =
      if tx.multiError then
        ([.error (bytes "EXECABORT Transaction discarded because of previous errors.")],
          ⟨false, true, []⟩)
      else
        (.reply (Resp.appendArrayReply · tx.multiQueue.length) :: tx.multiQueue.map .command,
          .idle) := by
  have hok : arityOk r [name].length = true :=
    arityOk_exec_discard r (mem_of_find?_eq_some hr) (.inl hc)
  unfold unwind
  dsimp only
  rw [hr]
  dsimp only
  rw [hok, hc, hin]
  rfl

/-- `DISCARD` in a transaction. -/
theorem unwind_discard (hin : tx.inMulti = true) (hr : findCommand (toUpper name) = some r)
    (hc : r.cmd = .discard) : unwind [name] tx = ([.simple (bytes "OK")], .idle) := by
  have hok : arityOk r [name].length = true :=
    arityOk_exec_discard r (mem_of_find?_eq_some hr) (.inr hc)
  unfold unwind
  dsimp only
  rw [hr]
  dsimp only
  rw [hok, hc, hin]
  rfl

end

/-! ## Many clients -/

/-- A step of the serial history. -/
inductive Serial where
  | client (i : ℕ) (x : Local)
  | expire

namespace Server

/-- The states of the transactions of all clients. -/
def txs (s : Server) (i : ℕ) : Tx := (s.clients i).tx

/-- The server, without the states of transactions. -/
def quiet (s : Server) : Server :=
  { s with clients := fun i => { s.clients i with tx := .idle } }

/-- One step of the serial history. -/
def serialStep (env : Env) (s : Server) : Serial → Except CommandFault Server
  | .client i x => do
    let w ← x.run env (s.world i)
    .ok (s.update i .idle w)
  | .expire => .ok (s.activeExpireCycle env)

/-- The steps of the serial history. -/
def serialRun (env : Env) : List Serial → Server → Except CommandFault Server
  | [], s => .ok s
  | x :: xs, s => do
    let s ← s.serialStep env x
    serialRun env xs s

/-- The serial history of a run: the commands of a transaction stand at the place of its `EXEC`. -/
def history : List Event → (ℕ → Tx) → List Serial
  | [], _ => []
  | .call i argv :: events, txs =>
    (unwind argv (txs i)).1.map (.client i) ++
      history events (Function.update txs i (unwind argv (txs i)).2)
  | .expire :: events, txs => .expire :: history events txs

variable {s s' : Server}

/-- A server is updated with what it has. -/
theorem update_world (i : ℕ) : s.quiet.update i .idle (s.quiet.world i) = s.quiet := by
  unfold update
  have hclient :
      Client.mk (s.quiet.world i).cs .idle (s.quiet.world i).out = s.quiet.clients i := rfl
  rw [hclient, update_eq_self]
  rfl

/-- What a client sees after an update. -/
theorem world_update (s : Server) (i : ℕ) (tx : Tx) (w : World) :
    (s.update i tx w).world i = w := by
  unfold update world
  dsimp only
  rw [update_self]

/-- The last update of a client counts. -/
theorem update_update (s : Server) (i : ℕ) (tx tx' : Tx) (w w' : World) :
    (s.update i tx w).update i tx' w' = s.update i tx' w' := by
  unfold update
  dsimp only
  rw [update_idem]

/-- An update, without the states of transactions. -/
theorem quiet_update (s : Server) (i : ℕ) (tx : Tx) (w : World) :
    (s.update i tx w).quiet = s.quiet.update i .idle w := by
  unfold update quiet
  dsimp only
  congr 1
  funext j
  by_cases hj : j = i
  · rw [hj, update_self, update_self]
  · rw [update_of_ne hj, update_of_ne hj]

/-- The states of transactions after an update. -/
theorem txs_update (s : Server) (i : ℕ) (tx : Tx) (w : World) :
    (s.update i tx w).txs = Function.update s.txs i tx := by
  funext j
  unfold txs update
  dsimp only
  by_cases hj : j = i
  · rw [hj, update_self, update_self]
  · rw [update_of_ne hj, update_of_ne hj]

/-- The expiry has nothing to do with transactions. -/
theorem quiet_activeExpireCycle (env : Env) (s : Server) :
    (s.activeExpireCycle env).quiet = s.quiet.activeExpireCycle env ∧
      (s.activeExpireCycle env).txs = s.txs := by
  have hfold : ∀ (l : List DbIndex) (r : ℕ × Server),
      l.foldl (expireOne env) (r.1, r.2.quiet) =
          ((l.foldl (expireOne env) r).1, (l.foldl (expireOne env) r).2.quiet) ∧
        (l.foldl (expireOne env) r).2.txs = r.2.txs := by
    intro l
    induction l with
    | nil => exact fun r => ⟨rfl, rfl⟩
    | cons i l ih => exact fun r => ih (expireOne env r i)
  obtain ⟨hquiet, htxs⟩ := hfold (List.finRange kNumDatabases) (0, s)
  unfold activeExpireCycle
  rw [hquiet]
  exact ⟨rfl, htxs⟩

/-- A history in two parts. -/
theorem serialRun_append (env : Env) (xs ys : List Serial) (s : Server) :
    serialRun env (xs ++ ys) s = (serialRun env xs s >>= serialRun env ys) := by
  induction xs generalizing s with
  | nil => rfl
  | cons x xs ih =>
    show (s.serialStep env x >>= fun s => serialRun env (xs ++ ys) s) =
      (s.serialStep env x >>= fun s => serialRun env xs s) >>= serialRun env ys
    cases s.serialStep env x with
    | error f => rfl
    | ok s' => exact ih s'

/-- Steps of one client, one after another. -/
theorem serialRun_client (env : Env) (i : ℕ) (xs : List Local) (w : World) (s : Server) :
    serialRun env (xs.map (.client i)) (s.update i .idle w) =
      (runLocal env xs w >>= fun w => .ok (s.update i .idle w)) := by
  induction xs generalizing w with
  | nil => rfl
  | cons x xs ih =>
    rw [map_cons, serialRun, serialStep, world_update, runLocal]
    cases x.run env w with
    | error f => rfl
    | ok w' =>
      show serialRun env (xs.map (.client i)) ((s.update i .idle w).update i .idle w') = _
      rw [update_update]
      exact ih w'

/-- All queues have only commands that may be queued. -/
def WellFormed (s : Server) : Prop := ∀ i, (s.txs i).WellFormed

/-- What a call comes down to, for the whole server. -/
theorem call_eq_unwind (hs : s.WellFormed) (i : ℕ) (argv : Args) :
    s.call env i argv = (runLocal env (unwind argv (s.txs i)).1 (s.world i) >>= fun w =>
      .ok (s.update i (unwind argv (s.txs i)).2 w)) := by
  unfold call
  have hdispatch : dispatch env 2 argv (s.txs i) (s.world i) = _ := dispatch_eq_unwind (hs i) 0
  unfold txs at hdispatch ⊢
  rw [hdispatch]
  cases runLocal env (unwind argv (s.clients i).tx).1 (s.world i) <;> rfl

/-- An event does what its serial history does. -/
theorem step_eq_serial (hs : s.WellFormed) (e : Event) :
    (s.step env e).map quiet = serialRun env (history [e] s.txs) s.quiet := by
  cases e with
  | expire => exact congrArg Except.ok (quiet_activeExpireCycle env s).1
  | call i argv =>
    have hhistory : history [.call i argv] s.txs = (unwind argv (s.txs i)).1.map (.client i) :=
      append_nil _
    have hclient := serialRun_client env i (unwind argv (s.txs i)).1 (s.quiet.world i) s.quiet
    rw [update_world] at hclient
    rw [hhistory, hclient]
    show (s.call env i argv).map quiet = _
    rw [call_eq_unwind hs]
    have hworld : s.quiet.world i = s.world i := rfl
    rw [hworld]
    cases runLocal env (unwind argv (s.txs i)).1 (s.world i) with
    | error f => rfl
    | ok w => exact congrArg Except.ok (quiet_update s i _ w)

/-- The states of transactions after an event do not depend on the database. -/
def nextTxs (txs : ℕ → Tx) : Event → ℕ → Tx
  | .call i argv => Function.update txs i (unwind argv (txs i)).2
  | .expire => txs

/-- An event, and the states of transactions. -/
theorem step_txs (hs : s.WellFormed) (e : Event) (h : s.step env e = .ok s') :
    s'.txs = nextTxs s.txs e := by
  cases e with
  | expire =>
    cases h
    exact (quiet_activeExpireCycle env s).2
  | call i argv =>
    have hcall : s.call env i argv = .ok s' := h
    rw [call_eq_unwind hs] at hcall
    obtain ⟨w, -, hw⟩ := bind_eq_ok hcall
    cases hw
    exact txs_update s i _ w

/-- A client gets another state of its transaction. -/
theorem wellFormed_update (hs : s.WellFormed) (i : ℕ) {tx : Tx} (htx : tx.WellFormed) (w : World) :
    (s.update i tx w).WellFormed := by
  intro j
  rw [txs_update]
  by_cases hj : j = i
  · rw [hj, update_self]
    exact htx
  · rw [update_of_ne hj]
    exact hs j

/-- An event queues only commands that may be queued. -/
theorem wellFormed_step (hs : s.WellFormed) (e : Event) (h : s.step env e = .ok s') :
    s'.WellFormed := by
  cases e with
  | expire =>
    intro j
    rw [step_txs hs _ h]
    exact hs j
  | call i argv =>
    have hcall : s.call env i argv = .ok s' := h
    rw [call_eq_unwind hs] at hcall
    obtain ⟨w, -, hw⟩ := bind_eq_ok hcall
    cases hw
    exact wellFormed_update hs i (unwind_wellFormed (hs i) argv).2 w

/-- So does a run. -/
theorem wellFormed_run (hs : s.WellFormed) (events : List Event)
    (h : s.run env events = .ok s') : s'.WellFormed := by
  induction events generalizing s with
  | nil =>
    cases h
    exact hs
  | cons e events ih =>
    obtain ⟨s₁, hstep, hrest⟩ := bind_eq_ok h
    exact ih (wellFormed_step hs e hstep) hrest

/-! ## The arguments of handlers -/

/-- All commands in the queues have a property. -/
def Queued (P : Args → Prop) (s : Server) : Prop := ∀ i, ∀ argv ∈ (s.txs i).multiQueue, P argv

/-- At first nothing is queued. -/
theorem Initial.queued (h : s.Initial) : s.Queued P := by
  intro i argv hargv
  unfold txs at hargv
  rw [h.tx i] at hargv
  cases hargv

/-- So every queue is well-formed. -/
theorem Initial.wellFormed (h : s.Initial) : s.WellFormed := h.queued

/-- What holds of the commands that are sent holds of those that are queued. -/
theorem queued_step (hs : s.WellFormed) (hq : s.Queued P) {e : Event}
    (he : ∀ i argv, e = .call i argv → P argv) (h : s.step env e = .ok s') : s'.Queued P := by
  intro j q hmem
  rw [step_txs hs e h] at hmem
  cases e with
  | expire => exact hq j q hmem
  | call i argv =>
    replace hmem : q ∈ (Function.update s.txs i (unwind argv (s.txs i)).2 j).multiQueue := hmem
    by_cases hj : j = i
    · rw [hj, update_self] at hmem
      rcases queue_unwind hmem with rfl | hmem
      · exact he i q rfl
      · exact hq i q hmem
    · rw [update_of_ne hj] at hmem
      exact hq j q hmem

/-- What holds of all commands that clients send holds of the arguments of all handlers. -/
theorem runMeets_of_sent {P : Args → Bool} {K : Ran → Bool} (hs : s.WellFormed)
    (hq : s.Queued fun argv => P argv = true) (events : List Event)
    (hsent : ∀ i argv, .call i argv ∈ events → P argv = true)
    (hK : s.runMeets env K events = true) :
    s.runMeets env (fun x => P x.argv && K x) events = true := by
  induction events generalizing s with
  | nil => rfl
  | cons e events ih =>
    rw [runMeets, Bool.and_eq_true] at hK ⊢
    constructor
    · refine all_eq_true.2 fun x hx => ?_
      rw [Bool.and_eq_true]
      refine ⟨?_, all_eq_true.1 hK.1 x hx⟩
      cases e with
      | expire => cases hx
      | call i argv =>
        rcases argv_of_ran (hs i) hx with hargv | hargv
        · rw [hargv]
          exact hsent i argv mem_cons_self
        · exact hq i x.argv hargv
    · have hrest := hK.2
      cases hstep : s.step env e with
      | error f => rfl
      | ok s' =>
        rw [hstep] at hrest
        refine ih (wellFormed_step hs e hstep) (queued_step hs hq ?_ hstep) ?_ hrest
        · rintro i argv rfl
          exact hsent i argv mem_cons_self
        · exact fun i argv he => hsent i argv (mem_cons_of_mem _ he)

/-- The history of the first event, and of the others. -/
theorem history_cons (e : Event) (events : List Event) (txs : ℕ → Tx) :
    history (e :: events) txs = history [e] txs ++ history events (nextTxs txs e) := by
  cases e with
  | expire => rfl
  | call i argv =>
    show _ = ((unwind argv (txs i)).1.map (Serial.client i) ++ []) ++ _
    rw [append_nil]
    rfl

/-- A run does what its serial history does. -/
theorem run_eq_serial (hs : s.WellFormed) (events : List Event) :
    (s.run env events).map quiet = serialRun env (history events s.txs) s.quiet := by
  induction events generalizing s with
  | nil => rfl
  | cons e events ih =>
    rw [history_cons, serialRun_append, ← step_eq_serial hs, run]
    cases hstep : s.step env e with
    | error f => rfl
    | ok s' =>
      show (run env events s').map quiet = serialRun env (history events (nextTxs s.txs e)) s'.quiet
      rw [← step_txs hs e hstep]
      exact ih (wellFormed_step hs e hstep)

/-! ## Serial transactions -/

/-- What a client in a transaction can rely on. -/
structure Transactional (env : Env) (s : Server) (i : ℕ) : Prop where
  /-- The queue has no `MULTI`, `EXEC`, `DISCARD`, or `QUIT`. -/
  queue : ∀ argv ∈ (s.txs i).multiQueue, ∃ r, findCommand (toUpper (argv.headD [])) = some r ∧
    arityOk r argv.length = true ∧ r.cmd ∉ [.multi, .exec, .discard, .quit]
  /-- `Dispatch` does not call itself more than one level deep. -/
  depth : ∀ argv n, dispatch env (n + 2) argv (s.txs i) (s.world i) =
      dispatch env 2 argv (s.txs i) (s.world i) ∧
    dispatch env 2 argv (s.txs i) (s.world i) ≠ .error .recursion
  /-- A command other than `MULTI`, `EXEC`, `DISCARD`, and `QUIT` is queued, or rejected. Either way
  there is only a reply. -/
  queued : (s.txs i).inMulti = true → ∀ name args,
    (∀ r, findCommand (toUpper name) = some r → r.cmd ∉ [.multi, .exec, .discard, .quit]) →
    ∃ accepted out, s.call env i (name :: args) = .ok (s.update i
      (if accepted then { s.txs i with multiQueue := (s.txs i).multiQueue ++ [name :: args] }
        else { s.txs i with multiError := true }) { s.world i with out := out }) ∧
      (accepted = true ↔ ∃ r, findCommand (toUpper name) = some r ∧
        arityOk r (name :: args).length = true)
  /-- Nothing but `EXEC` and `DISCARD` takes the error back. -/
  error : (s.txs i).inMulti = true → (s.txs i).multiError = true → ∀ name args s',
    (∀ r, findCommand (toUpper name) = some r → r.cmd ∉ [.exec, .discard]) →
    s.call env i (name :: args) = .ok s' →
    (s'.txs i).inMulti = true ∧ (s'.txs i).multiError = true
  /-- `EXEC` runs the commands of the queue outside the transaction, one after another, after the
  header of its reply. -/
  exec : (s.txs i).inMulti = true → (s.txs i).multiError = false → ∀ name r,
    findCommand (toUpper name) = some r → r.cmd = .exec →
    s.call env i [name] = run env ((s.txs i).multiQueue.map (.call i))
      (s.update i .idle { s.world i with
        out := Resp.appendArrayReply (s.world i).out (s.txs i).multiQueue.length })
  /-- `EXEC` after a rejected command, and `DISCARD`, change nothing. -/
  discard : (s.txs i).inMulti = true → ∀ name r, findCommand (toUpper name) = some r →
    r.cmd = .discard ∨ r.cmd = .exec ∧ (s.txs i).multiError = true →
    ∃ tx out, s.call env i [name] = .ok (s.update i tx { s.world i with out := out }) ∧
      tx.inMulti = false ∧ tx.multiQueue = []

/-- A client runs commands outside a transaction. -/
theorem run_queueable (i : ℕ) (queue : List Args) (h : ∀ argv ∈ queue, Queueable argv) (w : World) :
    run env (queue.map (.call i)) (s.update i .idle w) =
      (runLocal env (queue.map .command) w >>= fun w => .ok (s.update i .idle w)) := by
  induction queue generalizing w with
  | nil => rfl
  | cons argv queue ih =>
    have htx : ((s.update i .idle w).clients i).tx = .idle :=
      congrFun (txs_update s i .idle w) i |>.trans (update_self ..)
    have hcall : (s.update i .idle w).call env i argv =
        ((Local.command argv).run env w >>= fun w => .ok (s.update i .idle w)) := by
      unfold call
      rw [htx, world_update, dispatch_queueable (h argv mem_cons_self) rfl 1]
      cases (Local.command argv).run env w with
      | error f => rfl
      | ok w' => exact congrArg Except.ok (update_update s i .idle .idle w w')
    rw [map_cons, map_cons, run, step, hcall, runLocal]
    cases (Local.command argv).run env w with
    | error f => rfl
    | ok w' => exact ih (fun q hq => h q (mem_cons_of_mem _ hq)) w'

/-- What `Transactional` says holds while all queues are well-formed. -/
theorem transactional_of_wellFormed (hs : s.WellFormed) (i : ℕ) : Transactional env s i where
  queue argv hq := by
    obtain ⟨⟨r, hr, hok, hc⟩, -⟩ := hs i argv hq
    exact ⟨r, hr, hok, of_decide_eq_false hc⟩
  depth argv n := by
    have hdeep : ∀ n, dispatch env (n + 2) argv (s.txs i) (s.world i) = _ :=
      dispatch_eq_unwind (hs i)
    refine ⟨(hdeep n).trans (hdeep 0).symm, ?_⟩
    rw [hdeep 0]
    have hne : runLocal env (unwind argv (s.txs i)).1 (s.world i) ≠ .error .recursion :=
      runLocal_ne_recursion _ (unwind_wellFormed (hs i) argv).1 _
    generalize runLocal env (unwind argv (s.txs i)).1 (s.world i) = x at hne ⊢
    cases x with
    | ok w => exact nofun
    | error f =>
      intro h
      cases h
      exact hne rfl
  queued hin name args hname := by
    have hcontrol : ∀ r, findCommand (toUpper name) = some r → isControl r.cmd = false :=
      fun r hr => decide_eq_false (hname r hr)
    obtain ⟨accepted, f, hunwind, haccepted⟩ := @unwind_queued (s.txs i) name args hin hcontrol
    refine ⟨accepted, f (s.world i).out, ?_, haccepted⟩
    rw [call_eq_unwind hs, hunwind]
    rfl
  error hin herror name args s' hname hcall := by
    rw [step_txs (e := .call i (name :: args)) hs hcall]
    show (Function.update s.txs i _ i).inMulti = true ∧
      (Function.update s.txs i _ i).multiError = true
    rw [update_self]
    refine unwind_error hin herror fun r hr => ?_
    have hnot := hname r hr
    simp only [mem_cons, not_mem_nil, or_false, not_or] at hnot
    exact hnot
  exec hin herror name r hr hc := by
    rw [call_eq_unwind hs, unwind_exec hin hr hc, herror, run_queueable i _ (hs i)]
    rfl
  discard hin name r hr hc := by
    rw [call_eq_unwind hs]
    rcases hc with hc | ⟨hc, herror⟩
    · rw [unwind_discard hin hr hc]
      exact ⟨.idle, _, rfl, rfl, rfl⟩
    · rw [unwind_exec hin hr hc, herror]
      exact ⟨⟨false, true, []⟩, _, rfl, rfl, rfl⟩

/-- Transactions are serial, and happen as a whole or not at all: a run of any number of clients
does what its serial history does, and in every state that it reaches each client can rely on what
`Transactional` says. -/
theorem transactions_serial (env : Env) (events : List Event) {s₀ : Server} (hinit : s₀.Initial) :
    (s₀.run env events).map quiet = serialRun env (history events fun _ => .idle) s₀ ∧
      ∀ s, s₀.run env events = .ok s → ∀ i, Transactional env s i := by
  have htxs : s₀.txs = fun _ => .idle := funext hinit.tx
  have hwf := hinit.wellFormed
  have hquiet : s₀.quiet = s₀ := by
    unfold quiet
    have hclients : (fun i => { s₀.clients i with tx := .idle }) = s₀.clients := by
      funext i
      rw [show Tx.idle = (s₀.clients i).tx from (hinit.tx i).symm]
    rw [hclients]
  refine ⟨?_, fun s hrun i => transactional_of_wellFormed (wellFormed_run hwf events hrun) i⟩
  rw [run_eq_serial hwf, htxs, hquiet]

/-- One client queues a command, another one sets the same key in between. -/
def twoClients : List Event :=
  [.call 0 [bytes "MULTI"], .call 0 [bytes "APPEND", bytes "k", bytes "a"],
    .call 1 [bytes "SET", bytes "k", bytes "b"], .call 0 [bytes "EXEC"]]

/-- The other command comes first. -/
theorem transactions_serial_twoClients :
    (freshServer.run stillEnv twoClients).map quiet = serialRun stillEnv
      [.client 0 (.simple (bytes "OK")), .client 0 (.simple (bytes "QUEUED")),
        .client 1 (.command [bytes "SET", bytes "k", bytes "b"]),
        .client 0 (.reply (Resp.appendArrayReply · 1)),
        .client 0 (.command [bytes "APPEND", bytes "k", bytes "a"])] freshServer :=
  (transactions_serial stillEnv twoClients freshServer_initial).1

end Server

end TinyRedis.Commands

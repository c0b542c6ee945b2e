import TinyRedis.Commands.Safety.Handler

/-!
# The commands that `Dispatch` runs

What a call of `Dispatch` comes to is decided by its arguments and the state of the transaction: a
reply, or one command, or the queue of a transaction (`plan`). `ran` lists the handlers that it
runs, with the state before each of them: what `Dispatch` does to the database is what these do, and
it meets a fault if and only if one of them does.
-/

namespace TinyRedis.Commands

open Lib List

/-- A handler that is run, with the state before. -/
structure Ran where
  cmd : Cmd
  argv : Args
  world : World

/-- The outcome of a handler. -/
def Ran.outcome (env : Env) (x : Ran) : Except CommandFault (Unit × World) :=
  handler env (toLower (x.argv.headD [])) x.argv x.cmd x.world

/-- What the lookup of its first key finds. -/
def Ran.probe (env : Env) (x : Ran) : LookupResult :=
  Commands.probe env (keyType x.cmd) (x.argv.getD 1 []) x.world

/-- The handlers that the commands of a queue run, up to the first fault. -/
def ranQueue (run : Args → D Unit) (ran : Args → Tx → World → List Ran) :
    List Args → Tx → World → List Ran
  | [], _, _ => []
  | argv :: queue, tx, w =>
    ran argv tx w ++
      match run argv tx w with
      | .ok p => ranQueue run ran queue p.1.2 p.2
      | .error _ => []

/-- The state after the header of the reply to `EXEC`. -/
def execHeader (tx : Tx) (w : World) : World :=
  { w with out := Resp.appendArrayReply w.out tx.multiQueue.length }

/-- The handlers that `Dispatch` runs. -/
def ran (env : Env) : ℕ → Args → Tx → World → List Ran
  | 0, _, _, _ => []
  | _ + 1, [], _, _ => []
  | depth + 1, name :: args, tx, w =>
    match findCommand (toUpper name) with
    | none => []
    | some r =>
      if tx.inMulti && !isControl r.cmd then []
      else if !arityOk r (name :: args).length then []
      else
        match r.cmd with
        | .multi => []
        | .discard => []
        | .exec =>
          if !tx.inMulti then []
          else if tx.multiError then []
          else
            ranQueue (dispatch env depth) (ran env depth) tx.multiQueue ⟨false, tx.multiError, []⟩
            (execHeader tx w)
        | c => if gated env c w then [] else [⟨c, name :: args, w⟩]

variable {env : Env} {depth : ℕ} {argv : Args} {tx : Tx} {w : World}

/-! ## Plans -/

/-- Not one of the transaction commands. -/
def Plain (c : Cmd) : Prop := c ≠ .multi ∧ c ≠ .discard ∧ c ≠ .exec

/-- The text of `ErrUnknownCommand`. -/
def unknownText (name : Bytes) (args : Args) : Bytes :=
  bytes "ERR unknown command '" ++ name ++ bytes "'" ++
    match args with
    | [] => []
    | first :: _ => bytes ", with args beginning with: '" ++ first ++ bytes "' "

/-- The reply is an error with this text. -/
theorem errUnknownCommand_eq (name : Bytes) (args : Args) :
    errUnknownCommand (name :: args) = replyError (unknownText name args) := by
  unfold errUnknownCommand unknownText
  rw [arg_bind (Nat.succ_pos _)]
  cases args with
  | nil =>
    rw [if_neg (by simp), append_nil]
    rfl
  | cons first args =>
    rw [if_pos (by simp), arg_bind (by simp)]
    simp only [append_assoc]
    rfl

/-- What `Dispatch` decides to do. -/
inductive Plan where
  /-- A reply, and the state of the transaction after it. -/
  | reply (tx : Tx) (f : Bytes → Bytes)
  /-- A command is run, unless it is refused for want of memory. -/
  | command (c : Cmd)
  /-- The queue of the transaction is run. -/
  | queue

/-- An error, and the state of the transaction after it. -/
def Plan.error (tx : Tx) (s : Bytes) : Plan := .reply tx (Resp.appendErrorReply · s)

/-- A line, and the state of the transaction after it. -/
def Plan.simple (tx : Tx) (s : Bytes) : Plan := .reply tx (Resp.appendSimpleReply · s)

/-- The plan for a call. -/
def plan (argv : Args) (tx : Tx) : Plan :=
  match argv with
  | [] => .reply tx id
  | name :: args =>
    match findCommand (toUpper name) with
    | none => .error (if tx.inMulti then { tx with multiError := true } else tx)
        (unknownText name args)
    | some r =>
      if tx.inMulti && !isControl r.cmd then
        if arityOk r (name :: args).length then
          .simple { tx with multiQueue := tx.multiQueue ++ [name :: args] } (bytes "QUEUED")
        else .error { tx with multiError := true } (wrongArgsText (toLower name))
      else if !arityOk r (name :: args).length then .error tx (wrongArgsText (toLower name))
      else if r.cmd = .multi then
        if tx.inMulti then .error tx (bytes "ERR MULTI calls can not be nested")
        else .simple ⟨true, false, []⟩ (bytes "OK")
      else if r.cmd = .discard then
        if !tx.inMulti then .error tx (bytes "ERR DISCARD without MULTI")
        else .simple ⟨false, false, []⟩ (bytes "OK")
      else if r.cmd = .exec then
        if !tx.inMulti then .error tx (bytes "ERR EXEC without MULTI")
        else if tx.multiError then
          .error ⟨false, true, []⟩
            (bytes "EXECABORT Transaction discarded because of previous errors.")
        else .queue
      else .command r.cmd

/-- The plan is carried out. -/
def Plan.run (env : Env) (depth : ℕ) (argv : Args) (tx : Tx) (w : World) :
    Plan → Except CommandFault ((Unit × Tx) × World)
  | .reply tx f => .ok (((), tx), { w with out := f w.out })
  | .command c => do
    let ((), w) ← runCommand env c (toLower (argv.headD [])) argv w
    .ok (((), tx), w)
  | .queue => runQueue (dispatch env depth) tx.multiQueue ⟨false, false, []⟩ (execHeader tx w)

/-- The handlers that this runs. -/
def Plan.handlers (env : Env) (depth : ℕ) (argv : Args) (tx : Tx) (w : World) : Plan → List Ran
  | .reply _ _ => []
  | .command c => if gated env c w then [] else [⟨c, argv, w⟩]
  | .queue =>
    ranQueue (dispatch env depth) (ran env depth) tx.multiQueue ⟨false, false, []⟩ (execHeader tx w)

/-- `Dispatch` does as planned. -/
theorem dispatch_eq_plan (env : Env) (depth : ℕ) (argv : Args) (tx : Tx) (w : World) :
    dispatch env (depth + 1) argv tx w = (plan argv tx).run env depth argv tx w := by
  cases argv with
  | nil => rfl
  | cons name args =>
    rw [dispatch, plan]
    cases findCommand (toUpper name) with
    | none =>
      dsimp only
      rw [errUnknownCommand_eq]
      rfl
    | some r =>
      dsimp only
      by_cases hqueued : (tx.inMulti && !isControl r.cmd) = true
      · rw [if_pos hqueued, if_pos hqueued]
        unfold enqueue
        cases arityOk r (name :: args).length <;> rfl
      rw [if_neg hqueued, if_neg hqueued]
      unfold runOrControl
      cases arityOk r (name :: args).length with
      | false => rfl
      | true =>
        obtain ⟨inMulti, multiError, queue⟩ := tx
        cases r.cmd with
        | multi => cases inMulti <;> rfl
        | discard => cases inMulti <;> rfl
        | exec => cases inMulti <;> cases multiError <;> rfl
        | _ => rfl

/-- The handlers that it runs are those of the plan. -/
theorem ran_eq_plan (env : Env) (depth : ℕ) (argv : Args) (tx : Tx) (w : World) :
    ran env (depth + 1) argv tx w = (plan argv tx).handlers env depth argv tx w := by
  cases argv with
  | nil => rfl
  | cons name args =>
    rw [ran, plan]
    cases findCommand (toUpper name) with
    | none => rfl
    | some r =>
      dsimp only
      by_cases hqueued : (tx.inMulti && !isControl r.cmd) = true
      · rw [if_pos hqueued, if_pos hqueued]
        cases arityOk r (name :: args).length <;> rfl
      rw [if_neg hqueued, if_neg hqueued]
      cases arityOk r (name :: args).length with
      | false => rfl
      | true =>
        obtain ⟨inMulti, multiError, queue⟩ := tx
        cases r.cmd <;> cases inMulti <;> cases multiError <;> rfl

/-! ## Cases -/

/-- `Dispatch` only replies. -/
def OnlyReplies (env : Env) (depth : ℕ) (argv : Args) (tx : Tx) (w : World) : Prop :=
  ∃ tx' out, dispatch env depth argv tx w = .ok (((), tx'), { w with out := out }) ∧
    ran env depth argv tx w = []

/-- `Dispatch` runs one handler. -/
def RunsHandler (env : Env) (depth : ℕ) (argv : Args) (tx : Tx) (w : World) : Prop :=
  ∃ c, minArgs c ≤ argv.length ∧ c ≠ .exec ∧ ran env depth argv tx w = [⟨c, argv, w⟩] ∧
    dispatch env depth argv tx w = (do
      let ((), w) ← Ran.outcome env ⟨c, argv, w⟩
      .ok (((), tx), w))

/-- `Dispatch` runs the queue. -/
def RunsQueue (env : Env) (depth : ℕ) (argv : Args) (tx : Tx) (w : World) : Prop :=
  dispatch env (depth + 1) argv tx w =
      runQueue (dispatch env depth) tx.multiQueue ⟨false, false, []⟩ (execHeader tx w) ∧
    ran env (depth + 1) argv tx w =
      ranQueue (dispatch env depth) (ran env depth) tx.multiQueue ⟨false, false, []⟩
        (execHeader tx w)

/-- A command of the plan is in the table, and is not one of the transaction commands. The queue is
run by `EXEC`, in a transaction without errors. -/
theorem plan_cases (argv : Args) (tx : Tx) : (∃ tx' f, plan argv tx = .reply tx' f) ∨
    ∃ r, findCommand (toUpper (argv.headD [])) = some r ∧ arityOk r argv.length = true ∧
      (plan argv tx = .command r.cmd ∧ Plain r.cmd ∨ plan argv tx = .queue ∧ r.cmd = .exec ∧
        tx.inMulti = true ∧ tx.multiError = false) := by
  cases argv with
  | nil => exact .inl ⟨_, _, rfl⟩
  | cons name args =>
    unfold plan
    dsimp only [headD_cons]
    cases findCommand (toUpper name) with
    | none => exact .inl ⟨_, _, rfl⟩
    | some r =>
      dsimp only
      split_ifs with _ _ hok hm _ hd _ he hin herror
      any_goals exact .inl ⟨_, _, rfl⟩
      · exact .inr ⟨r, rfl, by simpa using hok, .inr ⟨rfl, he, by simpa using hin,
          by simpa using herror⟩⟩
      · exact .inr ⟨r, rfl, by simpa using hok, .inl ⟨rfl, hm, hd, he⟩⟩

/-- A call of `Dispatch` either only replies, or runs one handler, or runs the queue. -/
theorem dispatch_cases (env : Env) (depth : ℕ) (argv : Args) (tx : Tx) (w : World) :
    OnlyReplies env (depth + 1) argv tx w ∨ RunsHandler env (depth + 1) argv tx w ∨
      RunsQueue env depth argv tx w := by
  unfold OnlyReplies RunsHandler RunsQueue
  rw [dispatch_eq_plan, ran_eq_plan]
  rcases plan_cases argv tx with ⟨tx', f, h⟩ | ⟨r, hr, hok, ⟨h, -, -, he⟩ | ⟨h, -⟩⟩
  · rw [h]
    exact .inl ⟨tx', _, rfl, rfl⟩
  · rw [h]
    dsimp only [Plan.run, Plan.handlers, runCommand]
    cases gated env r.cmd w with
    | true => exact .inl ⟨tx, _, rfl, rfl⟩
    | false => exact .inr (.inl ⟨_, minArgs_le_of_arityOk hr hok, he, rfl, rfl⟩)
  · rw [h]
    exact .inr (.inr ⟨rfl, rfl⟩)

/-! ## Whole calls -/
/-! ## Whole calls -/

/-- The first command of a queue, and the others. -/
theorem runQueue_cons (run : Args → D Unit) (argv : Args) (queue : List Args) (tx : Tx)
    (w : World) : runQueue run (argv :: queue) tx w =
      (run argv tx w >>= fun p => runQueue run queue p.1.2 p.2) := rfl

/-- What every call of a queue keeps holds at its end. -/
theorem runQueue_invariant {I : Tx → World → Prop} {queue : List Args} {tx tx' : Tx} {w w' : World}
    (hcall : ∀ argv ∈ queue, ∀ tx w tx' w', I tx w →
      run argv tx w = .ok (((), tx'), w') → I tx' w') (h : I tx w)
    (hrun : runQueue run queue tx w = .ok (((), tx'), w')) : I tx' w' := by
  induction queue generalizing tx w with
  | nil =>
    cases hrun
    exact h
  | cons argv queue ih =>
    rw [runQueue_cons] at hrun
    obtain ⟨⟨⟨⟨⟩, tx₁⟩, w₁⟩, hfirst, hrest⟩ := bind_eq_ok hrun
    have h₁ := hcall argv mem_cons_self tx w tx₁ w₁ h hfirst
    exact ih (fun argv hmem => hcall argv (mem_cons_of_mem _ hmem)) h₁ hrest

/-- Their handlers. -/
theorem ranQueue_cons (run : Args → D Unit) (ran : Args → Tx → World → List Ran) (argv : Args)
    (queue : List Args) (tx : Tx) (w : World) : ranQueue run ran (argv :: queue) tx w =
      ran argv tx w ++
        match run argv tx w with
        | .ok p => ranQueue run ran queue p.1.2 p.2
        | .error _ => [] := rfl

/-- What holds of all handlers of each command holds of all handlers of a queue. -/
theorem forall_ranQueue {P : Ran → Prop} {ran : Args → Tx → World → List Ran}
    (h : ∀ argv tx w, ∀ x ∈ ran argv tx w, P x) (queue : List Args) (tx : Tx) (w : World) :
    ∀ x ∈ ranQueue run ran queue tx w, P x := by
  induction queue generalizing tx w with
  | nil => exact fun x hx => absurd hx not_mem_nil
  | cons argv queue ih =>
    intro x hx
    rw [ranQueue_cons] at hx
    rcases mem_append.1 hx with hx | hx
    · exact h argv tx w x hx
    · cases hrun : run argv tx w with
      | ok p =>
        rw [hrun] at hx
        exact ih _ _ x hx
      | error f =>
        rw [hrun] at hx
        cases hx

/-- A handler is run only with the arguments that it needs. -/
theorem minArgs_of_ran (depth : ℕ) (argv : Args) (tx : Tx) (w : World) :
    ∀ x ∈ ran env depth argv tx w, minArgs x.cmd ≤ x.argv.length := by
  induction depth generalizing argv tx w with
  | zero => exact fun x hx => absurd hx not_mem_nil
  | succ depth ih =>
    intro x hx
    rcases dispatch_cases env depth argv tx w with h | h | h
    · obtain ⟨-, -, -, hran⟩ := h
      rw [hran] at hx
      cases hx
    · obtain ⟨c, hargc, -, hran, -⟩ := h
      rw [hran] at hx
      rw [mem_singleton.1 hx]
      exact hargc
    · rw [h.2] at hx
      exact forall_ranQueue ih _ _ _ x hx

section Fault

variable {f : CommandFault}

/-- A queue meets a fault if one of its handlers does. -/
theorem runQueue_error_iff {ran : Args → Tx → World → List Ran}
    (h : ∀ argv tx w, run argv tx w = .error f ↔ ∃ x ∈ ran argv tx w, x.outcome env = .error f)
    (queue : List Args) (tx : Tx) (w : World) : runQueue run queue tx w = .error f ↔
      ∃ x ∈ ranQueue run ran queue tx w, x.outcome env = .error f := by
  induction queue generalizing tx w with
  | nil => exact ⟨nofun, fun ⟨x, hx, _⟩ => by cases hx⟩
  | cons argv queue ih =>
    have hhead := h argv tx w
    rw [runQueue_cons, ranQueue_cons]
    cases hrun : run argv tx w with
    | ok p =>
      -- No handler of this command meets the fault, so it is one of the rest.
      rw [hrun] at hhead
      have hnone : ¬∃ x ∈ ran argv tx w, x.outcome env = .error f := fun hc => by
        cases hhead.2 hc
      refine (ih p.1.2 p.2).trans ⟨?_, ?_⟩
      · rintro ⟨x, hx, hf⟩
        exact ⟨x, mem_append_right _ hx, hf⟩
      · rintro ⟨x, hx, hf⟩
        rcases mem_append.1 hx with hx | hx
        · exact absurd ⟨x, hx, hf⟩ hnone
        · exact ⟨x, hx, hf⟩
    | error g =>
      rw [hrun] at hhead
      rw [append_nil]
      exact hhead

/-- `Dispatch` meets a fault if and only if one of the handlers that it runs does. -/
theorem dispatch_error_iff (hf : f ≠ .recursion) (depth : ℕ) (argv : Args) (tx : Tx) (w : World) :
    dispatch env depth argv tx w = .error f ↔
      ∃ x ∈ ran env depth argv tx w, x.outcome env = .error f := by
  induction depth generalizing argv tx w with
  | zero =>
    refine ⟨fun h => ?_, fun ⟨x, hx, _⟩ => by cases hx⟩
    have hrec : dispatch env 0 argv tx w = .error .recursion := rfl
    rw [hrec] at h
    cases h
    exact absurd rfl hf
  | succ depth ih =>
    rcases dispatch_cases env depth argv tx w with h | h | h
    · obtain ⟨tx', out, hrun, hran⟩ := h
      rw [hrun, hran]
      exact ⟨nofun, fun ⟨x, hx, _⟩ => by cases hx⟩
    · obtain ⟨c, -, -, hran, hrun⟩ := h
      rw [hrun, hran]
      have hone : (∃ x ∈ [Ran.mk c argv w], x.outcome env = .error f) ↔
          Ran.outcome env ⟨c, argv, w⟩ = .error f := by
        simp only [mem_singleton, exists_eq_left]
      rw [hone]
      cases Ran.outcome env ⟨c, argv, w⟩ with
      | ok p => exact ⟨nofun, nofun⟩
      | error g => exact ⟨fun h => by cases h; rfl, fun h => by cases h; rfl⟩
    · rw [h.1, h.2]
      exact runQueue_error_iff ih _ _ _

end Fault

section Invariants

variable {I : Database → Prop} {K : Ran → Prop}

/-- A queue keeps an invariant if each of its commands does. -/
theorem runQueue_keeps {ran : Args → Tx → World → List Ran}
    (h : ∀ argv tx w p, I w.db → (∀ x ∈ ran argv tx w, K x) → run argv tx w = .ok p → I p.2.db)
    (queue : List Args) (tx : Tx) (w : World) (p : (Unit × Tx) × World) (hw : I w.db)
    (hK : ∀ x ∈ ranQueue run ran queue tx w, K x) (hp : runQueue run queue tx w = .ok p) :
    I p.2.db := by
  induction queue generalizing tx w with
  | nil =>
    cases hp
    exact hw
  | cons argv queue ih =>
    rw [runQueue_cons] at hp
    rw [ranQueue_cons] at hK
    cases hrun : run argv tx w with
    | error g =>
      rw [hrun] at hp
      cases hp
    | ok q =>
      rw [hrun] at hp hK
      have hq := h argv tx w q hw (fun x hx => hK x (mem_append_left _ hx)) hrun
      exact ih q.1.2 q.2 hq (fun x hx => hK x (mem_append_right _ hx)) hp

/-- `Dispatch` keeps an invariant if the handlers that it runs do, where `K` is what is known of
them. -/
theorem dispatch_keeps
    (h : ∀ x p, minArgs x.cmd ≤ x.argv.length → K x → I x.world.db → x.outcome env = .ok p →
      I p.2.db) (depth : ℕ) (argv : Args) (tx : Tx) (w : World) (p : (Unit × Tx) × World)
    (hw : I w.db) (hK : ∀ x ∈ ran env depth argv tx w, K x)
    (hp : dispatch env depth argv tx w = .ok p) : I p.2.db := by
  induction depth generalizing argv tx w p with
  | zero => cases hp
  | succ depth ih =>
    rcases dispatch_cases env depth argv tx w with hd | hd | hd
    · obtain ⟨tx', out, hrun, -⟩ := hd
      rw [hrun] at hp
      cases hp
      exact hw
    · obtain ⟨c, hargc, -, hran, hrun⟩ := hd
      rw [hran] at hK
      rw [hrun] at hp
      cases ho : Ran.outcome env ⟨c, argv, w⟩ with
      | error g =>
        rw [ho] at hp
        cases hp
      | ok q =>
        rw [ho] at hp
        cases hp
        exact h ⟨c, argv, w⟩ q hargc (hK _ mem_cons_self) hw ho
    · rw [hd.2] at hK
      rw [hd.1] at hp
      exact runQueue_keeps ih _ _ (execHeader tx w) p hw hK hp

end Invariants

end TinyRedis.Commands

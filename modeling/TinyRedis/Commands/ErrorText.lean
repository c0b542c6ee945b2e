import TinyRedis.Commands.Effects
import TinyRedis.Resp.ErrorText

/-!
# The texts of errors

Some errors repeat what the client has sent: the name of an unknown command and its first argument,
the parameter of `CONFIG`, and the subcommand of `CLIENT`. Nothing is escaped, and what is repeated
may have CR and LF in it; the error is then more than one line. All other errors are lines, if those
of writing a snapshot are.
-/

namespace TinyRedis.Commands

open Lib Resp List

variable {env : Env} {depth : ℕ} {argv args : Args} {tx tx' : Tx} {w w' : World}
  {name reply lower param : Bytes} {c : Cmd}

/-! ## What is repeated -/

/-- What a command that is run may repeat in an error: arguments, or the error of writing a
snapshot. -/
def echoedBy (env : Env) (w : World) (c : Cmd) (args : Args) : List Bytes :=
  if c = .config then
    if toUpper (args.headD []) = bytes "GET" ∨ toUpper (args.headD []) = bytes "SET" then
      args.tail.take 1
    else []
  else if c = .client then args.take 1
  else if c = .save then (env.saveToFile w.tick).toList
  else if c = .bgsave then (env.bgSaveFork w.tick).toList
  else []

/-- What a call of `Dispatch` may repeat in an error. A command that is queued is not run. -/
def echoed (env : Env) (argv : Args) (tx : Tx) (w : World) : List Bytes :=
  match argv with
  | [] => []
  | name :: args =>
    match findCommand (toUpper name) with
    | none => name :: args.take 1
    | some a =>
      if arityOk a (name :: args).length && !tx.inMulti then echoedBy env w a.cmd args else []

section

variable {name : Bytes} {args : Args} {a : Arity} {s sub : Bytes} {outcome : ℕ → Option Bytes}

/-- An unknown command echoes its name and first argument. -/
theorem echoed_of_none (ha : findCommand (toUpper name) = none) :
    echoed env (name :: args) tx w = name :: args.take 1 := by
  unfold echoed
  dsimp only
  rw [ha]

/-- A known command echoes what its handler does, if it runs at all. -/
theorem echoed_of_some (ha : findCommand (toUpper name) = some a) :
    echoed env (name :: args) tx w =
      if arityOk a (name :: args).length && !tx.inMulti then echoedBy env w a.cmd args else [] := by
  unfold echoed
  dsimp only
  rw [ha]

end

/-- A call of `Dispatch`. -/
structure Call where
  depth : ℕ
  argv : Args
  tx : Tx
  world : World

/-- The call `argv` runs the queue of the transaction. -/
structure Executes (argv : Args) (tx : Tx) : Prop where
  known : ∃ a, findCommand (toUpper (argv.headD [])) = some a ∧ arityOk a argv.length = true ∧
    a.cmd = .exec
  inMulti : tx.inMulti = true
  multiError : tx.multiError = false

namespace Call

/-- A call, and the calls that `EXEC` makes for the commands in the queue. -/
inductive Makes (env : Env) : Call → Call → Prop
  | self (depth : ℕ) (argv : Args) (tx : Tx) (w : World) :
      Makes env ⟨depth + 1, argv, tx, w⟩ ⟨depth + 1, argv, tx, w⟩
  | queued {depth : ℕ} {argv q : Args} {tx tx₁ : Tx} {w w₁ : World} {qs rest : List Args}
      {c : Call} : Executes argv tx → tx.multiQueue = qs ++ q :: rest →
      runQueue (dispatch env depth) qs .idle (execHeader tx w) = .ok (((), tx₁), w₁) →
      Makes env ⟨depth, q, tx₁, w₁⟩ c → Makes env ⟨depth + 1, argv, tx, w⟩ c

/-- The call replies the error `s`. -/
def Fails (env : Env) (c : Call) (s : Bytes) : Prop :=
  ∃ tx' w', dispatch env c.depth c.argv c.tx c.world = .ok (((), tx'), w') ∧
    w'.out = c.world.out ++ (Reply.error s).encode

/-- A nested call is never at depth zero. -/
theorem Makes.depth_ne_zero {c c' : Call} (h : Makes env c c') : c'.depth ≠ 0 := by
  induction h with
  | self depth => exact Nat.succ_ne_zero depth
  | queued _ _ _ _ ih => exact ih

/-- What the call may repeat in an error. -/
def echoes (env : Env) (c : Call) : List Bytes := echoed env c.argv c.tx c.world

end Call

/-! ## Lines -/

/-- The text for an unknown command is one line if and only if what it echoes is. -/
theorem oneLine_unknownText_iff (name : Bytes) (args : Args) :
    OneLine (unknownText name args) ↔ ∀ b ∈ name :: args.take 1, OneLine b := by
  have h1 : OneLine (bytes "ERR unknown command '") := by decide
  have h2 : OneLine (bytes "'") := by decide
  have h3 : OneLine (bytes ", with args beginning with: '") := by decide
  have h4 : OneLine (bytes "' ") := by decide
  unfold unknownText
  cases args with
  | nil => simp [line_append_iff, h1, h2]
  | cons first args => simp [line_append_iff, h1, h2, h3, h4]

/-! ## Errors of a command -/

/-- The text of an error can be read off the output. -/
theorem text_inj {out t : Bytes}
    (h : out ++ (Reply.error s).encode = out ++ (Reply.error t).encode) : s = t :=
  append_cancel_right (List.cons.inj (append_cancel_left h)).2

/-- `AppendErrorReply` appends the error as it is encoded. -/
theorem appendErrorReply_eq (out s : Bytes) :
    appendErrorReply out s = out ++ (Reply.error s).encode := append_assoc _ _ _

/-- `SAVE` and `BGSAVE`. -/
theorem saveWith_out (env : Env) (outcome : ℕ → Option Bytes) (reply : Bytes) (w : World) :
    ∃ w', saveWith env outcome reply w = .ok ((), w') ∧
      ((∃ s, outcome w.tick = some s ∧ w'.out = w.out ++ (Reply.error s).encode) ∨
        (outcome w.tick = none ∧ w'.out = appendSimpleReply w.out reply)) := by
  unfold saveWith
  simp only [bind_apply, tick, ok_bind]
  cases outcome w.tick with
  | some s => exact ⟨_, rfl, .inl ⟨s, rfl, appendErrorReply_eq _ _⟩⟩
  | none => exact ⟨_, rfl, .inr ⟨rfl, rfl⟩⟩

/-- The errors of `SAVE` and `BGSAVE` are those of writing the snapshot. -/
theorem saveWith_error (hrun : saveWith env outcome reply w = .ok ((), w'))
    (hs : w'.out = w.out ++ (Reply.error s).encode) : outcome w.tick = some s := by
  obtain ⟨w₁, hrun₁, h⟩ := saveWith_out env outcome reply w
  cases hrun₁.symm.trans hrun
  rcases h with ⟨t, ht, hout⟩ | ⟨-, hout⟩
  · rw [← text_inj (hout.symm.trans hs)]
    exact ht
  · exact absurd (hout.symm.trans hs) appendSimpleReply_ne_error

/-! ### `CONFIG` and `CLIENT` -/

/-- The argument at index 1. -/
theorem arg_one (a b : Bytes) (args : Args) : arg (a :: b :: args) 1 = pure b := rfl

/-- The argument at index 2. -/
theorem arg_two (a b c : Bytes) (args : Args) : arg (a :: b :: c :: args) 2 = pure c := rfl

/-- `CONFIG` with an unknown subcommand. -/
theorem config_of_ne (hsub : ¬(toUpper sub = bytes "GET" ∨ toUpper sub = bytes "SET")) :
    config env (name :: sub :: args) = errSyntax := by
  rw [not_or] at hsub
  unfold config
  rw [arg_one, pure_bind]
  exact (if_neg hsub.1).trans (if_neg hsub.2)

/-- The errors of a command whose texts are all lines are lines. -/
theorem oneLine_of_allows (hlower : OneLine lower) (hpermits : (lineRules env).Permits c argv)
    (hrun : runCommand env c lower argv w = .ok ((), w'))
    (hs : w'.out = w.out ++ (Reply.error s).encode) : OneLine s := by
  obtain ⟨p, hp, h⟩ := holds_runCommand hpermits free_of_true hlower hrun
  obtain ⟨b, hout, hb⟩ := h.answer
  rw [h.failed_of_error (hp.imp_right (.imp_right And.right)) hs] at hb
  obtain ⟨t, ht, rfl⟩ := hb
  rw [← text_inj (hout.symm.trans hs)]
  exact ht

/-- A command whose arguments are lines where they are repeated replies errors in one line. -/
theorem runCommand_oneLine {c : Cmd} {lower name : Bytes} {args : Args} (hlower : OneLine lower)
    (hecho : ∀ b ∈ echoedBy env w c args, OneLine b)
    (hrun : runCommand env c lower (name :: args) w = .ok ((), w'))
    (hs : w'.out = w.out ++ (Reply.error s).encode) : OneLine s := by
  unfold echoedBy at hecho
  by_cases hsave : c = .save
  · subst hsave
    rw [runCommand_of_read rfl] at hrun
    exact hecho s (Option.mem_toList.2 (saveWith_error hrun hs))
  by_cases hbgsave : c = .bgsave
  · subst hbgsave
    rw [runCommand_of_read rfl] at hrun
    exact hecho s (Option.mem_toList.2 (saveWith_error hrun hs))
  by_cases hsyntax : c = .config ∧ ∃ sub rest, args = sub :: rest ∧
      ¬(toUpper sub = bytes "GET" ∨ toUpper sub = bytes "SET")
  · obtain ⟨rfl, sub, rest, rfl, hsub⟩ := hsyntax
    rw [runCommand_of_read rfl] at hrun
    have hrun : config env (name :: sub :: rest) w = .ok ((), w') := hrun
    rw [config_of_ne hsub] at hrun
    cases hrun
    rw [← text_inj ((appendErrorReply_eq _ _).symm.trans hs)]
    decide
  refine oneLine_of_allows hlower (permits_lines (fun h => absurd h hsave)
    (fun h => absurd h hbgsave) (fun hc param hparam => ?_) fun hc sub hsub => ?_) hrun hs
  · rw [if_pos hc] at hecho
    cases args with
    | nil => cases hparam
    | cons sub rest =>
      have hsub : toUpper sub = bytes "GET" ∨ toUpper sub = bytes "SET" :=
        not_not.1 fun hsub => hsyntax ⟨hc, sub, rest, rfl, hsub⟩
      rw [headD_cons, if_pos hsub] at hecho
      cases rest with
      | nil => cases hparam
      | cons _ rest =>
        cases hparam
        exact hecho param mem_cons_self
  · subst hc
    rw [if_neg (by decide), if_pos rfl] at hecho
    cases args with
    | nil => cases hsub
    | cons _ rest =>
      cases hsub
      exact hecho sub mem_cons_self

/-- A parameter that is not a line is none that `CONFIG GET` knows. -/
theorem configGet_of_not_oneLine (hline : ¬OneLine param) :
    configGet env (name :: sub :: param :: args) w =
      replyError (configGetText (toLower param)) w := by
  have hne : ∀ s, OneLine s → toLower param ≠ s := fun s hs heq =>
    hline (oneLine_toLower_iff.1 (heq ▸ hs))
  unfold configGet
  rw [arg_two, pure_bind, get_bind_apply]
  dsimp only
  rw [if_neg (hne (bytes "maxmemory") (by decide)), if_neg (hne (bytes "port") (by decide)),
    if_neg (hne (bytes "databases") (by decide)), if_neg (hne (bytes "dir") (by decide)),
    if_neg (hne (bytes "dbfilename") (by decide)), if_neg (hne (bytes "save") (by decide)),
    if_neg (hne (bytes "timeout") (by decide))]
  rfl

/-- `CONFIG SET` knows no parameter with a line break in it. -/
theorem configSet_of_not_oneLine (hline : ¬OneLine param) :
    configSet (name :: sub :: param :: args) = replyError (configSetText (toLower param)) := by
  have hne : toLower param ≠ bytes "maxmemory" := fun heq =>
    hline (oneLine_toLower_iff.1 (heq.symm ▸ (by decide : OneLine (bytes "maxmemory"))))
  unfold configSet
  rw [arg_two, pure_bind]
  exact if_neg hne

/-- A subcommand that is not a line is none that `CLIENT` knows. -/
theorem client_of_not_oneLine (hline : ¬OneLine sub) :
    client env (name :: sub :: args) w = replyError (clientText (toLower sub)) w := by
  have hne : ∀ s, OneLine s → toUpper sub ≠ s := fun s hs heq =>
    hline (oneLine_of_toUpper (heq ▸ hs))
  unfold client
  rw [arg_one, pure_bind, get_bind_apply]
  dsimp only
  rw [if_neg (hne (bytes "ID") (by decide)), if_neg (hne (bytes "GETNAME") (by decide)),
    if_neg (hne (bytes "SETNAME") (by decide)), if_neg (hne (bytes "INFO") (by decide)),
    if_neg (hne (bytes "LIST") (by decide))]
  rfl

/-! ### Errors of more than one line -/

/-- The command replies an error of more than one line. -/
def Spills (env : Env) (c : Cmd) (lower : Bytes) (argv : Args) (w : World) : Prop :=
  ∃ w' s, runCommand env c lower argv w = .ok ((), w') ∧
    w'.out = w.out ++ (Reply.error s).encode ∧ ¬OneLine s

variable {c : Cmd} {lower name b : Bytes} {args : Args}

/-- A handler that replies an error of several lines spills. -/
theorem spills_of_replyError (hc : isWriteCommand c = false)
    (h : handler env lower argv c w = replyError s w) (hs : ¬OneLine s) :
    Spills env c lower argv w :=
  ⟨_, s, (runCommand_of_read hc).trans h, appendErrorReply_eq _ _, hs⟩

/-- A save whose failure has several lines in its message spills. -/
theorem spills_of_saveWith (hc : isWriteCommand c = false)
    (h : handler env lower argv c w = saveWith env outcome reply w)
    (hb : b ∈ (outcome w.tick).toList) (hline : ¬OneLine b) : Spills env c lower argv w := by
  obtain ⟨w', hrun, ⟨s, hs, hout⟩ | ⟨hnone, -⟩⟩ := saveWith_out env outcome reply w
  · rw [hs] at hb
    cases mem_singleton.1 hb
    exact ⟨w', b, (runCommand_of_read hc).trans (h.trans hrun), hout, hline⟩
  · rw [hnone] at hb
    cases hb

/-- `CONFIG GET` and `CONFIG SET` spill on a parameter of several lines. -/
theorem spills_config (hsub : toUpper sub = bytes "GET" ∨ toUpper sub = bytes "SET")
    (hline : ¬OneLine b) : Spills env .config lower (name :: sub :: b :: args) w := by
  have hlower : ¬OneLine (toLower b) := fun h => hline (oneLine_toLower_iff.1 h)
  have hsplit : handler env lower (name :: sub :: b :: args) .config w =
      (if toUpper sub = bytes "GET" then configGet env (name :: sub :: b :: args)
        else if toUpper sub = bytes "SET" then configSet (name :: sub :: b :: args)
        else errSyntax) w := rfl
  by_cases hget : toUpper sub = bytes "GET"
  · rw [if_pos hget, configGet_of_not_oneLine hline] at hsplit
    refine spills_of_replyError rfl hsplit fun h => hlower ?_
    exact (line_append_iff.1 (line_append_iff.1 h).1).2
  · rw [if_neg hget, if_pos (hsub.resolve_left hget), configSet_of_not_oneLine hline] at hsplit
    exact spills_of_replyError rfl hsplit fun h => hlower (line_append_iff.1 h).2

/-- `CLIENT` spills on a subcommand of several lines. -/
theorem spills_client (hline : ¬OneLine b) : Spills env .client lower (name :: b :: args) w := by
  refine spills_of_replyError rfl (client_of_not_oneLine hline) fun h => hline ?_
  exact oneLine_toLower_iff.1 (line_append_iff.1 (line_append_iff.1 h).1).2

/-- What is repeated and has more than one line makes the error one of more than one line. -/
theorem spills_of_mem (hargs : minArgs c ≤ (name :: args).length)
    (hb : b ∈ echoedBy env w c args) (hline : ¬OneLine b) :
    Spills env c lower (name :: args) w := by
  unfold echoedBy at hb
  split_ifs at hb with hc hsub hc hc hc
  · subst hc
    match args, hb, hsub with
    | sub :: param :: rest, hb, hsub =>
      cases mem_singleton.1 hb
      exact spills_config hsub hline
  · cases hb
  · subst hc
    match args, hb with
    | sub :: rest, hb =>
      cases mem_singleton.1 hb
      exact spills_client hline
  · subst hc
    exact spills_of_saveWith rfl rfl hb hline
  · subst hc
    exact spills_of_saveWith rfl rfl hb hline
  · cases hb

/-! ## Errors of a call -/

/-- The reply to an `EXEC` that runs its queue is no error. -/
theorem ExecRuns.ne_error (h : ExecRuns env depth argv tx w tx' w') :
    w'.out ≠ w.out ++ (Reply.error s).encode := by
  obtain ⟨b, hb⟩ := runQueue_invariant (I := fun _ w₁ => (execHeader tx w).out <+: w₁.out)
    (fun _ _ _ _ _ _ h hrun => h.trans (dispatch_appends hrun)) (prefix_refl _) h.queue
  intro hs
  have hhead : w.out ++ (Reply.header tx.multiQueue.length ++ b) =
      w.out ++ (Reply.error s).encode := by
    rw [← hs, ← hb, ← append_assoc]
    exact congrArg (· ++ b) (append_assoc _ _ _).symm
  exact absurd (List.cons.inj (append_cancel_left hhead)).1 (by decide)

/-- Of the commands that are not queued, `QUIT` is the only one with a handler. -/
theorem quit_of_control (hcontrol : isControl c = true) (hplain : Plain c) : c = .quit := by
  have hmem : c = .multi ∨ c = .exec ∨ c = .discard ∨ c = .quit := by
    simpa [isControl] using hcontrol
  exact ((hmem.resolve_left hplain.1).resolve_left hplain.2.2).resolve_left hplain.2.1

/-- The errors of a call are lines, if all that it repeats are. -/
theorem oneLine_of_fails (hecho : ∀ b ∈ echoed env argv tx w, OneLine b)
    (h : Call.Fails env ⟨depth + 1, argv, tx, w⟩ s) : OneLine s := by
  obtain ⟨tx', w', hrun, hs⟩ := h
  have herror : ∀ {t}, appendErrorReply w.out t = w.out ++ (Reply.error s).encode → t = s :=
    fun ht => text_inj ((appendErrorReply_eq _ _).symm.trans ht)
  rcases dispatch_reacts hrun with hreacts | hexec
  · cases hreacts with
    | nothing => exact absurd (self_eq_append_right.1 hs) (Reply.encode_ne_nil _)
    | @unknown name args _ _ ha =>
      rw [← herror hs]
      rw [echoed_of_none ha] at hecho
      exact (oneLine_unknownText_iff name args).2 hecho
    | arity ha =>
      rw [← herror hs]
      exact line_append_iff.2
        ⟨line_append_iff.2 ⟨by decide, line_of_findCommand ha⟩, by decide⟩
    | queued => exact absurd hs appendSimpleReply_ne_error
    | misplaced _ _ ht =>
      rw [← herror hs]
      exact ht
    | accepted => exact absurd hs appendSimpleReply_ne_error
    | aborted _ _ _ ht =>
      rw [← herror hs]
      exact ht
    | ran ha hok hplain hcommand =>
      refine runCommand_oneLine (line_of_findCommand ha) ?_ hcommand hs
      rw [echoed_of_some ha, hok, Bool.true_and] at hecho
      cases hin : tx.inMulti with
      | false =>
        rw [hin] at hecho
        exact hecho
      | true =>
        cases hcontrol : isControl _ with
        | false =>
          rw [dispatch_queued ha (by rw [hin, hcontrol]; rfl), if_pos hok] at hrun
          have hw := (Prod.mk.inj (Except.ok.inj hrun)).2
          exact absurd ((congrArg World.out hw).trans hs) appendSimpleReply_ne_error
        | true =>
          rw [quit_of_control hcontrol hplain]
          exact fun b hb => absurd hb not_mem_nil
  · exact absurd hs hexec.ne_error

/-- What a call repeats and has more than one line makes its error one of more than one line. -/
theorem exists_fails {b : Bytes} (hb : b ∈ echoed env argv tx w) (hline : ¬OneLine b) :
    ∃ s, Call.Fails env ⟨depth + 1, argv, tx, w⟩ s ∧ ¬OneLine s := by
  cases argv with
  | nil => cases hb
  | cons name args =>
    cases ha : findCommand (toUpper name) with
    | none =>
      rw [echoed_of_none ha] at hb
      refine ⟨unknownText name args, ⟨_, _, dispatch_unknown ha, appendErrorReply_eq _ _⟩, ?_⟩
      exact fun h => hline ((oneLine_unknownText_iff name args).1 h b hb)
    | some a =>
      rw [echoed_of_some ha] at hb
      split_ifs at hb with hrun
      · rw [Bool.and_eq_true, Bool.not_eq_true'] at hrun
        have hspills : Spills env a.cmd (toLower name) (name :: args) w :=
          spills_of_mem (minArgs_le_of_arityOk ha hrun.1) hb hline
        obtain ⟨w', s, hcommand, hs, hnot⟩ := hspills
        refine ⟨s, ⟨tx, w', ?_, hs⟩, hnot⟩
        dsimp only
        have hplain : Plain a.cmd := by
          refine ⟨?_, ?_, ?_⟩ <;> intro hcmd <;> rw [hcmd] at hb <;> cases hb
        rw [dispatch_plain ha (fun _ => hplain) depth (by rw [hrun.2]; rfl), hrun.1, if_pos rfl,
          hcommand]
        rfl
      · cases hb

/-- The errors of a call are lines if all that it repeats are lines, and only then. -/
theorem call_oneLine_iff (depth : ℕ) (argv : Args) (tx : Tx) (w : World) :
    (∀ s, Call.Fails env ⟨depth + 1, argv, tx, w⟩ s → OneLine s) ↔
      ∀ b ∈ echoed env argv tx w, OneLine b := by
  refine ⟨fun h b hb => ?_, fun h s hs => oneLine_of_fails h hs⟩
  by_contra hline
  obtain ⟨s, hs, hnot⟩ := exists_fails hb hline
  exact hnot (h s hs)

/-- The errors that a call of `Dispatch` replies, and those of the calls that `EXEC` makes in it,
are lines if all that they repeat are lines, and only then. The error of the parser is a line unless
there is a CR or an LF in the stream in place of an element. -/
theorem errors_are_lines_iff (env : Env) (call : Call) (buf data : Bytes) :
    ((∀ c, Call.Makes env call c → ∀ s, c.Fails env s → OneLine s) ↔
      ∀ c, Call.Makes env call c → ∀ b ∈ c.echoes env, OneLine b) ∧
    (OneLine (RequestParser.feed ⟨buf, []⟩ data).2.errorMsg ↔
      kMaxBulkBytes < (buf ++ data).length ∨ ¬Strays (buf ++ data)) := by
  have hone : ∀ c, Call.Makes env call c →
      ((∀ s, c.Fails env s → OneLine s) ↔ ∀ b ∈ c.echoes env, OneLine b) := by
    intro c hc
    obtain ⟨depth, hdepth⟩ := Nat.exists_eq_succ_of_ne_zero hc.depth_ne_zero
    obtain ⟨_, argv, tx, w⟩ := c
    cases hdepth
    exact call_oneLine_iff depth argv tx w
  exact ⟨forall_congr' fun c => forall_congr' (hone c), oneLine_errorMsg_iff buf data⟩

/-- The bytes of a request that come back as two replies. -/
theorem errors_are_lines_injection :
    (RequestParser.fresh.feed (bytes "*1\r\n$6\r\na\r\n+OK\r\n")).1 = [[bytes "a\r\n+OK"]] ∧
    (∃ tx' w', dispatch stillEnv 2 [bytes "a\r\n+OK"] .idle (freshServer.world 0) =
        .ok (((), tx'), w') ∧ w'.out = Reply.encodeAll
          [.error (bytes "ERR unknown command 'a"), .simple (bytes "OK'")]) ∧
    (RequestParser.fresh.feed (bytes "*1\r\n\n")).2.errorMsg =
      bytes "ERR Protocol error: expected '$', got '\n'" := by
  refine ⟨by decide +kernel, ?_, by decide +kernel⟩
  obtain ⟨⟨⟨⟨⟩, tx'⟩, w'⟩, hrun, hout⟩ := exists_ok_of_any
    (p := fun x : (Unit × Tx) × World => decide (x.2.out = Reply.encodeAll
      [.error (bytes "ERR unknown command 'a"), .simple (bytes "OK'")]))
    (x := dispatch stillEnv 2 [bytes "a\r\n+OK"] .idle (freshServer.world 0)) (by decide +kernel)
  exact ⟨tx', w', hrun, of_decide_eq_true hout⟩

end TinyRedis.Commands

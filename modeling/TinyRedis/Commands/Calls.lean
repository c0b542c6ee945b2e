import TinyRedis.Commands.Effects

/-!
# Calls of a command

What a call of `Dispatch` does outside a transaction, for a command with the right number of
arguments, is what its handler does. A handler that finds a value under its key goes on with this
value (`Finds`), and reads and writes it through the pointer (`Stores`).
-/

namespace TinyRedis.Commands

open Lib Resp List

variable {env : Env} {argv : Args} {tx tx' : Tx} {c : Cmd} {w w₁ w₂ : World} {T β : Type}
  {k : Kind T} {key : Bytes} {t : T} {v v' : Reply} {w' : World} {depth i : ℕ}

/-- The arguments are those of the command `c`, and as many as it takes. -/
def accepts (c : Cmd) (argv : Args) : Bool :=
  (findCommand (toUpper (argv.headD []))).any fun r =>
    decide (r.cmd = c) && arityOk r argv.length

/-- The entry of a command in `ArityTable`. -/
theorem exists_arity {name : Bytes} {c : Cmd} {n : ℕ}
    (h : (findCommand (toUpper name)).any (fun r => decide (r.cmd = c) && arityOk r n) = true) :
    ∃ r, findCommand (toUpper name) = some r ∧ r.cmd = c ∧ arityOk r n = true := by
  cases hr : findCommand (toUpper name) with
  | none =>
    rw [hr] at h
    cases h
  | some r =>
    rw [hr, Option.any_some, Bool.and_eq_true] at h
    exact ⟨r, rfl, of_decide_eq_true h.1, h.2⟩

/-- The command of a call depends on its name and on the number of its arguments. -/
theorem accepts_congr (c : Cmd) (argv argv' : Args) (hname : argv.headD [] = argv'.headD [])
    (hlen : argv.length = argv'.length) : accepts c argv = accepts c argv' := by
  unfold accepts
  rw [hname, hlen]

/-- The name that a command is called by, in error messages. -/
def lowerName (argv : Args) : Bytes := toLower (argv.headD [])

/-- Then there are as many as it reads. -/
theorem minArgs_le_of_accepts (h : accepts c argv = true) : minArgs c ≤ argv.length := by
  obtain ⟨r, hr, rfl, hok⟩ := exists_arity h
  exact minArgs_le_of_arityOk hr hok

/-- Without a limit on the memory no command is refused. -/
theorem gated_of_unlimited (h : env.opts.maxmemory = 0) : gated env c w = false := by
  unfold gated
  rw [h]
  rfl

/-- Outside a transaction, `Dispatch` runs the command. -/
theorem dispatch_eq_runCommand (h : accepts c argv = true) (hcontrol : isControl c = false)
    (htx : tx.inMulti = false) (depth : ℕ) :
    dispatch env (depth + 1) argv tx w =
      (runCommand env c (lowerName argv) argv w >>= fun p => .ok (((), tx), p.2)) := by
  obtain ⟨r, hr, rfl, hok⟩ := exists_arity h
  cases argv with
  | nil => cases hr
  | cons name args =>
    rw [headD_cons] at hr
    rw [dispatch_plain hr (fun _ => plain_of_not_control hcontrol) depth (by rw [htx]; rfl),
      if_pos hok]
    rfl

/-- A command that is refused is an error. -/
theorem dispatch_of_gated (h : accepts c argv = true) (hcontrol : isControl c = false)
    (htx : tx.inMulti = false) (hgate : gated env c w = true) (depth : ℕ) :
    dispatch env (depth + 1) argv tx w = (errOom w >>= fun p => .ok (((), tx), p.2)) := by
  rw [dispatch_eq_runCommand h hcontrol htx]
  unfold runCommand
  rw [hgate]
  rfl

/-- A call, outside a transaction, that runs the handler of the command `c`. -/
structure Enters (env : Env) (c : Cmd) (argv : Args) (tx : Tx) (w : World) : Prop where
  accepts : accepts c argv = true
  outside : tx.inMulti = false
  gate : gated env c w = false
  control : isControl c = false

/-- Whether a call of a command reaches its handler. -/
def reaches (env : Env) (c : Cmd) (argv : Args) (tx : Tx) (w : World) : Bool :=
  accepts c argv && !tx.inMulti && !gated env c w

/-- Then it runs it. -/
theorem enters_of_reaches (h : reaches env c argv tx w = true) (hcontrol : isControl c = false) :
    Enters env c argv tx w := by
  unfold reaches at h
  simp only [Bool.and_eq_true, Bool.not_eq_true'] at h
  exact ⟨h.1.1, h.1.2, h.2, hcontrol⟩

/-- The command takes the arguments. -/
theorem accepts_of_reaches (h : reaches env c argv tx w = true) : accepts c argv = true := by
  unfold reaches at h
  simp only [Bool.and_eq_true] at h
  exact h.1.1

namespace Enters

variable (h : Enters env c argv tx w)
include h

/-- The call is the handler. -/
theorem dispatch_eq (depth : ℕ) : dispatch env (depth + 1) argv tx w =
    (handler env (lowerName argv) argv c w >>= fun p => .ok (((), tx), p.2)) := by
  rw [dispatch_eq_runCommand h.accepts h.control h.outside]
  unfold runCommand
  rw [h.gate]
  rfl

/-- What the handler does, the call does. -/
theorem dispatch_ok (depth : ℕ) (hrun : handler env (lowerName argv) argv c w = .ok ((), w')) :
    dispatch env (depth + 1) argv tx w = .ok (((), tx), w') := by
  rw [h.dispatch_eq, hrun]
  rfl

/-- The call does nothing else. -/
theorem handler_ok (hrun : dispatch env (depth + 1) argv tx w = .ok (((), tx'), w')) :
    handler env (lowerName argv) argv c w = .ok ((), w') := by
  rw [h.dispatch_eq] at hrun
  obtain ⟨⟨⟨⟩, w₁⟩, hhandler, hend⟩ := bind_eq_ok hrun
  cases hend
  exact hhandler

/-- It meets the faults that the handler meets. -/
theorem error_iff {f : CommandFault} (depth : ℕ) : dispatch env (depth + 1) argv tx w = .error f ↔
    handler env (lowerName argv) argv c w = .error f := by
  rw [h.dispatch_eq]
  cases handler env (lowerName argv) argv c w with
  | error f' =>
    constructor
    · intro hrun
      cases hrun
      rfl
    · intro hrun
      cases hrun
      rfl
  | ok p => exact iff_of_false nofun nofun

end Enters

/-! ## Replies -/

/-- The world after a reply. -/
def replied (v : Reply) (w : World) : World := { w with out := w.out ++ v.encode }

/-- Appending the bytes of a reply. -/
theorem emit_eq {f : Bytes → Bytes} (h : ∀ out, f out = out ++ v.encode) (w : World) :
    emit f w = .ok ((), replied v w) := by
  unfold replied
  rw [← h]
  rfl

/-- `AppendIntReply`. -/
theorem replyInt_eq (n : ℤ) (w : World) : replyInt n w = .ok ((), replied (.int n) w) :=
  emit_eq (fun out => by
    rw [appendIntReply, Reply.encode]
    simp only [append_assoc, cons_append]) w

/-- `AppendSimpleReply`. -/
theorem replySimple_eq (s : Bytes) (w : World) :
    replySimple s w = .ok ((), replied (.simple s) w) :=
  emit_eq (fun out => by
    rw [appendSimpleReply, Reply.encode]
    simp only [append_assoc, cons_append]) w

/-- `AppendErrorReply`. -/
theorem replyError_eq (s : Bytes) (w : World) : replyError s w = .ok ((), replied (.error s) w) :=
  emit_eq (fun out => by
    rw [appendErrorReply, Reply.encode]
    simp only [append_assoc, cons_append]) w

/-- An array of strings. -/
theorem replyBulkArray_eq (items : List Bytes) (w : World) :
    replyBulkArray items w = .ok ((), replied (.array (items.map .bulk)) w) :=
  emit_eq (Reply.appendBulkArray_eq_encode items) w

/-- An array without elements. -/
theorem replyEmptyArray_eq (w : World) : replyEmptyArray w = .ok ((), replied (.array []) w) :=
  emit_eq (fun out => append_assoc out _ _) w

/-- An error begins with a minus sign. -/
theorem exists_encode_of_isError (h : v.isError = true) : ∃ b, v.encode = 45 :: b := by
  cases v with
  | error s => exact ⟨_, rfl⟩
  | _ => cases h

/-- Two replies to the same world are the same bytes only if they are the same. -/
theorem replied_inj {u : Reply} (hu : u.WellFormed) (hv : v.WellFormed)
    (hw : w'.out = w.out ++ u.encode) (hout : w'.out = (replied v w).out) : u = v := by
  have hbytes : u.encode ++ [] = v.encode ++ [] := by
    rw [append_nil, append_nil]
    exact append_cancel_left (hw.symm.trans hout)
  exact (Reply.encode_append_inj u v hu hv hbytes).1

/-- `AppendBulkReply`. -/
theorem replyBulk_eq (s : Bytes) (w : World) : replyBulk s w = .ok ((), replied (.bulk s) w) :=
  emit_eq (fun out => by
    rw [appendBulkReply, Reply.encode]
    simp only [append_assoc, cons_append]) w

/-- `AppendNullBulkReply`. -/
theorem replyNullBulk_eq (w : World) : replyNullBulk w = .ok ((), replied .nullBulk w) :=
  emit_eq (fun out => append_assoc out _ _) w

/-- Outside a transaction, the call of a command replies `v`, and leads from `w` to `w'`. -/
structure Answers (env : Env) (depth : ℕ) (argv : Args) (tx : Tx) (w : World) (v : Reply)
    (w' : World) : Prop where
  run : dispatch env (depth + 1) argv tx w = .ok (((), tx), w')
  out : w'.out = w.out ++ v.encode

/-- A call that does not reach the handler replies an error, and changes nothing else. -/
theorem answers_refused (hcmd : commandOf argv = some c) (hc : isControl c = false)
    (htx : tx.inMulti = false) (h : reaches env c argv tx w = false) (depth : ℕ) :
    ∃ s, Answers env depth argv tx w (.error s) (replied (.error s) w) := by
  cases argv with
  | nil => cases hcmd
  | cons name args =>
    obtain ⟨r, hr, rfl⟩ := Option.map_eq_some_iff.1 hcmd
    rw [headD_cons] at hr
    have hrun : dispatch env (depth + 1) (name :: args) tx w = _ :=
      dispatch_plain hr (fun _ => plain_of_not_control hc) depth (by rw [htx]; rfl)
    have haccepts : accepts r.cmd (name :: args) = arityOk r (name :: args).length := by
      unfold accepts
      rw [headD_cons, hr]
      exact (congrArg (· && _) (decide_eq_true rfl)).trans (Bool.true_and _)
    unfold reaches at h
    rw [haccepts, htx, Bool.not_false, Bool.and_true] at h
    split_ifs at hrun with hok
    · rw [hok, Bool.true_and, Bool.not_eq_false'] at h
      unfold runCommand at hrun
      rw [h, if_pos rfl] at hrun
      unfold errOom at hrun
      rw [replyError_eq] at hrun
      exact ⟨_, hrun, rfl⟩
    · unfold errWrongArgs at hrun
      rw [replyError_eq] at hrun
      exact ⟨_, hrun, rfl⟩

/-- A call that does not reach the handler returns, and leaves the database alone. -/
theorem dispatch_of_not_reaches (hcmd : commandOf argv = some c) (hc : isControl c = false)
    (h : reaches env c argv tx w = false) (depth : ℕ) :
    ∃ tx' w', dispatch env (depth + 1) argv tx w = .ok (((), tx'), w') ∧ w'.db = w.db := by
  cases htx : tx.inMulti with
  | false =>
    obtain ⟨s, hanswers⟩ := answers_refused hcmd hc htx h depth
    exact ⟨_, _, hanswers.run, rfl⟩
  | true =>
    cases argv with
    | nil => cases hcmd
    | cons name args =>
      obtain ⟨r, hr, rfl⟩ := Option.map_eq_some_iff.1 hcmd
      rw [headD_cons] at hr
      rw [dispatch_queued hr (by rw [htx, hc]; rfl)]
      split_ifs
      · exact ⟨_, _, rfl, rfl⟩
      · exact ⟨_, _, rfl, rfl⟩

/-- So does every call that returns without reaching it. -/
theorem db_of_not_reaches (hcmd : commandOf argv = some c) (hc : isControl c = false)
    (h : reaches env c argv tx w = false)
    (hrun : dispatch env (depth + 1) argv tx w = .ok (((), tx'), w')) : w'.db = w.db := by
  obtain ⟨_, _, hrun', hdb⟩ := dispatch_of_not_reaches hcmd hc h depth
  cases hrun.symm.trans hrun'
  exact hdb

/-- A call has one reply, and leads to one world. -/
theorem Answers.unique (h : Answers env depth argv tx w v w₁)
    (h' : Answers env depth argv tx w v' w₂) : v.encode = v'.encode ∧ w₁ = w₂ := by
  have hworld : w₁ = w₂ := by
    cases h.run.symm.trans h'.run
    rfl
  subst hworld
  exact ⟨append_cancel_left (h.out.symm.trans h'.out), rfl⟩

/-- If the reply is well formed, it is the only one. -/
theorem Answers.reply_unique (h : Answers env depth argv tx w v w₁)
    (h' : Answers env depth argv tx w v' w₂) (hv : v.WellFormed) (hv' : v'.WellFormed) :
    v = v' := by
  have hbytes : v.encode ++ [] = v'.encode ++ [] := congrArg (fun b => b ++ []) (h.unique h').1
  exact (Reply.encode_append_inj v v' hv hv' hbytes).1

/-- An error is not the bytes of an integer. -/
theorem encode_int_ne (h : v.isError = true) (n : ℤ) : v.encode ≠ (Reply.int n).encode := by
  obtain ⟨b, hb⟩ := exists_encode_of_isError h
  rw [hb]
  exact (Reply.encode_ne_error rfl b).symm

/-- The reply of the handler is that of the call. -/
theorem Enters.answers (h : Enters env c argv tx w) (depth : ℕ)
    (hrun : handler env (lowerName argv) argv c w = .ok ((), w'))
    (hout : w'.out = w.out ++ v.encode) : Answers env depth argv tx w v w' :=
  ⟨h.dispatch_ok depth hrun, hout⟩

/-! ## Arguments -/

/-- An argument that is there, and what comes after it. -/
theorem arg_bind_some {s : Bytes} (h : argv[i]? = some s) (f : Bytes → M β) :
    arg argv i >>= f = f s := by
  unfold arg
  rw [h]
  exact pure_bind s f

/-- The argument at `i` is the integer `n`. -/
def HasInt (argv : Args) (i : ℕ) (n : ℤ) : Prop :=
  ∃ s, argv[i]? = some s ∧ parseIntStrict s = some n

/-- Two integers are read. -/
theorem twoInts_eq {j : ℕ} {m n : ℤ} (hm : HasInt argv i m) (hn : HasInt argv j n) :
    twoInts argv i j = pure (some (m, n)) := by
  obtain ⟨a, ha, hm⟩ := hm
  obtain ⟨b, hb, hn⟩ := hn
  unfold twoInts
  rw [arg_bind_some ha, hm]
  dsimp only
  rw [arg_bind_some hb, hn]

/-- The call of a command on a key, with the two indices of a window, outside a transaction. -/
structure WindowCall (c : Cmd) (argv : Args) (tx : Tx) (key : Bytes) (start stop : ℤ) : Prop where
  accepts : accepts c argv = true
  outside : tx.inMulti = false
  key : argv[1]? = some key
  start : HasInt argv 2 start
  stop : HasInt argv 3 stop

/-- It runs the handler, unless it is refused for want of memory. -/
theorem WindowCall.enters {start stop : ℤ} (h : WindowCall c argv tx key start stop)
    (hgate : gated env c w = false) (hcontrol : isControl c = false) : Enters env c argv tx w :=
  ⟨h.accepts, h.outside, hgate, hcontrol⟩

/-! ## A key that is not there -/

/-- A typed lookup of a key that is not there. -/
theorem withTyped_of_absent (h : Absent key w) (k : Kind T)
    (body : LookupResult → Handle → M Unit) :
    withTyped env k key body w = body .missing none { w with tick := w.tick + 1 } := by
  have hlookup : w.db.lookup w.cs.dbIndex key (env.nowMs w.tick) = (none, w.db) := by
    unfold Database.lookup
    rw [h]
  have hprobe : probe env k.type key w = .missing := by
    unfold probe live
    rw [hlookup]
  rw [Commands.withTyped_eq, hprobe]
  unfold afterLookup
  rw [hlookup]
  rfl

/-- A key that was deleted is not there. -/
theorem absent_delete (key : Bytes) (w : World) :
    Absent key { w with db := (w.db.delete w.cs.dbIndex key).2 } := by
  unfold Absent
  rw [Database.lookup_delete, if_pos ⟨rfl, rfl⟩]

/-! ## A key that is found -/

/-- A lookup of the key finds the entry `e`, whose value is `t`. -/
structure Finds (env : Env) (k : Kind T) (key : Bytes) (e : Entry) (t : T) (w : World) : Prop where
  live : live env key w = some e
  value : k.get e.value = some t

/-- The table has the entry `e` under the key, whose value is `t`. -/
structure Stores (k : Kind T) (key : Bytes) (e : Entry) (t : T) (w : World) : Prop where
  entry : (w.db.table w.cs.dbIndex).lookup key = some e
  value : k.get e.value = some t

namespace Finds

variable {e : Entry}

/-- What is found is stored. -/
theorem stores (h : Finds env k key e t w) : Stores k key e t (afterLookup env key w) := by
  obtain ⟨hentry, hdb⟩ := lookup_of_live h.live
  refine ⟨?_, h.value⟩
  rw [hdb]
  exact hentry

/-- The lookup counts as a reading of the clock, and changes nothing else. -/
theorem afterLookup_eq (h : Finds env k key e t w) :
    afterLookup env key w = { w with tick := w.tick + 1 } :=
  afterLookup_of_live h.live

/-- A typed lookup goes on with the value. -/
theorem withTyped_eq (h : Finds env k key e t w) (body : LookupResult → Handle → M Unit) :
    withTyped env k key body w = body .found (some key) (afterLookup env key w) := by
  have hprobe : probe env k.type key w = .found := by
    unfold probe
    rw [h.live]
    exact if_pos (k.type_of_get h.value)
  rw [Commands.withTyped_eq, hprobe]
  rfl

/-- Nothing is created. -/
theorem findOrCreate_eq (h : Finds env k key e t w) (empty : T) :
    findOrCreate env k empty key w = .ok (some key, afterLookup env key w) := by
  rw [findOrCreate_of_live h.live, if_pos (k.type_of_get h.value)]

end Finds

namespace Stores

variable {e : Entry}

/-- The value is found, if its deadline has not come. -/
theorem finds (h : Stores k key e t w) (hlive : Database.expired e (env.nowMs w.tick) = false) :
    Finds env k key e t w := by
  refine ⟨?_, h.value⟩
  unfold live Database.lookup
  rw [h.entry]
  dsimp only
  rw [hlive]
  rfl

/-- A read through the pointer. -/
theorem deref_bind (h : Stores k key e t w) (f : T → M β) :
    (deref k (some key) >>= f) w = f t w := by
  have hentry : Commands.entry key w = .ok (e, w) := by
    unfold Commands.entry
    rw [h.entry]
  unfold deref
  dsimp only
  rw [bind_apply, bind_apply, hentry, ok_bind]
  dsimp only
  rw [h.value]
  rfl

/-- The world after a write through the pointer. -/
theorem store_eq (h : Stores k key e t w) (t' : T) : store k (some key) t' w =
    .ok ((), { w with db := w.db.assign w.cs.dbIndex key { e with value := k.put t' } }) := by
  unfold store
  dsimp only
  unfold assignValue modifyEntry
  rw [h.entry]

/-- A write, and what comes after it. -/
theorem store_bind (h : Stores k key e t w) (t' : T) (f : Unit → M β) :
    (store k (some key) t' >>= f) w =
      f () { w with db := w.db.assign w.cs.dbIndex key { e with value := k.put t' } } := by
  rw [bind_apply, h.store_eq, ok_bind]

/-- A reply changes nothing stored. -/
theorem replied (h : Stores k key e t w) (v : Reply) : Stores k key e t (replied v w) :=
  ⟨h.entry, h.value⟩

/-- What was written is stored. -/
theorem assign (t' : T) : Stores k key { e with value := k.put t' } t'
    { w with db := w.db.assign w.cs.dbIndex key { e with value := k.put t' } } := by
  refine ⟨?_, k.get_put t'⟩
  dsimp only
  rw [Database.table_assign, if_pos rfl, AList.lookup_insert]

end Stores

/-- A world with one value, under the key `k`. -/
def worldWith (v : Value) : World :=
  let w := freshServer.world 0
  { w with db := w.db.set w.cs.dbIndex (bytes "k") v 0 }

/-- The value is found, since it has no deadline. -/
theorem finds_worldWith (env : Env) (k : Kind T) (t : T) :
    Finds env k (bytes "k") ⟨k.put t, 0⟩ t (worldWith (k.put t)) := by
  refine ⟨?_, k.get_put t⟩
  have hset : ((worldWith (k.put t)).db.table (worldWith (k.put t)).cs.dbIndex).lookup (bytes "k") =
      some ⟨k.put t, 0⟩ := by
    unfold worldWith
    dsimp only
    rw [Database.table_set, if_pos rfl, AList.lookup_insert]
  unfold Commands.live
  unfold Database.lookup Database.expired
  rw [hset]
  rfl

/-- A world with one value, under the key `k`, which expires at the time one. -/
def fleetingWorld (v : Value) : World :=
  let w := freshServer.world 0
  { w with db := w.db.set w.cs.dbIndex (bytes "k") v 1 }

end TinyRedis.Commands

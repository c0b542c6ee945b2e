import TinyRedis.Commands.SetOptions
import TinyRedis.Db.Contents

/-!
# Deadlines

`SET` with `EX` or `PX`, `SETEX`, `PSETEX`, and the four commands of the `EXPIRE` family compute a
deadline from a number that the client has sent. `Request` says what a call asks for: nothing, if an
argument is refused or the key is not as it should be, and a deadline otherwise. The numbers on the
way to the deadline are not checked, so the call overflows if one of them is out of range.
-/

namespace TinyRedis.Commands

open Lib Resp

variable {env : Env} {argv : Args} {tx : Tx} {c : Cmd} {w : World} {n : ℤ} {key : Bytes} {v : ℤ}
  {o : SetOptions} {m : M Unit} {e : Entry} {isAt ms : Bool} {t : ℕ}

/-! ## Numbers -/

/-- A signed 64-bit number. -/
def isInt64 (n : ℤ) : Bool := decide (-2^63 ≤ n ∧ n < 2^63)

/-- A number is checked. -/
theorem checked_eq (n : ℤ) (w : World) :
    checked n w = if isInt64 n then .ok (n, w) else .error .signedOverflow := by
  unfold checked isInt64
  by_cases h : -2^63 ≤ n ∧ n < 2^63
  · rw [if_pos h, if_pos (decide_eq_true h)]
    rfl
  · rw [if_neg h, if_neg fun hc => h (of_decide_eq_true hc)]
    rfl

/-- What comes after the check. -/
theorem checked_bind {β : Type} (n : ℤ) (f : ℤ → M β) (w : World) :
    (checked n >>= f) w = if isInt64 n then f n w else .error .signedOverflow := by
  rw [bind_apply, checked_eq]
  split_ifs <;> rfl

/-- A time after a reading of the clock. -/
theorem checked_sum_bind {β : Type} (now d : ℤ) (f : ℤ → M β) (w : World) :
    (checked d >>= fun d => checked (now + d) >>= f) w =
      if isInt64 d && isInt64 (now + d) then f (now + d) w else .error .signedOverflow := by
  rw [checked_bind, checked_bind]
  cases isInt64 d with
  | true => rfl
  | false => rfl

/-- Such a number is stored as it is. -/
theorem toInt_of_isInt64 (h : isInt64 n = true) : (Int64.ofInt n).toInt = n := by
  obtain ⟨hlo, hhi⟩ := of_decide_eq_true h
  exact Int64.toInt_ofInt_of_le hlo hhi

/-- A reading of the clock. -/
def clock (env : Env) (t : ℕ) : ℤ := (env.nowMs t).toInt

/-- The clock is read. -/
theorem nowMs_eq (env : Env) (w : World) :
    nowMs env w = .ok (clock env w.tick, { w with tick := w.tick + 1 }) := rfl

/-! ## Requests -/

/-- What a call asks for. -/
inductive Request where
  /-- The call is refused. -/
  | refused
  /-- The key is missing, or it is there and must not be. -/
  | declined
  /-- A deadline, and whether the numbers that are computed for it are in range. -/
  | stores (deadline : ℤ) (inRange : Bool)
  deriving DecidableEq

/-- A number that is computed is out of range. -/
def Request.overflows : Request → Bool
  | .stores _ inRange => !inRange
  | _ => false

/-- `SETEX` and `PSETEX`. -/
def setexRequest (env : Env) (scale : ℤ) (argv : Args) (w : World) : Request :=
  match positive (argv.getD 2 []) with
  | none => .refused
  | some v => .stores (clock env w.tick + v * scale)
      (isInt64 (v * scale) && isInt64 (clock env w.tick + v * scale))

/-- The argument of a command of the `EXPIRE` family, in milliseconds. -/
def expireMs (ms : Bool) (v : ℤ) : ℤ := if ms then v else v * 1000

/-- The deadline of such a command, with a reading of the clock. -/
def expireTime (env : Env) (isAt ms : Bool) (v : ℤ) (t : ℕ) : ℤ :=
  if isAt then expireMs ms v else clock env t + expireMs ms v

/-- The numbers on the way to it are in range. -/
def expireFits (env : Env) (isAt ms : Bool) (v : ℤ) (t : ℕ) : Bool :=
  isInt64 (expireMs ms v) && (isAt || isInt64 (clock env t + expireMs ms v))

/-- The reading of the clock after it. -/
def expireTick (isAt : Bool) (t : ℕ) : ℕ := if isAt then t else t + 1

/-- The commands of the `EXPIRE` family. -/
def expireRequest (env : Env) (isAt ms : Bool) (argv : Args) (w : World) : Request :=
  match parseIntStrict (argv.getD 2 []) with
  | none => .refused
  | some v =>
    if (live env (argv.getD 1 []) w).isNone then .declined
    else .stores (expireTime env isAt ms v (w.tick + 1)) (expireFits env isAt ms v (w.tick + 1))

/-- `EX` or `PX`, with a reading of the clock. -/
def optionDeadline (env : Env) (scale v expires : ℤ) (t : ℕ) : ℤ :=
  if 0 < v then clock env t + v * scale else expires

/-- The numbers of `EX` or `PX` are in range. -/
def optionFits (env : Env) (scale v : ℤ) (t : ℕ) : Bool :=
  !decide (0 < v) || (isInt64 (v * scale) && isInt64 (clock env t + v * scale))

/-- The reading of the clock after `EX` or `PX`. -/
def optionTick (v : ℤ) (t : ℕ) : ℕ := if 0 < v then t + 1 else t

/-- The deadline of `SET`. With `EX` and `PX` it is that of `PX`. -/
def setTime (env : Env) (o : SetOptions) (e : Option Entry) (t : ℕ) : ℤ :=
  optionDeadline env 1 o.pxMs (optionDeadline env 1000 o.exS (keepTtl o e) t) (optionTick o.exS t)

/-- The numbers on the way to it are in range, those of `EX` also where `PX` is given. -/
def setFits (env : Env) (o : SetOptions) (t : ℕ) : Bool :=
  optionFits env 1000 o.exS t && optionFits env 1 o.pxMs (optionTick o.exS t)

/-- The value under the key is there, and is not a string. -/
def notString (e : Option Entry) : Bool := e.any fun e => (stringKind.get e.value).isNone

/-- `NX` or `XX` is not met. -/
def unmet (o : SetOptions) (e : Option Entry) : Bool :=
  (e.isSome && o.nx) || (e.isNone && o.xx)

/-- `SET` after its options, where the key has the entry `e`. -/
def setWithRequest (env : Env) (o : SetOptions) (e : Option Entry) (t : ℕ) : Request :=
  if o.wantGet && notString e then .refused
  else if unmet o e then .declined
  else .stores (setTime env o e t) (setFits env o t)

/-- `SET`. -/
def setRequest (env : Env) (argv : Args) (w : World) : Request :=
  match setOptionsOf argv with
  | none => .refused
  | some o =>
    if o.nx && o.xx then .refused
    else setWithRequest env o (live env (argv.getD 1 []) w) (w.tick + 1)

/-- What a call of one of the commands asks for. -/
def request (env : Env) (c : Cmd) (argv : Args) (w : World) : Request :=
  match c with
  | .set => setRequest env argv w
  | .setex => setexRequest env 1000 argv w
  | .psetex => setexRequest env 1 argv w
  | .expire => expireRequest env false false argv w
  | .pexpire => expireRequest env false true argv w
  | .expireat => expireRequest env true false argv w
  | .pexpireat => expireRequest env true true argv w
  | _ => .refused

/-- The commands that set deadlines. -/
def setsDeadline (c : Cmd) : Bool :=
  c ∈ ([.set, .setex, .psetex, .expire, .pexpire, .expireat, .pexpireat] : List Cmd)

/-- They are seven. -/
theorem setsDeadline_iff : setsDeadline c = true ↔ c = .set ∨ c = .setex ∨ c = .psetex ∨
    c = .expire ∨ c = .pexpire ∨ c = .expireat ∨ c = .pexpireat := by
  unfold setsDeadline
  simp only [List.mem_cons, List.not_mem_nil, or_false, decide_eq_true_iff]

/-- None of them controls a transaction. -/
theorem isControl_of_setsDeadline (h : setsDeadline c = true) : isControl c = false := by
  obtain rfl | rfl | rfl | rfl | rfl | rfl | rfl := setsDeadline_iff.1 h <;> rfl

/-- A call that is refused replies an error and changes nothing. One that is declined changes
nothing, but that the lookup may drop an entry whose deadline has come. Otherwise the deadline under
the key is the one that the call asks for. -/
def Meets (env : Env) (r : Request) (key : Bytes) (w : World) (v : Reply) (w' : World) : Prop :=
  match r with
  | .refused => v.isError = true ∧ w'.db = w.db
  | .declined => w'.db = (afterLookup env key w).db
  | .stores deadline _ => ∃ e, (w'.db.table w.cs.dbIndex).lookup key = some e ∧
      e.expiresAtMs.toInt = deadline

/-- The handler does what the call asks for, or overflows. -/
def Fulfils (env : Env) (r : Request) (key : Bytes) (m : M Unit) (w : World) : Prop :=
  if r.overflows then m w = .error .signedOverflow
  else ∃ v w', m w = .ok ((), w') ∧ w'.out = w.out ++ v.encode ∧ Meets env r key w v w'

/-- It depends on what the handler does only. -/
theorem Fulfils.of_eq {r : Request} {m' : M Unit} (h : Fulfils env r key m w) (heq : m' w = m w) :
    Fulfils env r key m' w := by
  unfold Fulfils at h ⊢
  rw [heq]
  exact h

/-- A handler that replies an error. -/
theorem fulfils_refused (h : ∃ s, m w = .ok ((), replied (.error s) w)) :
    Fulfils env .refused key m w := by
  obtain ⟨s, hs⟩ := h
  exact ⟨.error s, _, hs, rfl, rfl, rfl⟩

/-- A handler that stores a deadline, if the numbers are in range. -/
theorem fulfils_stores {deadline : ℤ} {inRange : Bool} {v : Reply} {w' : World}
    (hrun : m w = if inRange then .ok ((), w') else .error .signedOverflow)
    (hout : w'.out = w.out ++ v.encode) (hentry : (w'.db.table w.cs.dbIndex).lookup key = some e)
    (hdeadline : inRange = true → e.expiresAtMs.toInt = deadline) :
    Fulfils env (.stores deadline inRange) key m w := by
  cases inRange with
  | false => exact hrun
  | true => exact ⟨v, w', hrun, hout, e, hentry, hdeadline rfl⟩

/-! ## `SETEX` and `PSETEX` -/

/-- `SETEX` and `PSETEX` do what is asked. -/
theorem fulfils_setexWith (hargs : 3 < argv.length) (scale : ℤ) :
    Fulfils env (setexRequest env scale argv w) (argv.getD 1 []) (setexWith env argv scale) w := by
  unfold setexRequest
  cases hpos : positive (argv.getD 2 []) with
  | none =>
    refine fulfils_refused ?_
    unfold setexWith
    rw [arg_bind (by omega)]
    cases hparse : parseIntStrict (argv.getD 2 []) with
    | none => exact ⟨_, replyError_eq _ _⟩
    | some v =>
      dsimp only
      rw [if_pos (positive_eq_none hpos hparse)]
      exact ⟨_, replyError_eq _ _⟩
  | some v =>
    obtain ⟨hparse, hv⟩ := positive_eq_some hpos
    have hrun : setexWith env argv scale w =
        if isInt64 (v * scale) && isInt64 (clock env w.tick + v * scale) then
          .ok ((), replied (.simple (bytes "OK")) { w with
            db := w.db.set w.cs.dbIndex (argv.getD 1 []) (.rawString (argv.getD 3 []))
              (Int64.ofInt (clock env w.tick + v * scale)), tick := w.tick + 1 })
        else .error .signedOverflow := by
      unfold setexWith
      rw [arg_bind (by omega), hparse]
      dsimp only
      rw [if_neg (by omega), bind_apply, nowMs_eq, ok_bind, checked_sum_bind,
        arg_bind (by omega), arg_bind (by omega)]
      split_ifs
      · exact replySimple_eq _ _
      · rfl
    exact fulfils_stores hrun rfl
      ((Database.lookup_set _ _ _ _ _ _ _).trans (if_pos ⟨rfl, rfl⟩))
      fun hgood => toInt_of_isInt64 (Bool.and_eq_true_iff.1 hgood).2

/-! ## The `EXPIRE` family -/

/-- The deadline is computed. -/
theorem expireDeadline_eq (isAt ms : Bool) (v : ℤ) (w : World) :
    expireDeadline env isAt ms v w = if expireFits env isAt ms v w.tick then
      .ok (expireTime env isAt ms v w.tick, { w with tick := expireTick isAt w.tick })
    else .error .signedOverflow := by
  cases isAt with
  | true =>
    have hfits : expireFits env true ms v w.tick = isInt64 (expireMs ms v) := Bool.and_true _
    rw [hfits]
    exact checked_eq (expireMs ms v) w
  | false =>
    show (nowMs env >>= fun now => checked (expireMs ms v) >>= fun d => checked (now + d)) w = _
    rw [bind_apply, nowMs_eq, ok_bind, ← bind_pure (checked (expireMs ms v) >>= _), bind_assoc,
      checked_sum_bind]
    rfl

/-- It is in range then. -/
theorem isInt64_expireTime (h : expireFits env isAt ms v t = true) :
    isInt64 (expireTime env isAt ms v t) = true := by
  obtain ⟨hms, hsum⟩ := Bool.and_eq_true_iff.1 h
  cases isAt with
  | true => exact hms
  | false => exact hsum

/-- The world after a command of the `EXPIRE` family has set a deadline. -/
def afterExpire (isAt : Bool) (deadline : ℤ) (key : Bytes) (e : Entry) (w : World) : World :=
  replied (.int 1) { w with
    db := w.db.assign w.cs.dbIndex key { e with expiresAtMs := Int64.ofInt deadline },
    tick := expireTick isAt (w.tick + 1) }

/-- The deadline of the entry under the key is set. -/
theorem assignDeadline_eq (h : (w.db.table w.cs.dbIndex).lookup key = some e) (d : Int64) :
    assignDeadline key d w = .ok ((), { w with
      db := w.db.assign w.cs.dbIndex key { e with expiresAtMs := d } }) := by
  unfold assignDeadline modifyEntry
  rw [h]

/-- The deadline of a key that is found is set. -/
theorem cmdExpire_found (hargs : 2 < argv.length)
    (hparse : parseIntStrict (argv.getD 2 []) = some v)
    (hlive : live env (argv.getD 1 []) w = some e) :
    cmdExpire env argv isAt ms w = if expireFits env isAt ms v (w.tick + 1) then
      .ok ((), afterExpire isAt (expireTime env isAt ms v (w.tick + 1)) (argv.getD 1 []) e w)
    else .error .signedOverflow := by
  have hentry := (lookup_of_live hlive).1
  unfold cmdExpire
  rw [arg_bind (by omega), arg_bind (by omega), hparse]
  dsimp only
  rw [lookup_bind, hlive, afterLookup_of_live hlive]
  dsimp only
  rw [bind_apply, expireDeadline_eq]
  dsimp only
  split_ifs
  · rw [ok_bind, bind_apply]
    dsimp only
    rw [assignDeadline_eq (w := { w with tick := expireTick isAt (w.tick + 1) }) hentry, ok_bind]
    exact replyInt_eq _ _
  · rfl

/-- A key that is missing is left alone. -/
theorem cmdExpire_missing (hargs : 2 < argv.length)
    (hparse : parseIntStrict (argv.getD 2 []) = some v)
    (hlive : live env (argv.getD 1 []) w = none) :
    cmdExpire env argv isAt ms w =
      .ok ((), replied (.int 0) (afterLookup env (argv.getD 1 []) w)) := by
  unfold cmdExpire
  rw [arg_bind (by omega), arg_bind (by omega), hparse]
  dsimp only
  rw [lookup_bind, hlive]
  exact replyInt_eq _ _

/-- The commands of the family do what is asked. -/
theorem fulfils_cmdExpire (hargs : 2 < argv.length) (isAt ms : Bool) :
    Fulfils env (expireRequest env isAt ms argv w) (argv.getD 1 []) (cmdExpire env argv isAt ms)
      w := by
  unfold expireRequest
  cases hparse : parseIntStrict (argv.getD 2 []) with
  | none =>
    refine fulfils_refused ?_
    unfold cmdExpire
    rw [arg_bind (by omega), arg_bind (by omega), hparse]
    exact ⟨_, replyError_eq _ _⟩
  | some v =>
    dsimp only
    cases hlive : live env (argv.getD 1 []) w with
    | none => exact ⟨_, _, cmdExpire_missing hargs hparse hlive, rfl, rfl⟩
    | some e =>
      refine fulfils_stores (cmdExpire_found hargs hparse hlive) rfl
        ((Database.lookup_assign _ _ _ _ _ _).trans (if_pos ⟨rfl, rfl⟩)) fun hfits => ?_
      exact toInt_of_isInt64 (isInt64_expireTime hfits)

/-! ## `SET` -/

/-- The deadline of one option. -/
theorem deadlineIn_eq (scale v expires : ℤ) (w : World) :
    deadlineIn env scale v expires w = if optionFits env scale v w.tick then
      .ok (optionDeadline env scale v expires w.tick, { w with tick := optionTick v w.tick })
    else .error .signedOverflow := by
  unfold deadlineIn optionFits optionDeadline optionTick
  by_cases h : 0 < v
  · rw [if_pos h, if_pos h, if_pos h, decide_eq_true h, bind_apply, nowMs_eq, ok_bind,
      ← bind_pure (checked (v * scale) >>= _), bind_assoc, checked_sum_bind]
    rfl
  · rw [if_neg h, if_neg h, if_neg h, decide_eq_false h]
    rfl

/-- The deadline of both. -/
theorem setDeadline_eq (o : SetOptions) (e : Option Entry) (w : World) :
    setDeadline env o e w = if setFits env o w.tick then
      .ok (setTime env o e w.tick, { w with tick := optionTick o.pxMs (optionTick o.exS w.tick) })
    else .error .signedOverflow := by
  unfold setDeadline setFits
  rw [bind_apply, deadlineIn_eq]
  cases optionFits env 1000 o.exS w.tick with
  | true => exact deadlineIn_eq _ _ _ _
  | false => rfl

/-- So is one that is kept. -/
theorem isInt64_keepTtl (o : SetOptions) (e : Option Entry) : isInt64 (keepTtl o e) = true := by
  unfold keepTtl
  cases e with
  | none => rfl
  | some e =>
    dsimp only
    split_ifs
    · exact decide_eq_true ⟨Int64.le_toInt _, Int64.toInt_lt _⟩
    · rfl

/-- So is that of an option. -/
theorem isInt64_optionDeadline {scale expires : ℤ} (hfits : optionFits env scale v t = true)
    (h : isInt64 expires = true) : isInt64 (optionDeadline env scale v expires t) = true := by
  unfold optionDeadline
  unfold optionFits at hfits
  by_cases hv : 0 < v
  · rw [decide_eq_true hv] at hfits
    rw [if_pos hv]
    exact (Bool.and_eq_true_iff.1 hfits).2
  · rw [if_neg hv]
    exact h

/-- So is that of both. -/
theorem isInt64_setTime {e : Option Entry} (h : setFits env o t = true) :
    isInt64 (setTime env o e t) = true := by
  obtain ⟨hex, hpx⟩ := Bool.and_eq_true_iff.1 h
  exact isInt64_optionDeadline hpx (isInt64_optionDeadline hex (isInt64_keepTtl o e))

/-- What `GET` replies. -/
def oldReply : Option Entry → Reply
  | none => .nullBulk
  | some e =>
    match stringKind.get e.value with
    | some s => .bulk s
    | none => .error (bytes "WRONGTYPE Operation against a key holding the wrong kind of value")

/-- For another value, this is an error. -/
theorem oldReply_of_notString {r : Option Entry} (h : notString r = true) : ∃ e, r = some e ∧
    oldReply r =
      .error (bytes "WRONGTYPE Operation against a key holding the wrong kind of value") := by
  cases r with
  | none => exact absurd h Bool.false_ne_true
  | some e =>
    refine ⟨e, rfl, ?_⟩
    have hget : stringKind.get e.value = none := Option.isNone_iff_eq_none.1 h
    unfold oldReply
    dsimp only
    rw [hget]

/-- The reply of `SET`: the old value if that is asked for, and `v` otherwise. -/
def setReply (o : SetOptions) (e : Option Entry) (v : Reply) : Reply :=
  if o.wantGet then oldReply e else v

/-- It is replied, if it is asked for. -/
theorem setReplyOld_get (h : o.wantGet = true) (e : Option Entry) (w : World) :
    setReplyOld o e w = .ok (!notString e, replied (oldReply e) w) := by
  unfold setReplyOld oldReply notString
  rw [h]
  cases e with
  | none =>
    show (replyNullBulk >>= fun _ => pure true) w = _
    rw [bind_apply, replyNullBulk_eq]
    rfl
  | some e =>
    rw [Option.any_some]
    dsimp only
    cases stringKind.get e.value with
    | none =>
      show (errWrongType >>= fun _ => pure false) w = _
      rw [bind_apply]
      unfold errWrongType
      rw [replyError_eq]
      rfl
    | some s =>
      show (replyBulk s >>= fun _ => pure true) w = _
      rw [bind_apply, replyBulk_eq]
      rfl

/-- `SET` after the lookup, where the old value is not asked for or is a string. -/
def setRest (env : Env) (o : SetOptions) (e : Option Entry) (key val : Bytes) : M Unit :=
  if unmet o e then
    if !o.wantGet then replyNullBulk else pure ()
  else do
    let expires ← setDeadline env o e
    set key (.rawString val) (Int64.ofInt expires)
    if !o.wantGet then replySimple (bytes "OK") else pure ()

/-- `SET` up to there, and the rest. -/
theorem setWith_eq (env : Env) (o : SetOptions) (key val : Bytes) (w : World) :
    setWith env o key val w =
      if o.wantGet && notString (live env key w) then
        .ok ((), replied (oldReply (live env key w)) (afterLookup env key w))
      else setRest env o (live env key w) key val
        (if o.wantGet then replied (oldReply (live env key w)) (afterLookup env key w)
          else afterLookup env key w) := by
  unfold setWith setRest unmet
  rw [lookup_bind, bind_apply]
  cases hg : o.wantGet with
  | false =>
    have hold : setReplyOld o (live env key w) = pure true := by
      unfold setReplyOld
      rw [hg]
      rfl
    rw [hold]
    rfl
  | true =>
    rw [setReplyOld_get hg, ok_bind]
    cases hn : notString (live env key w) with
    | true => rfl
    | false => rfl

/-- Where the old value has been replied, `SET` replies nothing more. -/
theorem setRest_declined {e : Option Entry} (h : unmet o e = true) (key val : Bytes) (w : World) :
    setRest env o e key val (if o.wantGet then replied (oldReply e) w else w) =
      .ok ((), replied (setReply o e .nullBulk) w) := by
  unfold setRest setReply
  rw [if_pos h]
  cases o.wantGet with
  | false => exact replyNullBulk_eq w
  | true => rfl

/-- It stores the deadline, if the numbers are in range. -/
theorem setRest_stores {e : Option Entry} (h : unmet o e = false) (key val : Bytes) (w : World) :
    setRest env o e key val (if o.wantGet then replied (oldReply e) w else w) =
      if setFits env o w.tick then
        .ok ((), replied (setReply o e (.simple (bytes "OK"))) { w with
          db := w.db.set w.cs.dbIndex key (.rawString val) (Int64.ofInt (setTime env o e w.tick)),
          tick := optionTick o.pxMs (optionTick o.exS w.tick) })
      else .error .signedOverflow := by
  unfold setRest setReply
  rw [if_neg (Bool.not_eq_true _ ▸ h), bind_apply]
  cases o.wantGet with
  | false =>
    rw [if_neg Bool.false_ne_true, setDeadline_eq]
    cases setFits env o w.tick with
    | false => rfl
    | true => exact replySimple_eq _ _
  | true =>
    have htick : (replied (oldReply e) w).tick = w.tick := rfl
    rw [if_pos rfl, setDeadline_eq, htick]
    cases setFits env o w.tick with
    | false => rfl
    | true => rfl

/-- `SET` after its options does what is asked. -/
theorem fulfils_setWith (o : SetOptions) (key val : Bytes) (w : World) :
    Fulfils env (setWithRequest env o (live env key w) (w.tick + 1)) key (setWith env o key val)
      w := by
  have hrun := setWith_eq env o key val w
  unfold setWithRequest
  by_cases hget : (o.wantGet && notString (live env key w)) = true
  · rw [if_pos hget] at hrun ⊢
    obtain ⟨e, he, hold⟩ := oldReply_of_notString (Bool.and_eq_true_iff.1 hget).2
    refine ⟨_, _, hrun, rfl, ?_, (lookup_of_live he).2⟩
    rw [hold]
    rfl
  · rw [if_neg hget] at hrun ⊢
    cases hunmet : unmet o (live env key w) with
    | true =>
      rw [setRest_declined hunmet] at hrun
      exact ⟨_, _, hrun, rfl, rfl⟩
    | false =>
      rw [setRest_stores hunmet] at hrun
      refine fulfils_stores hrun rfl
        ((Database.lookup_set _ _ _ _ _ _ _).trans (if_pos ⟨rfl, rfl⟩)) fun hfits => ?_
      exact toInt_of_isInt64 (isInt64_setTime hfits)

/-- `SET` does what is asked. -/
theorem fulfils_cmdSet (hargs : 2 < argv.length) :
    Fulfils env (setRequest env argv w) (argv.getD 1 []) (cmdSet env argv) w := by
  unfold setRequest
  cases ho : setOptionsOf argv with
  | none => exact fulfils_refused ⟨_, cmdSet_of_syntax hargs ho⟩
  | some o =>
    have hrun : cmdSet env argv w = _ := cmdSet_of_options hargs ho
    dsimp only
    split_ifs at hrun ⊢
    · exact fulfils_refused ⟨_, hrun⟩
    · exact (fulfils_setWith o (argv.getD 1 []) (argv.getD 2 []) w).of_eq hrun

/-! ## Calls -/

/-- All seven do what is asked. -/
theorem fulfils_handler (hc : setsDeadline c = true) (h : accepts c argv = true) (lower : Bytes) :
    Fulfils env (request env c argv w) (argv.getD 1 []) (handler env lower argv c) w := by
  -- The arguments that the handlers read are there, since the table asks for them.
  have hargs := minArgs_le_of_accepts h
  obtain rfl | rfl | rfl | rfl | rfl | rfl | rfl := setsDeadline_iff.1 hc
  · exact fulfils_cmdSet hargs
  · exact fulfils_setexWith hargs 1000
  · exact fulfils_setexWith hargs 1
  · exact fulfils_cmdExpire hargs false false
  · exact fulfils_cmdExpire hargs false true
  · exact fulfils_cmdExpire hargs true false
  · exact fulfils_cmdExpire hargs true true

/-- What a call asks for. It is refused if it does not reach the handler. -/
def asked (env : Env) (c : Cmd) (argv : Args) (tx : Tx) (w : World) : Request :=
  if reaches env c argv tx w then request env c argv w else .refused

/-- The call returns. Its reply is an error and nothing has changed, or the deadline under the key
is the exact one, if it asks for one. -/
def DeadlineExact (env : Env) (depth : ℕ) (c : Cmd) (argv : Args) (tx : Tx) (w : World) : Prop :=
  ∃ v w', Answers env depth argv tx w v w' ∧
    Meets env (asked env c argv tx w) (argv.getD 1 []) w v w'

/-- The commands that compute deadlines store the exact one, or reply an error and change nothing,
if and only if the numbers that are computed are in range. The commands of a transaction are
dispatched in the same way when it is executed. -/
theorem deadline_exact_iff (hcmd : commandOf argv = some c) (hc : setsDeadline c = true)
    (htx : tx.inMulti = false) (depth : ℕ) :
    DeadlineExact env depth c argv tx w ↔ (asked env c argv tx w).overflows = false := by
  have hcontrol := isControl_of_setsDeadline hc
  unfold DeadlineExact asked
  cases hreach : reaches env c argv tx w with
  | false =>
    obtain ⟨s, hanswers⟩ := answers_refused hcmd hcontrol htx hreach depth
    exact iff_of_true ⟨_, _, hanswers, rfl, rfl⟩ rfl
  | true =>
    have henters := enters_of_reaches hreach hcontrol
    have hfulfils : Fulfils env (request env c argv w) _ _ w :=
      fulfils_handler hc henters.accepts (lowerName argv)
    unfold Fulfils at hfulfils
    rw [if_pos rfl]
    cases hover : (request env c argv w).overflows with
    | true =>
      rw [hover, if_pos rfl] at hfulfils
      have hfault := (henters.error_iff depth).2 hfulfils
      refine iff_of_false ?_ Bool.false_ne_true.symm
      rintro ⟨v, w', hanswers, -⟩
      cases hfault.symm.trans hanswers.run
    | false =>
      rw [hover, if_neg Bool.false_ne_true] at hfulfils
      obtain ⟨v, w', hrun, hout, hmeets⟩ := hfulfils
      exact iff_of_true ⟨v, w', henters.answers depth hrun hout, hmeets⟩ rfl

/-- `EXPIRE k 10` on a list. -/
theorem deadline_exact_iff_ten :
    DeadlineExact stillEnv 0 .expire [bytes "EXPIRE", bytes "k", bytes "10"] .idle
      (worldWith (.list [bytes "a"])) :=
  (deadline_exact_iff (by decide +kernel) rfl rfl 0).2 (by decide +kernel)

/-- `SETEX k 9223372036854775807 v`. -/
theorem setex_overflows :
    dispatch stillEnv 1 [bytes "SETEX", bytes "k", bytes "9223372036854775807", bytes "v"] .idle
        (worldWith (.list [bytes "a"])) = .error .signedOverflow ∧
      ¬DeadlineExact stillEnv 0 .setex
        [bytes "SETEX", bytes "k", bytes "9223372036854775807", bytes "v"] .idle
        (worldWith (.list [bytes "a"])) := by
  have hrun : dispatch stillEnv 1
      [bytes "SETEX", bytes "k", bytes "9223372036854775807", bytes "v"] .idle
      (worldWith (.list [bytes "a"])) = .error .signedOverflow :=
    eq_error_of_errorOf (by decide +kernel)
  refine ⟨hrun, ?_⟩
  rintro ⟨v, w', hanswers, -⟩
  cases hrun.symm.trans hanswers.run

end TinyRedis.Commands

import TinyRedis.Commands.Rules.Basic

/-!
# String commands obey the rules

`GetOrCreateStringEntry` puts an empty string in before its callers have checked their arguments.
`INCR` and its relatives get away with it: the empty string counts as zero, and zero plus a number
that was parsed is in range. `INCRBYFLOAT` does not.
-/

namespace TinyRedis.Commands

open Lib Resp List

variable {r : Rules} {p : Phase} {argv : Args} {lower key : Bytes} {n : ℕ} {s : Bytes} {i : ℕ}
  {delta : ℤ}

/-! ## Numbers -/

/-- What `strtoll` finds is in range. -/
theorem strtoll_bounds (s : Bytes) : -2^63 ≤ (strtoll s).value ∧ (strtoll s).value < 2^63 := by
  unfold strtoll
  dsimp only
  split_ifs <;> dsimp only <;> omega

/-- A number that is accepted is in range. -/
theorem parseIntStrict_bounds {n : ℤ} (h : parseIntStrict s = some n) : -2^63 ≤ n ∧ n < 2^63 := by
  unfold parseIntStrict at h
  dsimp only at h
  split_ifs at h
  cases h
  exact strtoll_bounds s

/-- Zeros are only taken away. -/
theorem length_trimZeros_le (s : Bytes) : (trimZeros s).length ≤ s.length := by
  have hr : (s.reverse.dropWhile (· == 48)).length ≤ s.length := by
    have hle := (dropWhile_sublist (l := s.reverse) (· == 48)).length_le
    rwa [length_reverse] at hle
  unfold trimZeros
  dsimp only
  generalize s.reverse.dropWhile (· == 48) = r at hr ⊢
  split
  · rw [length_reverse]
    exact (Nat.le_succ _).trans hr
  · rw [length_reverse]
    exact hr

/-- The text of a number fits its buffer of 128 bytes. -/
theorem idle_formatLongDouble (fl : Floats) (d : LongDouble) :
    Idle (formatLongDouble fl d) fun s => s.length < 128 := by
  have hzero : ∀ s t : Bytes, s.length < 128 →
      (if s = t then bytes "0" else s).length < 128 := by
    intro s t hs
    split_ifs
    · decide
    · exact hs
  have hbuf : ((fl.printLong d).take 127).length < 128 :=
    Nat.lt_succ_of_le (length_take_le _ _)
  unfold formatLongDouble
  refine .ite (fun _ => .pure (by decide)) fun _ => .ite (fun _ => .pure ?_) fun _ => ?_
  · split_ifs
    · decide
    · decide
  refine .ite (fun _ => .pure (by decide)) fun _ => .ite (fun _ => .pure (by decide)) fun _ => ?_
  refine .ite (fun _ => .ite (fun _ => .fault trivial) fun _ => ?_) fun _ => .pure ?_
  · exact .ite (fun _ => .pure hbuf) fun _ =>
      .pure (hzero _ _ ((length_trimZeros_le _).trans_lt hbuf))
  · split_ifs
    · decide
    · exact hbuf

/-! ## Reading -/

/-- The string that was found. -/
theorem obeys_replyString {st : LookupResult} {h : Handle} {Q : Unit → Phase → Prop} {N : Prop}
    (hst : p.Points N st h) (ha : p.answer = .none) (hQ : Q () (p.reply (.left 0))) :
    Obeys r p (replyString st h) Q := by
  rcases hst with ⟨-, rfl, rfl⟩ | ⟨key, hkey, rfl, rfl⟩
  · exact .whole utters_replyNullBulk ha hQ
  · exact .deref hkey fun s _ => .whole (utters_replyBulk s) ha hQ

/-- `GET`. -/
theorem obeys_cmdGet (h : r.Serves argv 2) : Obeys r .start (cmdGet r.env argv) Finished :=
  h.read fun _ _ _ _ _ _ ha hst => obeys_replyString hst ha (.inr rfl)

/-- `GETRANGE`. -/
theorem obeys_getrange (h : r.Serves argv 4) : Obeys r .start (getrange r.env argv) Finished :=
  h.read fun _ _ _ _ _ hp ha hst => .derefOr hst fun _ _ => h.argIntAt hp ha fun _ =>
    h.argIntAt hp ha fun _ => .finish (utters_replyBulk _) ha

/-- `STRLEN`. -/
theorem obeys_strlen (h : r.Serves argv 2) : Obeys r .start (strlen r.env argv) Finished :=
  h.look (fun _ => .done (utters_replyInt 0)) fun _ _ =>
    .deref Phase.mem_hold fun _ _ => .done (utters_replyInt _)

/-- One key of `MGET` is one element of the reply. -/
theorem obeys_mgetOne (h : r.Serves argv n) {k : ℕ} (hi : 1 ≤ i) (hlt : i < argv.length)
    (hp : p.stage = .clean) (ha : p.answer = .left (k + 1)) :
    Obeys r p (mgetOne r.env argv i ()) fun _ p' => p'.stage = .clean ∧ p'.answer = .left k := by
  refine .argLt hlt fun key hkey => ?_
  have hnull : Obeys r p.looked replyNullBulk fun _ p' => p'.stage = .clean ∧ p'.answer = .left k :=
    .element utters_replyNullBulk ha ⟨rfl, rfl⟩
  refine .getTyped (h.key hi hkey) (.inl hp) (fun _ => hnull) hnull fun _ => ?_
  exact .deref Phase.mem_hold fun s _ => .element (utters_replyBulk s) ha ⟨rfl, rfl⟩

/-- `MGET`. -/
theorem obeys_mget (h : r.Serves argv n) : Obeys r .start (mget r.env argv) Finished := by
  refine .replyArray rfl ?_
  -- Before the key at `i`, as many elements are missing as there are keys left.
  refine (Obeys.forArgs (I := fun i _ p => 1 ≤ i ∧ p.stage = .clean ∧
    p.answer = .left (argv.length - i)) Nat.one_pos ?_ 1 () ⟨le_refl 1, rfl, rfl⟩).imp ?_
  · rintro i ⟨⟩ p hlt ⟨hi, hp, ha⟩
    have hleft : argv.length - i = argv.length - (i + 1) + 1 := by omega
    rw [hleft] at ha
    exact (obeys_mgetOne h hi hlt hp ha).imp fun _ p' hp' => ⟨by omega, hp'⟩
  · rintro ⟨⟩ p ⟨j, hj, -, -, ha⟩
    rw [Nat.sub_eq_zero_of_le hj] at ha
    exact .inr ha

/-! ## `SET` -/

/-- One of the options of `SET`. -/
theorem obeys_setOption (h : r.Serves argv n) (hi : i < argv.length) (o : SetOptions) :
    Obeys r .start (setOption argv i o)
      (Step.Ends (fun j _ p => i < j ∧ p = .start) fun _ p => p.answer = .failed) := by
  have hstop : Obeys r .start (do
      errSyntax
      pure (Step.stop ()) : M (Step SetOptions Unit))
      (Step.Ends (fun j _ p => i < j ∧ p = .start) fun _ p => p.answer = .failed) :=
    .fails fails_errSyntax h.lines (.inl rfl) rfl (.pure rfl)
  have hnext : ∀ (j : ℕ) (o : SetOptions), i < j →
      Obeys r .start (pure (.next j o) : M (Step SetOptions Unit))
        (Step.Ends (fun j _ p => i < j ∧ p = .start) fun _ p => p.answer = .failed) :=
    fun j o hj => .pure ⟨hj, rfl⟩
  unfold setOption
  refine .argLt hi fun s _ => ?_
  refine .ite (fun _ => hnext _ _ (by omega)) fun _ => ?_
  refine .ite (fun _ => hnext _ _ (by omega)) fun _ => ?_
  refine .ite (fun _ => hnext _ _ (by omega)) fun _ => ?_
  refine .ite (fun _ => hnext _ _ (by omega)) fun _ => ?_
  -- `EX` and `PX` look one argument ahead, if there is one.
  refine .ite (fun hex => .argLt hex.2 fun v _ => ?_) fun _ => ?_
  · cases parseIntStrict v with
    | none => exact hstop
    | some exS => exact .ite (fun _ => hstop) fun _ => hnext _ _ (by omega)
  refine .ite (fun hpx => .argLt hpx.2 fun v _ => ?_) fun _ => hstop
  cases parseIntStrict v with
  | none => exact hstop
  | some pxMs => exact .ite (fun _ => hstop) fun _ => hnext _ _ (by omega)

/-- With `GET` the reply is there before anything is written, and without it there is none yet. -/
def SetReplied (o : SetOptions) (p : Phase) : Prop :=
  (o.wantGet = true ∧ p.answer = .left 0) ∨ (o.wantGet = false ∧ p.answer = .none)

/-- `GET` replies an error to a value of another type, and nothing is written. -/
theorem obeys_setReplyOld (h : r.Serves argv n) (hp : p.stage = .clean) (ha : p.answer = .none)
    (o : SetOptions) (e : Option Entry) :
    Obeys r p (setReplyOld o e) fun go p' => (go = false ∧ p'.answer = .failed) ∨
      (go = true ∧ p'.stage = .clean ∧ SetReplied o p') := by
  unfold setReplyOld
  refine .ite (fun hget => ?_) fun hget => ?_
  · exact .pure (.inr ⟨rfl, hp, .inr ⟨by simpa using hget, ha⟩⟩)
  have hget : o.wantGet = true := by simpa using hget
  cases e with
  | none => exact .utter utters_replyNullBulk ha (.pure (.inr ⟨rfl, hp, .inl ⟨hget, rfl⟩⟩))
  | some e =>
    dsimp only
    cases stringKind.get e.value with
    | none => exact .fails fails_errWrongType h.lines (.inl hp) ha (.pure (.inl ⟨rfl, rfl⟩))
    | some s => exact .utter (utters_replyBulk s) ha (.pure (.inr ⟨rfl, hp, .inl ⟨hget, rfl⟩⟩))

/-- The reply without `GET`. -/
theorem obeys_unlessGet {m : M Unit} {o : SetOptions} (hm : Utters m) (hp : SetReplied o p) :
    Obeys r p (if !o.wantGet then m else pure ()) Finished := by
  rcases hp with ⟨hget, ha⟩ | ⟨hget, ha⟩
  · rw [hget]
    exact .pure (.inr ha)
  · rw [hget]
    exact .finish hm ha

/-- A deadline is computed from the clock. -/
theorem idle_deadlineIn (env : Env) (scale v expires : ℤ) :
    Idle (deadlineIn env scale v expires) fun _ => True :=
  .ite (fun _ => .bind (idle_nowMs env) fun _ _ => .bind (idle_checked _) fun _ _ =>
    (idle_checked _).forget) fun _ => .pure trivial

section

variable (hw : r.writes = true)
include hw

/-- What `SET` does once its options are read. -/
theorem obeys_setWith (h : r.Serves argv n) (o : SetOptions) {val : Bytes} (hkey : key ∈ r.keys)
    (hval : r.values (.rawString val)) : Obeys r .start (setWith r.env o key val) Finished := by
  have hrest : ∀ (e : Option Entry) (p : Phase), p.stage = .clean → p.answer = .none →
      Obeys r p (do
        let go ← setReplyOld o e
        if !go then pure ()
        else if (e.isSome && o.nx) || (e.isNone && o.xx) then
          if !o.wantGet then replyNullBulk else pure ()
        else do
          let expires ← setDeadline r.env o e
          set key (.rawString val) (Int64.ofInt expires)
          if !o.wantGet then replySimple (bytes "OK") else pure ()) Finished := by
    intro e p hp ha
    refine (obeys_setReplyOld h hp ha o e).bind fun go p' hgo => ?_
    rcases hgo with ⟨rfl, hfail⟩ | ⟨rfl, hclean, hreplied⟩
    · exact .pure (.inl hfail)
    refine .ite (fun hc => by cases hc) fun _ => ?_
    refine .ite (fun _ => obeys_unlessGet utters_replyNullBulk hreplied) fun _ => ?_
    refine .idle (.bind (idle_deadlineIn _ _ _ _) fun _ _ => idle_deadlineIn _ _ _ _)
      (Phase.settled hclean) fun expires _ => ?_
    have hmay : p'.MayWrite r :=
      Phase.mayWrite_of_clean hw hclean (hreplied.symm.imp And.right And.right)
    exact .set_bind hkey hmay hval (obeys_unlessGet (utters_replySimple (by decide)) hreplied)
  exact .lookup_bind hkey (.inl rfl) (fun _ => hrest none _ rfl rfl) fun e _ _ =>
    hrest (some e) _ rfl rfl

omit hw in
/-- An argument that is stored as a string. -/
theorem Rules.Serves.argument (h : r.Serves argv n) (hs : argv[i]? = some s) :
    r.values (.rawString s) :=
  h.strings.argument s (mem_of_getElem? hs)

/-- `SET`. -/
theorem obeys_cmdSet (h : r.Serves argv 3) : Obeys r .start (cmdSet r.env argv) Finished := by
  refine h.arg fun key hkey => h.arg fun val hval => ?_
  refine .options (fun i o hi => obeys_setOption h hi o) rfl fun _ o => ?_
  refine .ite (fun _ => h.fail fails_errSyntax) fun _ => ?_
  exact obeys_setWith hw h o (h.keys 0 key hkey) (h.argument hval)

/-! ## Writing whole values -/

/-- `SETNX`. -/
theorem obeys_setnx (h : r.Serves argv 3) : Obeys r .start (setnx r.env argv) Finished := by
  refine h.arg fun key hkey => .lookup_bind (h.keys 0 key hkey) (.inl rfl)
    (fun _ => ?_) fun e _ _ => .done (utters_replyInt 0)
  exact h.arg fun val hval => .set_bind (h.keys 0 key hkey) (Phase.mayWrite_start hw)
    (h.argument hval) (.done (utters_replyInt 1))

/-- `SETEX` and `PSETEX`, which differ in the unit of time. -/
theorem obeys_setexWith (h : r.Serves argv 4) (scale : ℤ) :
    Obeys r .start (setexWith r.env argv scale) Finished := by
  refine h.argInt fun v => .ite (fun _ => h.fail fails_errNotInt) fun _ => ?_
  refine .idle (idle_nowMs r.env) (Phase.settled rfl) fun now _ => .checked (.checked ?_)
  exact h.arg fun key hkey => h.arg fun val hval => .set_bind (h.keys 0 key hkey)
    (Phase.mayWrite_start hw) (h.argument hval) (.done (utters_replySimple (by decide)))

/-- `GETSET`. -/
theorem obeys_getset (h : r.Serves argv 3) : Obeys r .start (getset r.env argv) Finished := by
  refine h.read fun key p st d hkey hp ha hst => ?_
  refine (obeys_replyString (Q := fun _ p' => p'.stage = .clean ∧ p'.answer = .left 0) hst ha
    ⟨hp, rfl⟩).bind fun _ p' hp' => h.arg fun val hval => ?_
  have hmay : p'.MayWrite r := Phase.mayWrite_of_clean hw hp'.1 (.inr hp'.2)
  exact .set hkey hmay (h.argument hval) (.inr hp'.2)

/-- `GETDEL`. -/
theorem obeys_getdel (h : r.Serves argv 2) : Obeys r .start (getdel r.env argv) Finished := by
  refine h.look (fun _ => .done utters_replyNullBulk) fun key hkey => ?_
  refine .deref Phase.mem_hold fun s _ => .utter (utters_replyBulk s) rfl ?_
  exact .delete_bind (h.keys 0 key hkey) (.inl Phase.mem_hold) (Phase.mayWrite_start hw).hold.reply
    fun _ => .pure (.inr rfl)

omit hw in
/-- The loop of `MSET`: there is an argument after each key, as their number is even. -/
theorem obeys_msetLoop (h : r.Serves argv n) (heven : (argv.length - 1) % 2 = 0)
    (hp : p.MayWrite r) (ha : p.answer = .none) :
    Obeys r p (forArgs argv 2 (msetOne argv) 1 ()) fun _ p' => p'.answer = .none := by
  refine (Obeys.forArgs (I := fun i _ p => i % 2 = 1 ∧ p.MayWrite r ∧ p.answer = .none) Nat.two_pos
    ?_ 1 () ⟨rfl, hp, ha⟩).imp fun _ p' ⟨j, _, _, _, ha⟩ => ha
  rintro i ⟨⟩ p hlt ⟨hi, hp, ha⟩
  refine .argLt hlt fun key hkey => .argLt (by omega) fun val hval => ?_
  exact .set (h.key (by omega) hkey) hp (h.argument hval) ⟨by omega, hp.drop, ha⟩

omit hw in
/-- A wrong number of arguments, which is found in the handler. -/
theorem Obeys.wrongArgs (hlower : wrongArgsText lower ∈ r.text) (hp : p.stage = .clean)
    (ha : p.answer = .none) : Obeys r p (errWrongArgs lower) Finished :=
  .error hlower (.inl hp) ha (.inl rfl)

/-- `MSET`. -/
theorem obeys_mset (h : r.Serves argv n) (hlower : wrongArgsText lower ∈ r.text) :
    Obeys r .start (mset argv lower) Finished := by
  refine .ite (fun _ => .wrongArgs hlower rfl rfl) fun heven => ?_
  exact (obeys_msetLoop h (by omega) (Phase.mayWrite_start hw) rfl).bind fun _ p' ha =>
    .finish (utters_replySimple (by decide)) ha

/-- `MSETNX`. -/
theorem obeys_msetnx (h : r.Serves argv n) (hlower : wrongArgsText lower ∈ r.text) :
    Obeys r .start (msetnx r.env argv lower) Finished := by
  refine .ite (fun _ => .wrongArgs hlower rfl rfl) fun heven => ?_
  -- Nothing is written before all keys were looked up.
  refine (Obeys.argLoop (I := fun i _ p => 1 ≤ i ∧ p.stage = .clean ∧ p.answer = .none)
    (S := fun _ p => p.answer = .left 0) ?_ argv.length 1 () (by omega)
    ⟨le_refl 1, rfl, rfl⟩).bind fun s p hs => ?_
  · rintro i ⟨⟩ p hlt ⟨hi, hp, ha⟩
    refine .argLt hlt fun key hkey => .lookup_bind (h.key hi hkey) (.inl hp)
      (fun _ => .pure ⟨by omega, by omega, rfl, ha⟩) fun e _ _ => ?_
    exact .utter (utters_replyInt 0) ha (.pure rfl)
  · cases s with
    | stop _ => exact .pure (.inr hs)
    | next _ _ =>
      obtain ⟨-, -, hp, ha⟩ := hs
      have hmay : p.MayWrite r := Phase.mayWrite_of_clean hw hp (.inl ha)
      exact (obeys_msetLoop h (by omega) hmay ha).bind fun _ p' ha =>
        .finish (utters_replyInt 1) ha

end

/-! ## Writing into a value -/

/-- `SETRANGE`. -/
theorem obeys_setrange (h : r.Serves argv 4) (hw : r.writes = true)
    (hst : r.Creates .kString argv) : Obeys r .fresh (setrange r.env argv) Finished := by
  have hoffset : Obeys r .fresh (replyError (bytes "ERR offset is out of range")) Finished :=
    .settle (h.fail ⟨_, rfl, by decide⟩)
  refine h.arg fun a _ => ?_
  cases parseIntStrict a with
  | none => exact hoffset
  | some offset =>
    refine .ite (fun _ => hoffset) fun hneg => h.arg fun v hv => .checked ?_
    refine .ite (fun _ => .settle (h.fail ⟨_, rfl, by decide⟩)) fun hlimit => ?_
    refine h.create hw hst r.stable.emptyString (fun _ => rfl) fun key p ho _ => ?_
    refine .deref ho.held fun s hs => ho.put ?_ (utters_replyInt _)
    exact h.strings.overwrite s v offset.toNat (mem_of_getElem? hv) hs (by omega)

/-- `APPEND`. -/
theorem obeys_append (h : r.Serves argv 3) (hw : r.writes = true) (hst : r.Creates .kString argv)
    (happend : ∀ s, r.values (.rawString s) → r.values (.rawString (s ++ argv.getD 2 []))) :
    Obeys r .fresh (append r.env argv) Finished := by
  refine h.create hw hst r.stable.emptyString (fun _ => rfl) fun key p ho _ => ?_
  refine .deref ho.held fun s hs => h.arg fun v hv => ?_
  have hv : v = argv.getD 2 [] := by
    rw [getD_eq_getElem?_getD, hv]
    rfl
  subst hv
  exact ho.put (happend s hs) (utters_replyInt _)

section

variable (hlines : ∀ s, OneLine s → s ∈ r.text)
  (hnumber : ∀ s : Bytes, s.length < 128 → r.values (.rawString s))
include hlines hnumber

/-- An integer is checked before it is written. The check does not fail on the empty string. -/
theorem obeys_incrByInt (ho : r.Owns key p)
    (hclean : p.stage = .clean ∨ (s = [] ∧ -2^63 ≤ delta ∧ delta < 2^63)) :
    Obeys r p (incrByInt (some key) s delta) Finished := by
  have hstore : ∀ res : ℤ, -2^63 ≤ res → res < 2^63 → Obeys r p (do
      store stringKind (some key) (printInt res)
      replyInt res) Finished := fun res hlo hhi =>
    ho.put (hnumber _ (length_printInt_lt hlo hhi)) (utters_replyInt res)
  unfold incrByInt
  dsimp only
  rcases hclean with hclean | ⟨rfl, hlo, hhi⟩
  · cases (if s = [] then some 0 else parseIntStrict s) with
    | none => exact .fail fails_errNotInt hlines (.inl hclean) ho.answer
    | some cur =>
      refine .ite (fun _ => ?_) fun hres => hstore _ (by omega) (by omega)
      exact .fail fails_errNotInt hlines (.inl hclean) ho.answer
  · rw [if_pos rfl]
    exact .ite (fun hc => by omega) fun hres => hstore _ (by omega) (by omega)

/-- The float that `INCRBYFLOAT` finds is checked only after the key was created. -/
theorem obeys_incrByFloat (hread : argv.length ≤ 2 → r.faults (.argvIndex 2)) (ho : r.Owns key p)
    (hlax : r.lax = true) :
    Obeys r p (incrByFloat r.env argv (some key) s) Finished := by
  unfold incrByFloat
  dsimp only
  cases (if s = [] then some r.env.floats.zeroLong else parseLongDoubleStrict r.env.floats s) with
  | none => exact .fail fails_errNotFloat hlines (.inr hlax) ho.answer
  | some cur =>
    refine .arg hread fun a _ => ?_
    cases parseLongDoubleStrict r.env.floats a with
    | none => exact .fail fails_errNotFloat hlines (.inr hlax) ho.answer
    | some delta =>
      refine .ite (fun _ => .fail fails_errIncrOverflow hlines (.inr hlax) ho.answer) fun _ => ?_
      refine .idle (idle_formatLongDouble _ _) ho.may.settled fun text htext => ?_
      exact ho.put (hnumber text htext) (utters_replyBulk text)

/-- `CmdIncrBy` names one key, whatever else is in its arguments. -/
theorem obeys_cmdIncrBy (hkeys : ∀ s, argv[1]? = some s → s ∈ r.keys) (hw : r.writes = true)
    (hst : r.Creates .kString argv) (hread : argv.length ≤ 1 → r.faults (.argvIndex 1))
    {isFloat : Bool}
    (hfloat : isFloat = true → r.lax = true ∧ (argv.length ≤ 2 → r.faults (.argvIndex 2)))
    (hlo : -2^63 ≤ delta) (hhi : delta < 2^63) :
    Obeys r .fresh (cmdIncrBy r.env argv delta isFloat) Finished := by
  refine .arg hread fun key hkey => ?_
  refine .create hlines (hkeys key hkey) hw (hst key hkey) r.stable.emptyString rfl
    fun p ho hclean => ?_
  have hrest : ∀ s, p.stage = .clean ∨ s = [] → Obeys r p (if isFloat = true then
      incrByFloat r.env argv (some key) s else incrByInt (some key) s delta) Finished := by
    intro s hs
    refine .ite (fun hf => ?_) fun _ => ?_
    · exact obeys_incrByFloat hlines hnumber (hfloat hf).2 ho (hfloat hf).1
    · exact obeys_incrByInt hlines hnumber ho (hs.imp_right fun hs => ⟨hs, hlo, hhi⟩)
  rcases hclean with hclean | hcreated
  · exact .deref ho.held fun s _ => hrest s (.inl hclean)
  · exact .deref_created (k := stringKind) (t := []) ho.held hcreated (hrest [] (.inr rfl))

end

section

variable (hw : r.writes = true) (hst : r.Creates .kString argv)
include hw hst

/-- `INCR` and `DECR`, whose arguments are put together anew. -/
theorem obeys_incrOne (h : r.Serves argv 2) {text : Bytes} (hlo : -2^63 ≤ delta)
    (hhi : delta < 2^63) : Obeys r .fresh (do
      let name ← arg argv 0
      let key ← arg argv 1
      cmdIncrBy r.env [name, key, text] delta false) Finished := by
  refine h.arg fun name _ => h.arg fun key hkey => ?_
  refine obeys_cmdIncrBy h.lines h.strings.number (fun s hs => ?_) hw (fun s hs => ?_)
    (fun hc => absurd hc (by simp)) (fun hc => by cases hc) hlo hhi
  · cases hs
    exact h.keys 0 key hkey
  · cases hs
    exact hst key hkey

/-- `INCR`. -/
theorem obeys_incr (h : r.Serves argv 2) : Obeys r .fresh (incr r.env argv) Finished :=
  obeys_incrOne hw hst h (by decide) (by decide)

/-- `DECR`. -/
theorem obeys_decr (h : r.Serves argv 2) : Obeys r .fresh (decr r.env argv) Finished :=
  obeys_incrOne hw hst h (by decide) (by decide)

/-- `INCRBY`. -/
theorem obeys_incrby (h : r.Serves argv 3) : Obeys r .fresh (incrby r.env argv) Finished := by
  refine h.arg fun s _ => ?_
  cases hs : parseIntStrict s with
  | none => exact .settle (h.fail fails_errNotInt)
  | some delta =>
    have hbounds := parseIntStrict_bounds hs
    exact obeys_cmdIncrBy h.lines h.strings.number (h.keys 0) hw hst (h.reads 1 (by decide))
      (fun hc => by cases hc) hbounds.1 hbounds.2

/-- `DECRBY`, which does not negate the least integer. -/
theorem obeys_decrby (h : r.Serves argv 3) : Obeys r .fresh (decrby r.env argv) Finished := by
  refine h.arg fun s _ => ?_
  cases hs : parseIntStrict s with
  | none => exact .settle (h.fail fails_errNotInt)
  | some delta =>
    have hbounds := parseIntStrict_bounds hs
    refine .ite (fun _ => .settle (h.fail fails_errNotInt)) fun hneg => ?_
    exact obeys_cmdIncrBy h.lines h.strings.number (h.keys 0) hw hst (h.reads 1 (by decide))
      (fun hc => by cases hc) (by omega) (by omega)

/-- `INCRBYFLOAT`. -/
theorem obeys_incrbyfloat (h : r.Serves argv 3) (hlax : r.lax = true) :
    Obeys r .fresh (incrbyfloat r.env argv) Finished :=
  obeys_cmdIncrBy h.lines h.strings.number (h.keys 0) hw hst (h.reads 1 (by decide))
    (fun _ => ⟨hlax, h.reads 2 (by decide)⟩) (by decide) (by decide)

end

end TinyRedis.Commands

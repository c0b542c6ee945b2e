import TinyRedis.Commands.Rules.Lists
import TinyRedis.Commands.Rules.Strings

/-!
# Sorted set commands obey the rules

What the handlers do to the two indices of a sorted set is said in `ZSetClosed`. `ZADD` puts a
sorted set in before it has read a score, and writes one pair before it reads the next, so it may
reply an error after it has written. `ZSCORE` and `ZREM` access a null pointer when the key is
missing, and `ZRANGE` reads an argument that the arity check does not ask for.
-/

namespace TinyRedis.Commands

open Lib Resp

variable {r : Rules} {p : Phase} {argv : Args} {lower key : Bytes} {i : ℕ} {z : ZSetValue}
  {member : Bytes} {score : Double} {Q : Unit → Phase → Prop} {f : ZAddFlags} {withScores : Bool}

/-- A property of values that is kept by what handlers do to sorted sets. -/
structure ZSetClosed (V : Value → Prop) : Prop where
  add : ∀ z level score member added sl, V (.zset z) → 0 < level → level ≤ kMaxLevel →
    score.isNaN = false → z.dict.lookup member = none →
    z.sl.insert level score member = .ok (added, sl) → V (.zset ⟨sl, z.dict.insert member score⟩)
  rescore : ∀ z old level score member erased added sl sl', V (.zset z) → 0 < level →
    level ≤ kMaxLevel → score.isNaN = false → z.dict.lookup member = some old →
    z.sl.erase old member = .ok (erased, sl) → sl.insert level score member = .ok (added, sl') →
    V (.zset ⟨sl', z.dict.insert member score⟩)
  remove : ∀ z score member z', V (.zset z) → z.dict.lookup member = some score →
    removePair z score member = .ok z' → V (.zset z')
  popMin : ∀ z e sl, V (.zset z) → z.sl.popMin = .ok (some e, sl) →
    V (.zset ⟨sl, z.dict.erase e.2⟩)
  popMax : ∀ z e sl, V (.zset z) → z.sl.popMax = .ok (some e, sl) →
    V (.zset ⟨sl, z.dict.erase e.2⟩)
  removeByRank : ∀ z start stop victims z', V (.zset z) →
    z.sl.rangeByRank start stop false = .ok victims → removePairs victims z = .ok z' →
    V (.zset z')
  removeByScore : ∀ z range victims z', V (.zset z) →
    z.sl.rangeByScore range false 0 (-1) = .ok victims → removePairs victims z = .ok z' →
    V (.zset z')

/-- It is kept if it holds of all sorted sets. -/
theorem zsetClosed_of_all {V : Value → Prop} (h : ∀ z, V (.zset z)) : ZSetClosed V :=
  ⟨fun _ _ _ _ _ _ _ _ _ _ _ _ => h _, fun _ _ _ _ _ _ _ _ _ _ _ _ _ _ _ _ => h _,
    fun _ _ _ _ _ _ _ => h _, fun _ _ _ _ _ => h _, fun _ _ _ _ _ => h _,
    fun _ _ _ _ _ _ _ _ => h _, fun _ _ _ _ _ _ _ => h _⟩

/-- The property that all values have. -/
theorem zsetClosed_true : ZSetClosed fun _ => True := zsetClosed_of_all fun _ => trivial

/-- A score that is read is a number. -/
theorem isNaN_of_parseScore {env : Env} {s : Bytes} {d : Double} (h : parseScore env s = some d) :
    d.isNaN = false := by
  unfold parseScore at h
  cases hp : parseDoubleStrict env.floats s with
  | none =>
    rw [hp] at h
    cases h
  | some d' =>
    rw [hp] at h
    dsimp only at h
    split_ifs at h with hn
    cases h
    exact Bool.eq_false_iff.2 hn

/-! ## Reading -/

/-- `ZSCORE`. -/
theorem obeys_zscore (h : r.Serves argv 3) (hnull : r.Misses .kZSet argv) :
    Obeys r .fresh (zscore r.env argv) Finished := by
  refine h.openIn (by decide) (.inr rfl) rfl (fun key hkey hm => ?_) fun key _ _ => ?_
  · exact h.arg fun member _ => .deref_null (hnull key hkey hm)
  · refine h.arg fun member _ => .deref Phase.mem_hold fun z _ => ?_
    cases z.dict.lookup member with
    | none => exact .done utters_replyNullBulk
    | some score => exact .done (utters_replyBulk _)

/-- `ZCARD`. -/
theorem obeys_zcard (h : r.Serves argv 2) : Obeys r .start (zcard r.env argv) Finished :=
  h.look (fun _ => .done (utters_replyInt 0)) fun _ _ =>
    .deref Phase.mem_hold fun _ _ => .done (utters_replyInt _)

/-- Pairs, with or without their scores. -/
theorem obeys_replyScoredPairs {v : List (Double × Bytes)} (ha : p.answer = .none) :
    Obeys r p (replyScoredPairs r.env v withScores) Finished := by
  refine .ite (fun _ => .finish utters_replyEmptyArray ha) fun _ => ?_
  refine .ite (fun _ => ?_) fun _ => ?_
  · exact .finish (utters_replyBulkArray _) ha
  · exact .finish (utters_replyBulkArray _) ha

/-- A range that was read from a skip list. -/
theorem obeys_replyRange (range : SkipList Double → Except Fault (List (Double × Bytes)))
    {st : LookupResult} {d : Handle} {N : Prop} (hst : p.Points N st d) (hp : p.stage = .clean)
    (ha : p.answer = .none) : Obeys r p (match st with
      | .found => do
        let z ← deref zsetKind d
        let v ← liftSkipList (range z.sl)
        replyScoredPairs r.env v withScores
      | _ => replyEmptyArray) Finished := by
  rcases hst with ⟨-, rfl, rfl⟩ | ⟨key, hkey, rfl, rfl⟩
  · exact .finish utters_replyEmptyArray ha
  · exact .deref hkey fun z _ => .idle (idle_liftSkipList _) (Phase.settled hp) fun v _ =>
      obeys_replyScoredPairs ha

section

variable (hlines : ∀ s, OneLine s → s ∈ r.text)
include hlines

/-- An option of `ZRANGE`. -/
theorem obeys_zrangeOption {isZrange : Bool} {o : RangeOptions} (hi : i < argv.length)
    (hp : p.stage = .clean) (ha : p.answer = .none) : Obeys r p (zrangeOption argv isZrange i o)
      (Step.Ends (fun j _ p' => i < j ∧ p' = p) fun _ p' => p'.answer = .failed) := by
  refine .argLt hi fun s _ => ?_
  refine .ite (fun _ => .pure ⟨Nat.lt_succ_self i, rfl⟩) fun _ => ?_
  refine .ite (fun _ => .pure ⟨Nat.lt_succ_self i, rfl⟩) fun _ => ?_
  exact .fails fails_errSyntax hlines (.inl hp) ha (.pure rfl)

/-- An option of `ZRANGEBYSCORE`. -/
theorem obeys_byScoreOption {o : ScoreOptions} (hi : i < argv.length) (hp : p.stage = .clean)
    (ha : p.answer = .none) : Obeys r p (byScoreOption argv i o)
      (Step.Ends (fun j _ p' => i < j ∧ p' = p) fun _ p' => p'.answer = .failed) := by
  refine .argLt hi fun s _ => ?_
  refine .ite (fun _ => .pure ⟨Nat.lt_succ_self i, rfl⟩) fun _ => ?_
  refine .ite (fun hl => .option (obeys_twoInts (fun hlen => ?_) fun _ hlen => ?_) ?_ fun _ => ?_)
    fun _ => ?_
  · omega
  · omega
  · exact .fails fails_errNotInt hlines (.inl hp) ha (.pure rfl)
  · exact .pure ⟨by omega, rfl⟩
  · exact .fails fails_errSyntax hlines (.inl hp) ha (.pure rfl)

end

/-- `ZRANGE` reads the end of the range if its start is valid, and this may be too far. -/
theorem obeys_zrangeWith (h : r.Serves argv 3) (isZrange : Bool)
    (hindex : ∀ key, argv[1]? = some key → ∀ res, r.Meets .fresh .kZSet key res →
      res ≠ .wrongType → parseIntStrict (argv.getD 2 []) ≠ none → argv.length ≤ 3 →
      r.faults (.argvIndex 3)) : Obeys r .fresh (zrangeWith r.env argv isZrange) Finished := by
  have hbody : ∀ p st d, p.stage = .clean → p.answer = .none → p.Points True st d →
      (parseIntStrict (argv.getD 2 []) ≠ none → argv.length ≤ 3 → r.faults (.argvIndex 3)) →
      Obeys r p (zrangeBody r.env argv isZrange st d) Finished := by
    intro p st d hp ha hst hindex
    refine .option (obeys_twoInts (h.reads 2 (by decide)) hindex) (h.failAt fails_errNotInt hp ha)
      fun range => ?_
    exact .options (fun i o hi => obeys_zrangeOption h.lines hi hp ha) rfl fun _ o =>
      obeys_replyRange (fun sl => sl.rangeByRank range.1 range.2 o.rev) hst hp ha
  refine h.openIn (by decide) (.inr rfl) rfl (fun key hkey hm => ?_) fun key hkey hm => ?_
  · exact hbody _ _ _ rfl rfl (.inl ⟨trivial, rfl, rfl⟩) (hindex key hkey _ hm (by decide))
  · exact hbody _ _ _ rfl rfl (.inr ⟨key, Phase.mem_hold, rfl, rfl⟩)
      (hindex key hkey _ hm (by decide))

/-- The two bounds of a range of scores. -/
theorem obeys_scoreRangeArg (h : r.Serves argv 4) {j : ℕ} (hi : i < 4) (hj : j < 4) :
    Obeys r p (scoreRangeArg r.env argv i j) fun _ p' => p' = p := by
  refine .arg (h.reads i hi) fun a _ => .arg (h.reads j hj) fun b _ => ?_
  cases parseScoreBound r.env.floats a with
  | none => exact .pure rfl
  | some min =>
    cases parseScoreBound r.env.floats b with
    | none => exact .pure rfl
    | some max => exact .pure rfl

/-- A bound that is no number. -/
theorem fails_errBound : Fails errBound := ⟨_, rfl, by decide⟩

/-- `ZRANGEBYSCORE` and `ZREVRANGEBYSCORE`. -/
theorem obeys_zrangeByScoreWith (h : r.Serves argv 4) (rev : Bool) :
    Obeys r .start (zrangeByScoreWith r.env argv rev) Finished := by
  refine h.read fun _ p st d _ hp ha hst => ?_
  have hlt : ∀ b : Bool, (if b then 3 else 2) < 4 ∧ (if b then 2 else 3) < 4 := by decide
  refine .option (obeys_scoreRangeArg h (hlt rev).1 (hlt rev).2) (h.failAt fails_errBound hp ha)
    fun range => ?_
  exact .options (fun i o hi => obeys_byScoreOption h.lines hi hp ha) rfl fun _ o =>
    obeys_replyRange (fun sl => sl.rangeByScore range rev o.offset o.count) hst hp ha

/-- `ZRANK` and `ZREVRANK`. -/
theorem obeys_zrankWith (h : r.Serves argv 3)
    (rank : SkipList Double → Double → Bytes → Except Fault UInt64) :
    Obeys r .start (zrankWith r.env argv rank) Finished := by
  refine h.look (fun _ => .done utters_replyNullBulk) fun key _ => ?_
  refine .deref Phase.mem_hold fun z _ => h.arg fun member _ => ?_
  cases z.dict.lookup member with
  | none => exact .done utters_replyNullBulk
  | some score =>
    refine .idle (idle_liftSkipList _) (Phase.settled rfl) fun n _ => .ite (fun _ => ?_) fun _ => ?_
    · exact .done utters_replyNullBulk
    · exact .done (utters_replyInt _)

/-- `ZCOUNT`. -/
theorem obeys_zcount (h : r.Serves argv 4) : Obeys r .start (zcount r.env argv) Finished := by
  refine h.read fun _ p st d _ hp ha hst => ?_
  refine .option (obeys_scoreRangeArg h (by decide) (by decide)) (h.failAt fails_errBound hp ha)
    fun range => ?_
  rcases hst with ⟨-, rfl, rfl⟩ | ⟨key, hkey, rfl, rfl⟩
  · exact .finish (utters_replyInt 0) ha
  · exact .deref hkey fun z _ => .idle (idle_liftSkipList _) (Phase.settled hp) fun n _ =>
      .finish (utters_replyInt _) ha

/-! ## Both indices -/

section

variable (hz : ZSetClosed r.values)
include hz

section

variable (ho : r.Owns key p) (hv : r.values (.zset z)) (hnan : score.isNaN = false)
include ho hv hnan

/-- A new member goes into both indices. -/
theorem obeys_addPair (hnew : z.dict.lookup member = none) (hQ : Q () p.write) :
    Obeys r p (addPair r.env (some key) z score member) Q := by
  refine .idle (idle_randomLevel _) ho.may.settled fun level hlevel => ?_
  refine .idle (idle_liftSkipList _) ho.may.settled fun x hx => ho.store_last ?_ hQ
  exact hz.add z level score member x.1 x.2 hv hlevel.1 hlevel.2 hnan hnew hx

/-- A member gets a new score in both indices. -/
theorem obeys_rescore {old : Double} (hold : z.dict.lookup member = some old) (hQ : Q () p.write) :
    Obeys r p (rescore r.env (some key) z old score member) Q := by
  refine .idle (idle_liftSkipList _) ho.may.settled fun x hx => ?_
  refine .idle (idle_randomLevel _) ho.may.settled fun level hlevel => ?_
  refine .idle (idle_liftSkipList _) ho.may.settled fun y hy => ho.store_last ?_ hQ
  exact hz.rescore z old level score member x.1 y.1 x.2 y.2 hv hlevel.1 hlevel.2 hnan hold hx hy

/-- The score of a member, which may be new. -/
theorem obeys_putScore (hQ : Q () p.write) :
    Obeys r p (putScore r.env (some key) z score member) Q := by
  unfold putScore
  cases hl : z.dict.lookup member with
  | none => exact obeys_addPair hz ho hv hnan hl hQ
  | some old => exact obeys_rescore hz ho hv hnan hl hQ

end

section

variable (hlines : ∀ s, OneLine s → s ∈ r.text) (hlax : r.lax = true) (ho : r.Owns key p)
include hlines hlax ho

/-- The new score, or an error. A sum that is NaN is refused. -/
theorem obeys_incrScore {delta : Double} (hv : r.values (.zset z)) : Obeys r p (do
      match ← incrScore r.env (some key) z delta member with
      | none => errIncrOverflow
      | some res => replyBulk (formatDouble r.env.floats res)) Finished := by
  refine Obeys.bind (Q := fun _ p => p.answer = .none) ?_ fun o p ha => ?_
  · refine .ite (fun _ => .pure ho.answer) fun hfin => ?_
    rw [Bool.or_eq_true, not_or] at hfin
    exact (obeys_putScore (Q := fun _ p => p.answer = .none) hz ho hv (Bool.eq_false_iff.2 hfin.1)
      ho.answer).bind fun _ _ ha => .pure ha
  · cases o with
    | none => exact .fail fails_errIncrOverflow hlines (.inr hlax) ha
    | some res => exact .finish (utters_replyBulk _) ha

/-! ## `ZADD` -/

omit hz hlines hlax ho in
/-- A flag of `ZADD`, or the first score. -/
theorem obeys_zaddFlag (f : ZAddFlags) (hi : i < argv.length) :
    Obeys r .fresh (zaddFlag argv i f)
      (Step.Ends (fun j _ p => i < j ∧ p = .fresh) fun _ p => p = .fresh) := by
  have hnext : ∀ f, Obeys r .fresh (pure (.next (i + 1) f) : M (Step ZAddFlags (ℕ × ZAddFlags)))
      (Step.Ends (fun j _ p => i < j ∧ p = .fresh) fun _ p => p = .fresh) := fun f =>
    .pure ⟨Nat.lt_succ_self i, rfl⟩
  refine .argLt hi fun s _ => ?_
  refine .ite (fun _ => hnext _) fun _ => .ite (fun _ => hnext _) fun _ => ?_
  exact .ite (fun _ => hnext _) fun _ => .ite (fun _ => hnext _) fun _ => .pure rfl

/-- A step of `ZADD` either changes both indices, or none. -/
theorem obeys_zaddOne {c : ZAddCount} (hi : i + 1 < argv.length) :
    Obeys r p (zaddOne r.env argv f (some key) i c)
      (Step.Ends (fun j _ p => j = i + 2 ∧ r.Owns key p) fun _ p => p.answer = .failed) := by
  refine .argLt (by omega) fun s _ => ?_
  cases hs : parseScore r.env s with
  | none => exact .fails fails_errNotFloat hlines (.inr hlax) ho.answer (.pure rfl)
  | some score =>
    have hnan := isNaN_of_parseScore hs
    refine .argLt hi fun member _ => .deref ho.held fun z hv => ?_
    cases hl : z.dict.lookup member with
    | some old =>
      refine .ite (fun _ => .pure ⟨rfl, ho⟩) fun _ => ?_
      exact (obeys_rescore (Q := fun _ => r.Owns key) hz ho hv hnan hl ho.write).bind
        fun _ _ ho => .pure ⟨rfl, ho⟩
    | none =>
      refine .ite (fun _ => .pure ⟨rfl, ho⟩) fun _ => ?_
      exact (obeys_addPair (Q := fun _ => r.Owns key) hz ho hv hnan hl ho.write).bind
        fun _ _ ho => .pure ⟨rfl, ho⟩

/-- `ZADD` with `INCR`. -/
theorem obeys_zaddIncr (hi : i + 1 < argv.length) :
    Obeys r p (zaddIncr r.env argv f (some key) i) Finished := by
  refine .argLt (by omega) fun s _ => ?_
  cases parseScore r.env s with
  | none => exact .fail fails_errNotFloat hlines (.inr hlax) ho.answer
  | some score =>
    refine .argLt hi fun member _ => .deref ho.held fun z hv => ?_
    refine .ite (fun _ => .finish utters_replyNullBulk ho.answer) fun _ => ?_
    exact obeys_incrScore hz hlines hlax ho hv

/-- `ZADD` after its flags, with the set at hand: there is a member after each score, as their
number is even. -/
theorem obeys_zaddBody (hlen : i < argv.length) (heven : (argv.length - i) % 2 = 0) : Obeys r p
      (if f.incr then zaddIncr r.env argv f (some key) i
      else do
        match ← argLoop argv (zaddOne r.env argv f (some key)) argv.length i ⟨0, 0⟩ with
        | .stop _ => pure ()
        | .next _ c => replyInt (if f.ch then c.changed else c.added)) Finished := by
  refine .ite (fun _ => obeys_zaddIncr hz hlines hlax ho (by omega)) fun _ => ?_
  refine (Obeys.argLoop (I := fun i _ p => (argv.length - i) % 2 = 0 ∧ r.Owns key p)
    (S := fun _ p => p.answer = .failed) (fun i c p hi ⟨heven, ho⟩ => ?_) argv.length i _
    (by omega) ⟨heven, ho⟩).bind fun s p hs => ?_
  · refine (obeys_zaddOne hz hlines hlax ho (by omega)).imp fun s p' hs => ?_
    cases s with
    | stop _ => exact hs
    | next j c =>
      obtain ⟨rfl, hs⟩ := hs
      exact ⟨by omega, by omega, hs⟩
  · cases s with
    | stop _ => exact .pure (.inl hs)
    | next _ c => exact .finish (utters_replyInt _) hs.2.2.answer

end

section

variable (hV : r.values (.zset ⟨SkipList.empty, ∅⟩)) (h : r.Serves argv 4) (hw : r.writes = true)
  (hlax : r.lax = true) (hst : r.Creates .kZSet argv)
include hV h hw hlax hst

/-- `ZADD` after its flags. -/
theorem obeys_zaddWith (hlower : wrongArgsText lower ∈ r.text) (i : ℕ) (f : ZAddFlags) :
    Obeys r .fresh (zaddWith r.env argv lower i f) Finished := by
  refine .ite (fun _ => .settle (h.fail fails_errSyntax)) fun _ => ?_
  refine .ite (fun _ => .settle (h.fail fails_errSyntax)) fun _ => ?_
  refine .ite (fun _ => .settle (.wrongArgs hlower rfl rfl)) fun hrest => ?_
  exact h.create hw hst hV (fun _ => rfl) fun key p ho _ =>
    obeys_zaddBody hz h.lines hlax ho (by omega) (by omega)

/-- `ZADD`. -/
theorem obeys_zadd (hlower : wrongArgsText lower ∈ r.text) :
    Obeys r .fresh (zadd r.env argv lower) Finished := by
  refine (Obeys.argLoop (I := fun _ _ p => p = .fresh) (S := fun _ p => p = .fresh)
    (fun i f p hi hp => ?_) argv.length 2 _ (by omega) rfl).bind fun s p hs => ?_
  · subst hp
    exact obeys_zaddFlag f hi
  cases s with
  | stop x =>
    cases hs
    exact obeys_zaddWith hz hV h hw hlax hst hlower x.1 x.2
  | next i f =>
    obtain ⟨-, rfl⟩ := hs
    exact obeys_zaddWith hz hV h hw hlax hst hlower i f

/-- `ZINCRBY`. -/
theorem obeys_zincrby : Obeys r .fresh (zincrby r.env argv) Finished := by
  refine h.arg fun s _ => ?_
  cases parseScore r.env s with
  | none => exact .settle (h.fail fails_errNotFloat)
  | some delta =>
    exact h.create hw hst hV (fun _ => rfl) fun key p ho _ => .deref ho.held fun z hv =>
      h.arg fun member _ => obeys_incrScore hz h.lines hlax ho hv

end

/-! ## Removing -/

/-- `ZREM`. -/
theorem obeys_zrem (h : r.Serves argv 3) (hw : r.writes = true) (hnull : r.Misses .kZSet argv)
    (hst : r.Modifies .kZSet argv) : Obeys r .fresh (zrem r.env argv) Finished := by
  refine h.removeArgs (f := zremOne argv) hw hnull hst
    (fun p i c hnull hi => .argLt hi fun member _ => .deref_null hnull)
    fun p key i c hi ho => .argLt hi fun member _ => .deref ho.held fun z hv => ?_
  cases hl : z.dict.lookup member with
  | none => exact .pure ho
  | some score =>
    refine .idle (idle_liftSkipList _) ho.may.settled fun z' hz' => ?_
    exact ho.store (hz.remove z score member z' hv hl hz') (.pure ho.write)

section

variable {pop : SkipList Double → Except Fault (Option (Double × Bytes) × SkipList Double)}
  (hpop : ∀ z e sl, r.values (.zset z) → pop z.sl = .ok (some e, sl) →
    r.values (.zset ⟨sl, z.dict.erase e.2⟩))
include hpop

omit hz in
/-- The loop of `ZPOPMIN` and `ZPOPMAX`. -/
theorem obeys_zpopLoop (ho : r.Owns key p) (n : ℕ) :
    Obeys r p (zpopLoop r.env pop (some key) n) fun _ p' => p'.answer = .none := by
  induction n generalizing p with
  | zero => exact .pure ho.answer
  | succ n ih =>
    refine .deref ho.held fun z hv => .idle (idle_liftSkipList _) ho.may.settled fun x hx => ?_
    obtain ⟨e, sl⟩ := x
    cases e with
    | none => exact .pure ho.answer
    | some e => exact ho.store (hpop z e sl hv hx) ((ih ho.write).bind fun _ _ ha => .pure ha)

omit hz in
/-- `ZPOPMIN` and `ZPOPMAX`. -/
theorem obeys_zpopWith (h : r.Serves argv 2) (hw : r.writes = true)
    (hst : r.Modifies .kZSet argv) : Obeys r .fresh (zpopWith r.env argv pop) Finished := by
  refine h.modify hw hst (fun _ => ?_) fun key _ ho => ?_
  · exact .option (obeys_countArg _) (h.fail fails_errNotInt) fun _ =>
      .done utters_replyEmptyArray
  · refine .option (obeys_countArg _) (h.fail fails_errNotInt) fun count =>
      .ite (fun _ => .done utters_replyEmptyArray) fun _ => ?_
    exact (obeys_zpopLoop hpop ho _).bind fun flat p ha => .finish (utters_replyBulkArray flat) ha

end

omit hz in
/-- The pairs of a range are removed from both indices. -/
theorem obeys_removeRange {range : SkipList Double → Except Fault (List (Double × Bytes))}
    (hrange : ∀ z victims z', r.values (.zset z) → range z.sl = .ok victims →
      removePairs victims z = .ok z' → r.values (.zset z')) (ho : r.Owns key p) :
    Obeys r p (removeRange (some key) range) Finished := by
  refine .deref ho.held fun z hv => .idle (idle_liftSkipList _) ho.may.settled
    fun victims hvictims => .idle (idle_liftSkipList _) ho.may.settled fun z' hz' => ?_
  exact ho.put (hrange z victims z' hv hvictims hz') (utters_replyInt _)

variable (h : r.Serves argv 4) (hw : r.writes = true) (hst : r.Modifies .kZSet argv)
include h hw hst

/-- `ZREMRANGEBYRANK`. -/
theorem obeys_zremrangebyrank : Obeys r .fresh (zremrangebyrank r.env argv) Finished := by
  refine h.modify hw hst (fun _ => ?_) fun key _ ho => ?_
  · exact .option h.obeys_twoInts (h.fail fails_errNotInt) fun _ => .done (utters_replyInt 0)
  · exact .option h.obeys_twoInts (h.fail fails_errNotInt) fun range =>
      obeys_removeRange (fun z victims z' => hz.removeByRank z range.1 range.2 victims z') ho

/-- `ZREMRANGEBYSCORE`. -/
theorem obeys_zremrangebyscore : Obeys r .fresh (zremrangebyscore r.env argv) Finished := by
  have hread : ∀ p : Phase, Obeys r p (scoreRangeArg r.env argv 2 3) fun _ p' => p' = p :=
    fun p => obeys_scoreRangeArg h (by decide) (by decide)
  refine h.modify hw hst (fun _ => ?_) fun key _ ho => ?_
  · exact .option (hread _) (h.fail fails_errBound) fun _ => .done (utters_replyInt 0)
  · exact .option (hread _) (h.fail fails_errBound) fun range =>
      obeys_removeRange (fun z victims z' => hz.removeByScore z range victims z') ho

end

end TinyRedis.Commands

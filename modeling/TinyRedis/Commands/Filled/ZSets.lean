import TinyRedis.Commands.Filled.Lists
import TinyRedis.Commands.FloatIncrements
import TinyRedis.Commands.Removals

/-!
# Sorted sets with a member

`ZREM`, the pops, and the removals of a range leave an empty set if they take all members. `ZADD`
and `ZINCRBY` create the set before they know whether they add a member to it.
-/

namespace TinyRedis.Commands

open Lib Lib.Window SkipList

variable {env : Env} {argv : Args} {key a : Bytes} {z z' : ZSetValue} {d : Dict Bytes Double}
  {ps : List (Bytes × Bytes)} {f : ZAddFlags} {score : Double}

/-- A sorted set has a member. -/
def HasMember (z : ZSetValue) : Prop := 0 < z.dict.size

/-! ## `ZADD` -/

/-- Whether `ZADD` adds a member to a new set: that of its first pair. -/
def zaddAdds (env : Env) (argv : Args) : Bool :=
  let i := (flagsOf argv).1
  let f := (flagsOf argv).2
  (parseScore env (argv.getD i [])).any fun score =>
    if f.incr then !f.nx && !incrOverflows env ∅ (argv.getD (i + 1) []) score else !f.xx

/-- What this asks of the first pair. -/
theorem exists_score_of_zaddAdds (h : zaddAdds env argv = true) :
    ∃ score, parseScore env (argv.getD (flagsOf argv).1 []) = some score ∧
      ((flagsOf argv).2.incr = true → (flagsOf argv).2.nx = false ∧
        incrOverflows env ∅ (argv.getD ((flagsOf argv).1 + 1) []) score = false) ∧
      ((flagsOf argv).2.incr = false → (flagsOf argv).2.xx = false) := by
  unfold zaddAdds at h
  obtain ⟨score, hscore, h⟩ := (Option.any_eq_true _ _).1 h
  refine ⟨score, hscore, fun hincr => ?_, fun hincr => ?_⟩
  · rw [if_pos hincr, Bool.and_eq_true, Bool.not_eq_true', Bool.not_eq_true'] at h
    exact h
  · rw [hincr, if_neg Bool.false_ne_true, Bool.not_eq_true'] at h
    exact h

/-- `ZADD` finds a value, or is refused before it looks, or adds a member. -/
def zaddSpares (env : Env) (argv : Args) (w : World) : Bool :=
  (live env (argv.getD 1 []) w).isSome || !flagsAccepted argv || zaddAdds env argv

/-- A pair takes no member away, and without `XX` adds one to a new set. -/
theorem size_zaddPair {member : Bytes} (h : 0 < d.size ∨ (d = ∅ ∧ f.xx = false)) :
    0 < (zaddPair f score member d).size := by
  unfold zaddPair
  rcases h with hd | ⟨rfl, hxx⟩
  · repeat' split
    all_goals first | exact hd | exact Dict.size_insert_pos d _ _
  · rw [AList.lookup_empty, hxx]
    exact Dict.size_insert_pos ∅ _ _

/-- The pairs take no member away. -/
theorem size_zaddPairs (h : 0 < d.size) : 0 < (zaddPairs env f ps d).2.size :=
  zaddPairs_keeps (P := fun d => 0 < d.size) h fun _ _ _ _ hd => size_zaddPair (.inl hd)

/-- A set that has a member keeps one. -/
theorem size_zaddOutcome (h : 0 < d.size) : 0 < (zaddOutcome env f ps d).2.size := by
  unfold zaddOutcome zaddIncrPair
  dsimp only
  repeat' split
  all_goals first | exact h | exact Dict.size_insert_pos d _ _ | exact size_zaddPairs h

/-- A new set gets that of the first pair. -/
theorem size_zaddOutcome_new {p : Bytes × Bytes} (hscore : parseScore env p.1 = some score)
    (hincr : f.incr = true → f.nx = false ∧ incrOverflows env ∅ p.2 score = false)
    (hxx : f.incr = false → f.xx = false) : 0 < (zaddOutcome env f (p :: ps) ∅).2.size := by
  unfold zaddOutcome
  cases hf : f.incr with
  | true =>
    have hover := (hincr hf).2
    unfold incrOverflows at hover
    have hrefuses : refuses f ((∅ : Dict Bytes Double).lookup p.2).isSome = false := by
      rw [AList.lookup_empty, refuses, (hincr hf).1, Option.isSome_none, Bool.and_false]
      rfl
    rw [if_pos rfl]
    dsimp only
    unfold zaddIncrPair
    rw [hscore]
    dsimp only
    rw [hrefuses, if_neg Bool.false_ne_true, if_neg (Bool.eq_false_iff.1 hover)]
    exact Dict.size_insert_pos ∅ _ _
  | false =>
    rw [if_neg Bool.false_ne_true]
    dsimp only
    unfold zaddPairs
    rw [hscore]
    exact size_zaddPairs (size_zaddPair (.inr ⟨rfl, hxx hf⟩))

/-- `ZADD` leaves no empty set then. -/
theorem full_of_zadd {lower : Bytes} {w : World} {p : Unit × World} (hargc : 4 ≤ argv.length)
    (hw : Full w) (hspares : zaddSpares env argv w = true) (hp : zadd env argv lower w = .ok p) :
    Full p.2 := by
  have hkey : argv[1]? = some (argv.getD 1 []) := argv_getElem? (by omega)
  have hrejected : ∀ h, Full p.2 := fun h => by
    show AllValues Filled p.2.db
    rw [zadd_rejected hkey h hp]
    exact hw
  cases haccepted : flagsAccepted argv with
  | false => exact hrejected (.inl haccepted)
  | true =>
    rcases wrongType_or_gets env zsetKind ⟨SkipList.empty, ∅⟩ (argv.getD 1 []) w with
      hwrong | ⟨e, z, hgets⟩
    · exact hrejected (.inr hwrong)
    obtain ⟨w₁, v, ⟨z', hdict, haltered⟩, hw', -⟩ := zadd_ends hkey haccepted hgets hp
    obtain ⟨q, ps, hs, hm, hpairs, -⟩ := pairsOf_of_accepted haccepted
    rw [hw']
    refine show Full w₁ from full_of_altered haltered hw (show 0 < z'.dict.size from ?_)
    rw [hdict, hpairs]
    rcases hgets.found with hlive | ⟨hlive, -⟩
    · have ht : typedAt env zsetKind (argv.getD 1 []) w = some z :=
        typedAt_eq_some.2 ⟨e, hlive, hgets.value⟩
      exact size_zaddOutcome (hw.typedAt ht)
    · rw [zaddSpares, hlive, haccepted] at hspares
      obtain ⟨score, hscore, hincr, hxx⟩ := exists_score_of_zaddAdds hspares
      rw [List.getD_eq_getElem?_getD, hs] at hscore
      rw [List.getD_eq_getElem?_getD, hm] at hincr
      rw [hgets.eq_empty hlive]
      exact size_zaddOutcome_new hscore hincr hxx

/-! ## Removing members -/

/-- The member `a` is not removed. -/
theorem leads_zremBody (ha : a ∈ z.dict) (hnot : a ∉ argv.drop 2) :
    Leads (FullAt zsetKind key (· = z)) (zremBody argv .found (some key)) fun _ => Full := by
  refine leads_forArgs (fun _ z => a ∈ z.dict) Nat.one_pos (fun t ht => ht ▸ ha)
    (fun i n h2 hi => ?_) (fun _ _ _ hz => hz)
    fun n => leads_emit _ fun z hz => Dict.size_pos_of_mem hz
  refine leads_arg fun _ => leads_deref fun z hz => ?_
  cases z.dict.lookup (argv.getD i []) with
  | none => exact Triple.intro fun _ hw => FullAt.imp hw fun u hu => hu ▸ hz
  | some score =>
    refine (stable_filled.keeps_liftSkipList _).triple_bind fun z' hz' => ?_
    refine leads_store (Q := fun z : ZSetValue => a ∈ z.dict) ?_ (Triple.intro fun w hw => hw)
    obtain ⟨erased, sl, -, rfl⟩ := removePair_eq hz'
    have hne : a ≠ argv.getD i [] := fun hc => hnot (hc ▸ getD_mem_drop h2 hi)
    exact AList.mem_erase.2 ⟨hne, hz⟩

/-- A member that is not named is left. -/
theorem leads_zrem :
    Leads (fun w => Full w ∧ ∀ z, typedAt env zsetKind (argv.getD 1 []) w = some z →
      spares argv z.dict = true) (zrem env argv) fun _ => Full := by
  refine leads_arg fun _ => leads_withTyped ?_ fun z hz _ => ?_
  · refine leads_of_runs (Safe.bind (keeps_forArgs_true (fun i n hi => ?_) _ _) fun n _ =>
      keeps_emit _)
    exact Safe.bind (keeps_arg hi) fun _ _ => keeps_null_bind zsetKind trivial
  · obtain ⟨a, ha, hnot⟩ := exists_of_spares hz
    exact leads_zremBody ha hnot

/-- Each step takes one member. -/
theorem leads_zpopLoop
    (pop : SkipList Double → Except Fault (Option (Double × Bytes) × SkipList Double)) (n : ℕ) :
    Leads (FullAt zsetKind key fun z => n < z.dict.size) (zpopLoop env pop (some key) n)
      fun _ => FullAt zsetKind key HasMember := by
  induction n with
  | zero => exact Triple.intro fun _ hw => hw
  | succ n ih =>
    refine leads_deref fun z hz => (stable_filled.keeps_liftSkipList _).triple_bind fun r _ => ?_
    obtain ⟨popped, sl⟩ := r
    cases popped with
    | none =>
      refine Triple.intro fun _ hw => FullAt.imp hw fun u hu => ?_
      subst hu
      exact Nat.zero_lt_of_lt hz
    | some p =>
      refine leads_store (Q := fun z => n < z.dict.size) ?_
        (ih.bind fun rest => Triple.intro fun _ hw => hw)
      have hle := Dict.size_le_size_erase z.dict p.2
      dsimp only
      omega

/-- A member is left if the count is less than the size. -/
theorem leads_zpopWith
    (pop : SkipList Double → Except Fault (Option (Double × Bytes) × SkipList Double)) :
    Leads (fun w => Full w ∧ ∀ z, typedAt env zsetKind (argv.getD 1 []) w = some z →
      popCount argv < z.dict.size) (zpopWith env argv pop) fun _ => Full := by
  refine leads_arg fun _ => leads_withOption (fun _ => countArg_popCount 1)
    (fun _ _ => ⟨_, rfl⟩) (fun _ => ⟨_, rfl⟩) fun z count hz hpos hcount =>
      Triple.ite (fun _ => leads_same _ hpos) fun _ => ?_
  have hfew : count.toNat < z.dict.size := by
    rcases hcount with ⟨rfl, hone⟩ | ⟨rfl, hnonneg⟩
    · omega
    · omega
  refine Triple.bind
    ((leads_zpopLoop pop count.toNat).weaken fun _ hw => hw.imp fun u hu => ?_)
    fun flat => leads_emit _ fun _ h => h
  exact hu ▸ hfew

/-! ## Removing ranges -/

/-- What is not among the victims stays. -/
theorem mem_removePairs {victims : List (Double × Bytes)} (h : removePairs victims z = .ok z')
    (ha : a ∈ z.dict) (hnot : ∀ p ∈ victims, p.2 ≠ a) :
    a ∈ z'.dict := by
  induction victims generalizing z with
  | nil =>
    cases h
    exact ha
  | cons p victims ih =>
    obtain ⟨z₁, h₁, h⟩ := bind_eq_ok h
    obtain ⟨erased, sl, -, rfl⟩ := removePair_eq h₁
    refine ih h ?_ fun q hq => hnot q (List.mem_cons_of_mem _ hq)
    exact AList.mem_erase.2 ⟨(hnot p List.mem_cons_self).symm, ha⟩

/-- A range that leaves a pair out. -/
theorem leads_removeRange {range : SkipList Double → Except Fault (List (Double × Bytes))}
    {es : List (Double × Bytes)} (hz : z.IndexedBy es)
    (hrange : ∀ victims, range z.sl = .ok victims →
      (∀ p ∈ victims, p ∈ es) ∧ ∃ p ∈ es, p ∉ victims) :
    Leads (FullAt zsetKind key (· = z)) (removeRange (some key) range) fun _ => Full := by
  refine leads_deref fun u hu => ?_
  subst hu
  refine (stable_filled.keeps_liftSkipList _).triple_bind fun victims hvictims => ?_
  obtain ⟨hsub, p, hp, hnot⟩ := hrange victims hvictims
  refine (stable_filled.keeps_liftSkipList _).triple_bind fun z' hz' => ?_
  have hlook := hz.mem_iff.1 hp
  refine leads_finish _ (show HasMember z' from ?_)
  refine Dict.size_pos_of_mem (mem_removePairs (a := p.2) hz' ?_ fun q hq hc => ?_)
  · exact AList.lookup_isSome.1 (by rw [hlook]; rfl)
  · -- A victim with the same member would have the same score.
    have hlookq := hz.mem_iff.1 (hsub q hq)
    rw [hc, hlook] at hlookq
    have hpq : q = p := Prod.ext (Option.some.inj hlookq).symm hc
    exact hnot (hpq ▸ hq)

/-- A window of ranks leaves a member out. -/
def rankSpares (argv : Args) (z : ZSetValue) : Bool :=
  (parseIntStrict (argv.getD 2 [])).all fun start =>
    (parseIntStrict (argv.getD 3 [])).all fun stop =>
      decide ((slice start stop z.dict.toList).length < z.dict.size)

/-- Then `ZREMRANGEBYRANK` leaves it. -/
theorem leads_zremrangebyrank (hargc : 4 ≤ argv.length) :
    Leads (fun w => Full w ∧ ∀ z, typedAt env zsetKind (argv.getD 1 []) w = some z →
      z.Indexed ∧ rankSpares argv z = true) (zremrangebyrank env argv) fun _ => Full := by
  refine leads_arg fun _ => leads_withOption (fun _ => twoInts_args (by omega) hargc)
    (fun _ _ => ⟨_, rfl⟩) (fun _ => ⟨_, rfl⟩) fun z r hz hpos hr => ?_
  obtain ⟨⟨es, hes⟩, hspares⟩ := hz
  unfold rankSpares at hspares
  rw [hr.1, hr.2] at hspares
  have hlen : es.length = z.dict.toList.length := by
    rw [hes.perm.length_eq, ZSetValue.length_graph, Dict.length_toList]
  have hfew : (slice r.1 r.2 es).length < es.length := by
    rw [length_slice_congr hlen, hlen, Dict.length_toList]
    exact of_decide_eq_true hspares
  refine leads_removeRange hes fun victims hvictims => ?_
  have hslice : slice r.1 r.2 es = victims :=
    Except.ok.inj ((rangeByRank_eq hes.represents.holds r.1 r.2 false).symm.trans hvictims)
  subst hslice
  refine ⟨(slice_sublist r.1 r.2 es).subset, ?_⟩
  by_contra hall
  push Not at hall
  exact absurd (hes.nodup.subperm hall).length_le (Nat.not_le.2 hfew)

/-- A range of scores leaves a member out. -/
def scoreSpares (env : Env) (argv : Args) (z : ZSetValue) : Bool :=
  (rangeOf env (argv.getD 2 []) (argv.getD 3 [])).all fun r =>
    z.dict.toList.any fun p => !selects r (p.2, p.1)

/-- Then `ZREMRANGEBYSCORE` leaves it. -/
theorem leads_zremrangebyscore (hargc : 4 ≤ argv.length) :
    Leads (fun w => Full w ∧ ∀ z, typedAt env zsetKind (argv.getD 1 []) w = some z →
      z.Indexed ∧ scoreSpares env argv z = true) (zremrangebyscore env argv) fun _ => Full := by
  have hargs : scoreRangeArg env argv 2 3 =
      pure (rangeOf env (argv.getD 2 []) (argv.getD 3 [])) :=
    scoreRangeArg_eq (argv_getElem? (by omega)) (argv_getElem? (by omega))
  unfold zremrangebyscore scoreSpares
  simp only [hargs, pure_bind]
  refine leads_arg fun _ => ?_
  cases rangeOf env (argv.getD 2 []) (argv.getD 3 []) with
  | none =>
    exact leads_withTyped (leads_error _) fun z _ hpos => leads_refuse _ hpos
  | some r =>
    refine leads_withTyped (leads_reply _) fun z hz _ => ?_
    obtain ⟨⟨es, hes⟩, hspares⟩ := hz
    obtain ⟨p, hp, hnot⟩ := List.any_eq_true.1 hspares
    refine leads_removeRange hes fun victims hvictims => ?_
    have hfilter : es.filter (selects r) = victims :=
      Except.ok.inj ((rangeByScore_eq Double.orderedBy hes.represents r 0 (-1)).symm.trans hvictims)
    subst hfilter
    refine ⟨fun q hq => List.mem_of_mem_filter hq, (p.2, p.1), ?_, fun hmem => ?_⟩
    · exact hes.mem_iff.2 (Dict.lookup_eq_some_iff.2 hp)
    · rw [List.of_mem_filter hmem] at hnot
      cases hnot

end TinyRedis.Commands

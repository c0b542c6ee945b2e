import TinyRedis.Commands.ZAdd

/-!
# Errors of `ZADD`

`ZADD` finds out that a score is no number when it comes to it. By then the key may have been
created, and the pairs before it have been applied. So an error leaves the data as it was only if
the key was there, and the pairs before it ask for nothing new.
-/

namespace TinyRedis.Commands

open Lib Resp List

variable {env : Env} {argv : Args} {tx tx' : Tx} {w w' w₀ : World} {key : Bytes} {z z' : ZSetValue}
  {d : Dict Bytes Double} {f : ZAddFlags} {pairs : List (Bytes × Bytes)} {e e' : Entry}

/-! ## The same data -/

/-- Two scores of a member, where there may be none, that are equal for the code. The zeros of both
signs are. -/
def SameScore (a b : Option Double) : Prop :=
  b = a ∨ ∃ s s', a = some s ∧ b = some s' ∧ Score.eq s s' = true

/-- Two entries with the same deadline and the same value, or with sorted sets of the same members
and scores. -/
structure SameEntry (e e' : Entry) : Prop where
  deadline : e'.expiresAtMs = e.expiresAtMs
  value : e'.value = e.value ∨ ∃ z z', e.value = .zset z ∧ e'.value = .zset z' ∧
    ∀ member, SameScore (z.dict.lookup member) (z'.dict.lookup member)

/-- Every entry is the same as itself, NaN scores included. -/
theorem SameEntry.refl (e : Entry) : SameEntry e e := ⟨rfl, .inl rfl⟩

/-- Two sorted sets that are the same entry give each member the same score. -/
theorem SameEntry.sameScore {t : Int64} (h : SameEntry e ⟨.zset z', t⟩) (he : e.value = .zset z)
    (member : Bytes) :
    SameScore (z.dict.lookup member) (z'.dict.lookup member) := by
  rcases h.value with heq | ⟨z₁, z₂, h₁, h₂, hsame⟩
  · cases heq.trans he
    exact .inl rfl
  · cases he.symm.trans h₁
    cases h₂
    exact hsame member

/-- From the reading `i` of the clock to the reading `j`, an entry that did not expire stayed the
same, and no entry was created or changed. -/
structure SameData (env : Env) (i j : ℕ) (db db' : Database) : Prop where
  kept : ∀ d key e, (db.table d).lookup key = some e →
    (∀ n, i ≤ n → n < j → Database.expired e (env.nowMs n) = false) →
    ∃ e', (db'.table d).lookup key = some e' ∧ SameEntry e e'
  nothingNew : ∀ d key e', (db'.table d).lookup key = some e' →
    ∃ e, (db.table d).lookup key = some e ∧ SameEntry e e'

/-- Every database holds the same data as itself. -/
theorem SameData.refl (env : Env) (i j : ℕ) (db : Database) : SameData env i j db db :=
  ⟨fun _ _ e he _ => ⟨e, he, .refl e⟩, fun _ _ e he => ⟨e, he, .refl e⟩⟩

/-- Only the entry under a key that was found is another, and it is the same. -/
theorem Altered.sameData (h : Altered w₀ key e' w) (hlive : live env key w₀ = some e)
    (hsame : SameEntry e e') (i j : ℕ) : SameData env i j w₀.db w.db := by
  have hold := (lookup_of_live hlive).1
  refine ⟨fun d key₁ e₁ he₁ _ => ?_, fun d key₁ e₁ he₁ => ?_⟩
  · by_cases hkey : d = w₀.cs.dbIndex ∧ key₁ = key
    · obtain ⟨rfl, rfl⟩ := hkey
      cases hold.symm.trans he₁
      exact ⟨e', h.entry, hsame⟩
    · exact ⟨e₁, (h.others d key₁ hkey).trans he₁, .refl e₁⟩
  · by_cases hkey : d = w₀.cs.dbIndex ∧ key₁ = key
    · obtain ⟨rfl, rfl⟩ := hkey
      cases h.entry.symm.trans he₁
      exact ⟨e, hold, hsame⟩
    · exact ⟨e₁, (h.others d key₁ hkey).symm.trans he₁, .refl e₁⟩

/-- If the data is the same, the key of a set was found, and its scores are the same. -/
theorem Altered.of_sameData {i j : ℕ} (hgets : Gets env zsetKind ⟨SkipList.empty, ∅⟩ key e z w₀)
    (h : Altered w₀ key ⟨.zset z', e.expiresAtMs⟩ w) (hdata : SameData env i j w₀.db w.db) :
    live env key w₀ = some e ∧
      ∀ member, SameScore (z.dict.lookup member) (z'.dict.lookup member) := by
  obtain ⟨e₀, he₀, hsame⟩ := hdata.nothingNew _ _ _ h.entry
  have hvalue : e.value = .zset z := (zsetKind.put_of_get _ _ hgets.value).symm
  rcases hgets.found with hlive | ⟨hlive, rfl⟩
  · cases (lookup_of_live hlive).1.symm.trans he₀
    exact ⟨hlive, hsame.sameScore hvalue⟩
  · -- An entry without a deadline would have been found.
    obtain ⟨v, t⟩ := e₀
    have hdeadline : t = 0 := hsame.deadline.symm
    subst hdeadline
    rw [live_of_lookup he₀] at hlive
    cases hlive

/-! ## Failure -/

/-- Whether `ZADD` meets an error at one of the pairs: a score that is no number, or, with `INCR`, a
sum that is out of range. -/
def zaddFails (env : Env) (f : ZAddFlags) (pairs : List (Bytes × Bytes)) (d : Dict Bytes Double) :
    Bool :=
  if f.incr then pairs.any fun p =>
    match parseScore env p.1 with
    | none => true
    | some score => !refuses f (d.lookup p.2).isSome && incrOverflows env d p.2 score
  else pairs.any fun p => (parseScore env p.1).isNone

/-- The pairs fail exactly when one of the scores does not parse. -/
theorem zaddPairs_fails (env : Env) (f : ZAddFlags) (pairs : List (Bytes × Bytes))
    (d : Dict Bytes Double) :
    (zaddPairs env f pairs d).1 = pairs.any fun p => (parseScore env p.1).isNone := by
  induction pairs generalizing d with
  | nil => rfl
  | cons p pairs ih =>
    rw [zaddPairs, any_cons]
    cases parseScore env p.1 with
    | none => rfl
    | some score => exact ih _

/-- The outcome is a failure if and only if `ZADD` meets an error; and with `INCR` nothing has
changed then. -/
theorem zaddOutcome_failed_iff (hincr : f.incr = true → ∃ p, pairs = [p]) :
    (zaddOutcome env f pairs d).1 = .failed ↔ zaddFails env f pairs d = true := by
  unfold zaddOutcome zaddFails
  cases hf : f.incr with
  | false =>
    simp only [Bool.false_eq_true, if_false]
    rw [zaddPairs_fails]
    split_ifs with hfail
    · exact iff_of_true rfl hfail
    · exact iff_of_false nofun hfail
  | true =>
    obtain ⟨p, rfl⟩ := hincr hf
    simp only [if_true, any_cons, any_nil, Bool.or_false]
    unfold zaddIncrPair incrOverflows
    cases parseScore env p.1 with
    | none => exact iff_of_true rfl rfl
    | some score =>
      dsimp only
      split_ifs with hrefuse hover
      · rw [hrefuse]
        exact iff_of_false nofun nofun
      · rw [hover, Bool.not_eq_true _ |>.mp hrefuse]
        exact iff_of_true rfl rfl
      · rw [Bool.not_eq_true _ |>.mp hover, Bool.and_false]
        exact iff_of_false nofun nofun

/-- The scores that a failed call leaves. -/
theorem zaddOutcome_of_failed (hincr : f.incr = true → ∃ p, pairs = [p])
    (h : (zaddOutcome env f pairs d).1 = .failed) :
    (zaddOutcome env f pairs d).2 = if f.incr then d else (zaddPairs env f pairs d).2 := by
  unfold zaddOutcome at h ⊢
  split_ifs at h ⊢ with hf
  · obtain ⟨p, rfl⟩ := hincr hf
    unfold zaddIncrPair at h ⊢
    dsimp only at h ⊢
    cases hscore : parseScore env p.1 with
    | none => rfl
    | some score =>
      rw [hscore] at h
      dsimp only at h ⊢
      split_ifs at h ⊢
      rfl
  · rfl

/-- The pairs that are applied: those before the first score that is no number. -/
def validPairs (env : Env) (pairs : List (Bytes × Bytes)) : List (Bytes × Bytes) :=
  pairs.takeWhile fun p => (parseScore env p.1).isSome

/-- Some pairs ask for nothing new. The last pair for a member is one of a member that is not in the
set and that `XX` forbids to add, or of one in the set that has this score, or that `NX` forbids to
change. -/
def NothingNew (env : Env) (f : ZAddFlags) (pairs : List (Bytes × Bytes)) (d : Dict Bytes Double) :
    Prop :=
  ∀ us p vs, pairs = us ++ p :: vs → (∀ q ∈ vs, q.2 ≠ p.2) →
    (d.lookup p.2 = none → f.xx = true) ∧
    ∀ old, d.lookup p.2 = some old → f.nx = true ∨
      ∀ score, parseScore env p.1 = some score → Score.eq old score = true

/-- The pairs before the first bad score do to the dict what all of them do. -/
theorem zaddPairs_validPairs (env : Env) (f : ZAddFlags) (pairs : List (Bytes × Bytes))
    (d : Dict Bytes Double) :
    zaddPairs env f (validPairs env pairs) d = (false, (zaddPairs env f pairs d).2) := by
  induction pairs generalizing d with
  | nil => rfl
  | cons p pairs ih =>
    unfold validPairs
    rw [takeWhile_cons]
    cases hscore : parseScore env p.1 with
    | none =>
      rw [zaddPairs, hscore]
      rfl
    | some score =>
      rw [Option.isSome_some, if_pos rfl, zaddPairs, zaddPairs, hscore]
      exact ih _

/-- A pair for a member has a last one. -/
theorem exists_last_pair {m : Bytes} (h : ∃ p ∈ pairs, p.2 = m) :
    ∃ us p vs, pairs = us ++ p :: vs ∧ p.2 = m ∧ ∀ q ∈ vs, q.2 ≠ m := by
  induction pairs with
  | nil =>
    obtain ⟨p, hp, -⟩ := h
    cases hp
  | cons p pairs ih =>
    by_cases hlater : ∃ q ∈ pairs, q.2 = m
    · obtain ⟨us, q, vs, rfl, hq, hvs⟩ := ih hlater
      exact ⟨p :: us, q, vs, rfl, hq, hvs⟩
    · obtain ⟨q, hq, hqm⟩ := h
      rcases mem_cons.1 hq with rfl | hq
      · exact ⟨[], q, pairs, rfl, hqm, fun r hr hrm => hlater ⟨r, hr, hrm⟩⟩
      · exact absurd ⟨q, hq, hqm⟩ hlater

/-- A score may be replaced by an equal one in `SameScore`. -/
theorem sameScore_iff_of_eq {old s score : Double} (h : Score.eq s score = true) :
    SameScore (some old) (some s) ↔ Score.eq old score = true := by
  obtain ⟨hs, hscore, hkey⟩ := (Double.orderedBy.eq_iff _ _).1 h
  constructor
  · rintro (heq | ⟨_, _, hold, hs', heq⟩)
    · cases heq
      exact h
    · cases hold
      cases hs'
      obtain ⟨hold, -, hkey'⟩ := (Double.orderedBy.eq_iff _ _).1 heq
      exact (Double.orderedBy.eq_iff _ _).2 ⟨hold, hscore, hkey'.trans hkey⟩
  · intro hold
    obtain ⟨hold, -, hkey'⟩ := (Double.orderedBy.eq_iff _ _).1 hold
    exact .inr ⟨old, s, rfl, rfl,
      (Double.orderedBy.eq_iff _ _).2 ⟨hold, hs, hkey'.trans hkey.symm⟩⟩

/-- What the last pair for a member says about its score. -/
theorem sameScore_iff_of_last {us vs : List (Bytes × Bytes)} {p : Bytes × Bytes}
    (h : (zaddPairs env f (us ++ p :: vs) d).1 = false) (hvs : ∀ q ∈ vs, q.2 ≠ p.2) :
    SameScore (d.lookup p.2) ((zaddPairs env f (us ++ p :: vs) d).2.lookup p.2) ↔
      (d.lookup p.2 = none → f.xx = true) ∧
      ∀ old, d.lookup p.2 = some old → f.nx = true ∨
        ∀ score, parseScore env p.1 = some score → Score.eq old score = true := by
  cases hold : d.lookup p.2 with
  | none =>
    have hmem : p ∈ us ++ p :: vs := mem_append_right us mem_cons_self
    cases hxx : f.xx with
    | true =>
      have hnone : (zaddPairs env f (us ++ p :: vs) d).2.lookup p.2 = none :=
        zaddPairs_keeps (P := fun d => d.lookup p.2 = none) hold
          fun d score q _ hd => lookup_zaddPair_xx hxx hd
      exact iff_of_true (.inl hnone) ⟨fun _ => rfl, nofun⟩
    | false =>
      obtain ⟨s, hs⟩ := Option.isSome_iff_exists.1 (isSome_zaddPairs hxx h hmem)
      rw [hs]
      refine iff_of_false ?_ fun hcond => nomatch hcond.1 rfl
      rintro (hnone | ⟨_, _, hnone, -⟩) <;> cases hnone
  | some old =>
    cases hnx : f.nx with
    | true =>
      have hkept : (zaddPairs env f (us ++ p :: vs) d).2.lookup p.2 = some old :=
        zaddPairs_keeps (P := fun d => d.lookup p.2 = some old) hold
          fun d score q _ hd => lookup_zaddPair_nx hnx hd
      exact iff_of_true (.inl hkept) ⟨nofun, fun _ _ => .inl rfl⟩
    | false =>
      obtain ⟨score, s, hscore, hs, heq⟩ := eq_zaddPairs hnx h hvs (by rw [hold]; rfl)
      rw [hs, sameScore_iff_of_eq heq]
      refine ⟨fun hsame => ⟨nofun, fun old' hold' => .inr fun score' hscore' => ?_⟩,
        fun hcond => ?_⟩
      · cases hold'
        cases hscore.symm.trans hscore'
        exact hsame
      · exact (hcond.2 old rfl).resolve_left nofun score hscore

/-- Pairs leave every member with the score it had if and only if those that are applied ask for
nothing new. -/
theorem sameScore_zaddPairs_iff :
    (∀ m, SameScore (d.lookup m) ((zaddPairs env f pairs d).2.lookup m)) ↔
      NothingNew env f (validPairs env pairs) d := by
  have hvalid := zaddPairs_validPairs env f pairs d
  have hok : (zaddPairs env f (validPairs env pairs) d).1 = false := by rw [hvalid]
  have hsnd : (zaddPairs env f pairs d).2 = (zaddPairs env f (validPairs env pairs) d).2 := by
    rw [hvalid]
  rw [hsnd]
  constructor
  · intro hsame us p vs hsplit hvs
    have hp := hsame p.2
    rw [hsplit] at hp hok
    exact (sameScore_iff_of_last hok hvs).1 hp
  · intro hnew m
    by_cases hm : ∃ p ∈ validPairs env pairs, p.2 = m
    · obtain ⟨us, p, vs, hsplit, rfl, hvs⟩ := exists_last_pair hm
      rw [hsplit] at hok ⊢
      exact (sameScore_iff_of_last hok hvs).2 (hnew us p vs hsplit hvs)
    · -- No pair names this member.
      refine .inl (zaddPairs_keeps (P := fun d' => d'.lookup m = d.lookup m) rfl ?_)
      intro d' score q hq hd'
      exact (lookup_zaddPair_of_ne fun hqm => hm ⟨q, hq, hqm.symm⟩).trans hd'

/-- A reply that begins as an error does is one of a failure. -/
theorem Verdict.Of.eq_failed {o : Verdict} {v : Reply} {b : Bytes} (h : o.Of v)
    (hb : v.encode = 45 :: b) : o = .failed := by
  have herror : v.isError = true := by
    rw [← Bool.not_eq_false]
    exact fun hnot => Reply.encode_ne_error hnot b hb
  cases o with
  | failed => rfl
  | forbidden =>
    rw [show v = .nullBulk from h] at herror
    cases herror
  | done =>
    rw [h.1] at herror
    cases herror

/-- An error of `ZADD` at one of the pairs. -/
theorem zadd_atomic_of_gets {lower : Bytes} (hkey : argv[1]? = some key)
    (haccepted : flagsAccepted argv = true)
    (hgets : Gets env zsetKind ⟨SkipList.empty, ∅⟩ key e z w)
    (hrun : zadd env argv lower w = .ok ((), w')) :
    ((∃ b, w'.out = w.out ++ 45 :: b) → SameData env w.tick w'.tick w.db w'.db) ↔
    (zaddFails env (flagsOf argv).2 (pairsOf (argv.drop (flagsOf argv).1)) z.dict = true →
      live env key w = some e ∧ ((flagsOf argv).2.incr = true ∨ NothingNew env (flagsOf argv).2
        (validPairs env (pairsOf (argv.drop (flagsOf argv).1))) z.dict)) := by
  have hone : (flagsOf argv).2.incr = true → ∃ p, pairsOf (argv.drop (flagsOf argv).1) = [p] :=
    fun hincr => by
      obtain ⟨p, ps, -, -, hpairs, hone⟩ := pairsOf_of_accepted haccepted
      exact ⟨p, by rw [hpairs, hone hincr]⟩
  obtain ⟨w₁, v, ⟨z', hdict, haltered⟩, rfl, hv⟩ := zadd_ends hkey haccepted hgets hrun
  have hfails : (zaddOutcome env (flagsOf argv).2 _ z.dict).1 = .failed ↔ _ :=
    zaddOutcome_failed_iff hone
  constructor
  · intro hatomic hfail
    have hfailed := hfails.2 hfail
    rw [hfailed] at hv
    obtain ⟨b, hb⟩ := exists_encode_of_isError hv
    have hdata := hatomic ⟨b, by rw [← hb, ← haltered.out]; rfl⟩
    obtain ⟨hlive, hlook⟩ := haltered.of_sameData hgets hdata
    refine ⟨hlive, or_iff_not_imp_left.2 fun hplain => sameScore_zaddPairs_iff.1 fun member => ?_⟩
    have hmember := hlook member
    rwa [hdict, zaddOutcome_of_failed hone hfailed, if_neg hplain] at hmember
  · rintro hcond ⟨b, hb⟩
    have hencode : v.encode = 45 :: b := by
      rw [← haltered.out] at hb
      exact append_cancel_left hb
    have hfailed := hv.eq_failed hencode
    obtain ⟨hlive, hunchanged⟩ := hcond (hfails.1 hfailed)
    have hvalue : e.value = .zset z := (zsetKind.put_of_get _ _ hgets.value).symm
    refine haltered.sameData hlive ⟨rfl, .inr ⟨z, z', hvalue, rfl, fun member => ?_⟩⟩ _ _
    rw [hdict, zaddOutcome_of_failed hone hfailed]
    split_ifs with hincr
    · exact .inl rfl
    · exact sameScore_zaddPairs_iff.2 (hunchanged.resolve_left hincr) member

/-- An error of `ZADD` leaves the data as it was if and only if the call does not reach the set, or
meets no error there, or the key was there, and, without `INCR`, the pairs before the first score
that is no number ask for nothing new. -/
theorem zadd_atomic_iff {depth : ℕ} (hcmd : commandOf argv = some .zadd)
    (hrun : dispatch env (depth + 1) argv tx w = .ok (((), tx'), w')) :
    ((∃ b, w'.out = w.out ++ 45 :: b) → SameData env w.tick w'.tick w.db w'.db) ↔
    (reaches env .zadd argv tx w = true → flagsAccepted argv = true →
      ∀ key e z, argv[1]? = some key → Gets env zsetKind ⟨SkipList.empty, ∅⟩ key e z w →
      zaddFails env (flagsOf argv).2 (pairsOf (argv.drop (flagsOf argv).1)) z.dict = true →
      live env key w = some e ∧ ((flagsOf argv).2.incr = true ∨ NothingNew env (flagsOf argv).2
        (validPairs env (pairsOf (argv.drop (flagsOf argv).1))) z.dict)) := by
  cases hreaches : reaches env .zadd argv tx w with
  | false =>
    rw [db_of_not_reaches hcmd rfl hreaches hrun]
    exact iff_of_true (fun _ => .refl env _ _ w.db) nofun
  | true =>
    have hhandler : zadd env argv (lowerName argv) w = .ok ((), w') :=
      (enters_of_reaches hreaches rfl).handler_ok hrun
    obtain ⟨key, hkey⟩ : ∃ key, argv[1]? = some key := by
      have hlen : 4 ≤ argv.length := minArgs_le_of_accepts (accepts_of_reaches hreaches)
      exact ⟨argv[1], getElem?_eq_getElem (by omega)⟩
    by_cases hrejected : flagsAccepted argv = false ∨ WrongType env zsetKind key w
    · rw [zadd_rejected hkey hrejected hhandler]
      refine iff_of_true (fun _ => .refl env _ _ w.db) fun _ haccepted key' e z hkey' hgets => ?_
      cases hkey.symm.trans hkey'
      rcases hrejected with hflags | hwrong
      · exact absurd (hflags.symm.trans haccepted) Bool.false_ne_true
      · exact absurd hwrong hgets.not_wrongType
    · rw [not_or, Bool.not_eq_false] at hrejected
      obtain ⟨haccepted, hright⟩ := hrejected
      obtain ⟨e, z, hgets⟩ :=
        (wrongType_or_gets env zsetKind ⟨SkipList.empty, ∅⟩ key w).resolve_left hright
      rw [zadd_atomic_of_gets hkey haccepted hgets hhandler]
      constructor
      · intro hcond _ _ key' e' z' hkey' hgets'
        cases hkey.symm.trans hkey'
        obtain ⟨rfl, rfl⟩ := hgets.unique hgets'
        exact hcond
      · intro hcond
        exact hcond rfl haccepted key e z hkey hgets

/-- `ZADD k nan b`, on a set with one member. -/
theorem zadd_atomic_iff_nan : ∃ (z : ZSetValue) (w' : World) (b : Bytes),
    dispatch nanEnv 2 [bytes "ZADD", bytes "k", bytes "nan", bytes "b"] .idle
      (worldWith (.zset z)) = .ok (((), .idle), w') ∧
    w'.out = (worldWith (.zset z)).out ++ 45 :: b ∧
    SameData nanEnv (worldWith (.zset z)).tick w'.tick (worldWith (.zset z)).db w'.db := by
  obtain ⟨z, hz⟩ := exists_scored
  obtain ⟨w', b, hrun, hb⟩ : ∃ w' b,
      dispatch nanEnv 2 [bytes "ZADD", bytes "k", bytes "nan", bytes "b"] .idle
        (worldWith (.zset z)) = .ok (((), .idle), w') ∧
      w'.out = (worldWith (.zset z)).out ++ 45 :: b := ⟨_, _, rfl, rfl⟩
  refine ⟨z, w', b, hrun, hb, (zadd_atomic_iff (by decide +kernel) hrun).2 ?_ ⟨b, hb⟩⟩
  intro _ _ key e z' hkey hgets _
  cases hkey
  have hfinds := finds_worldWith nanEnv zsetKind z
  obtain ⟨rfl, rfl⟩ := hgets.unique ⟨hfinds.value, .inl hfinds.live⟩
  refine ⟨hfinds.live, .inr fun us p vs hsplit => ?_⟩
  have hnil : validPairs nanEnv [(bytes "nan", bytes "b")] = [] := by decide +kernel
  cases append_eq_nil_iff.1 (hsplit.symm.trans hnil) |>.2

/-- `ZADD k 0 a nan b` on a new server is an error, and the key has been created, with the member
`a`. -/
theorem zadd_half : ∃ tx' w' z',
    dispatch nanEnv 2 [bytes "ZADD", bytes "k", bytes "0", bytes "a", bytes "nan", bytes "b"] .idle
      (freshServer.world 0) = .ok (((), tx'), w') ∧
    (∃ b, w'.out = (freshServer.world 0).out ++ 45 :: b) ∧
    Absent (bytes "k") (freshServer.world 0) ∧
    (∃ e, Stores zsetKind (bytes "k") e z' w') ∧ z'.dict.lookup (bytes "a") = some ⟨0⟩ := by
  obtain ⟨⟨⟨⟨⟩, tx'⟩, w'⟩, hrun, hw'⟩ := exists_ok_of_any
    (p := fun x : (Unit × Tx) × World => decide (x.2.out.head? = some 45) &&
      ((x.2.db.table x.2.cs.dbIndex).lookup (bytes "k")).any fun e : Entry =>
        (zsetKind.get e.value).any fun z : ZSetValue =>
          decide (z.dict.lookup (bytes "a") = some (⟨0⟩ : Double)))
    (x := dispatch nanEnv 2 [bytes "ZADD", bytes "k", bytes "0", bytes "a", bytes "nan", bytes "b"]
      .idle (freshServer.world 0)) (by decide +kernel)
  simp only [Bool.and_eq_true, decide_eq_true_eq, Option.any_eq_true] at hw'
  obtain ⟨hout, e, he, z', hz', ha⟩ := hw'
  obtain ⟨b, hb⟩ := head?_eq_some_iff.1 hout
  exact ⟨tx', w', z', hrun, ⟨b, hb⟩, rfl, ⟨e, he, hz'⟩, ha⟩

end TinyRedis.Commands

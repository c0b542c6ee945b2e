import TinyRedis.Commands.OneEntry
import TinyRedis.Commands.SortedSets

/-!
# `ZADD`

`ZADD` reads its flags, gets or creates the set, and then goes through the pairs of scores and
members one by one. What it does to the scores is a fold over the pairs (`zaddPairs`), which stops
at the first score that is no number.
-/

namespace TinyRedis.Commands

open Lib Resp List

variable {env : Env} {argv : Args} {tx : Tx} {w₀ w w' : World} {key member m lower : Bytes}
  {t : Int64} {z : ZSetValue} {d : Dict Bytes Double} {f : ZAddFlags} {score : Double} {i n : ℕ}
  {s : Bytes} {c : ZAddCount} {v : Reply} {r : Step ZAddCount Unit}

/-! ## Flags -/

/-- What a flag sets, `none` if the argument is no flag. -/
def setFlag (s : Bytes) (f : ZAddFlags) : Option ZAddFlags :=
  let o := toUpper s
  if o = bytes "NX" then some { f with nx := true }
  else if o = bytes "XX" then some { f with xx := true }
  else if o = bytes "CH" then some { f with ch := true }
  else if o = bytes "INCR" then some { f with incr := true }
  else none

/-- The flags at the beginning of some arguments, and the index after them. -/
def readFlags (i : ℕ) (f : ZAddFlags) : List Bytes → ℕ × ZAddFlags
  | [] => (i, f)
  | s :: rest =>
    match setFlag s f with
    | none => (i, f)
    | some f => readFlags (i + 1) f rest

/-- The flags of `ZADD`, and the index of the first score. -/
def flagsOf (argv : Args) : ℕ × ZAddFlags :=
  readFlags 2 ⟨false, false, false, false⟩ (argv.drop 2)

/-- One argument of the loop over the flags. -/
theorem zaddFlag_eq (hs : argv[i]? = some s) :
    zaddFlag argv i f = pure (match setFlag s f with
      | none => .stop (i, f)
      | some f => .next (i + 1) f) := by
  unfold zaddFlag setFlag
  rw [arg_bind_some hs]
  dsimp only
  split_ifs <;> rfl

/-- The loop over the flags ends where they do. -/
theorem flagLoop_eq (argv : Args) (f : ZAddFlags) (hn : argv.length ≤ i + n) (w : World) :
    ∃ r, argLoop argv (zaddFlag argv) n i f w = .ok (r, w) ∧
      (r = .stop (readFlags i f (argv.drop i)) ∨
        r = .next (readFlags i f (argv.drop i)).1 (readFlags i f (argv.drop i)).2) := by
  induction n generalizing i f with
  | zero =>
    rw [drop_eq_nil_of_le (by omega)]
    exact ⟨_, rfl, .inr rfl⟩
  | succ n ih =>
    rw [argLoop]
    split_ifs with hi
    · rw [zaddFlag_eq (getElem?_eq_getElem hi), pure_bind, drop_eq_getElem_cons hi, readFlags]
      cases setFlag argv[i] f with
      | none => exact ⟨_, rfl, .inl rfl⟩
      | some f => exact ih f (by omega)
    · rw [drop_eq_nil_of_le (by omega)]
      exact ⟨_, rfl, .inr rfl⟩

/-- `ZADD` after its flags. -/
theorem zadd_eq (lower : Bytes) (w : World) :
    zadd env argv lower w = zaddWith env argv lower (flagsOf argv).1 (flagsOf argv).2 w := by
  obtain ⟨r, hr, hcase⟩ := flagLoop_eq argv ⟨false, false, false, false⟩
    (show argv.length ≤ 2 + argv.length by omega) w
  unfold zadd
  rw [bind_apply, hr, ok_bind]
  rcases hcase with rfl | rfl <;> rfl

/-! ## Writes of scores -/

/-- Only the set under the key may be another: it has the scores `d`, and the deadline `t`. -/
def Scored (w₀ : World) (key : Bytes) (t : Int64) (d : Dict Bytes Double) (w : World) : Prop :=
  ∃ z : ZSetValue, z.dict = d ∧ Altered w₀ key ⟨.zset z, t⟩ w

/-- The set has its scores. -/
theorem Altered.scored (h : Altered w₀ key ⟨.zset z, t⟩ w) : Scored w₀ key t z.dict w :=
  ⟨z, rfl, h⟩

/-- A sorted set is written. -/
theorem Altered.store_scored {z' : ZSetValue} (h : Altered w₀ key ⟨.zset z, t⟩ w)
    (hstore : store zsetKind (some key) z' w = .ok ((), w')) : Scored w₀ key t z'.dict w' := by
  rw [(h.stores (k := zsetKind) rfl).store_eq] at hstore
  cases hstore
  exact ⟨z', rfl, h.assign _⟩

/-- An operation of the skip list that returns, and what comes after it. -/
theorem exists_of_liftSkipList_bind {α β : Type} {x : Except Fault α} {g : α → M β}
    {r : β × World} (h : (liftSkipList x >>= g) w = .ok r) : ∃ a, x = .ok a ∧ g a w = .ok r := by
  cases x with
  | error f => cases h
  | ok a => exact ⟨a, rfl, h⟩

/-- The level of a new node is drawn. -/
theorem randomLevel_bind {β : Type} (g : ℕ → M β) (w : World) : (randomLevel env >>= g) w =
    g (SkipList.randomLevel (env.flips w.tick)) { w with tick := w.tick + 1 } := rfl

/-- A new member gets a score. -/
theorem addPair_scored (h : Altered w₀ key ⟨.zset z, t⟩ w)
    (hrun : addPair env (some key) z score member w = .ok ((), w')) :
    Scored w₀ key t (z.dict.insert member score) w' := by
  unfold addPair at hrun
  rw [randomLevel_bind] at hrun
  obtain ⟨⟨added, sl⟩, -, hstore⟩ := exists_of_liftSkipList_bind hrun
  exact h.reads.store_scored hstore

/-- A member gets another score. -/
theorem rescore_scored {old : Double} (h : Altered w₀ key ⟨.zset z, t⟩ w)
    (hrun : rescore env (some key) z old score member w = .ok ((), w')) :
    Scored w₀ key t (z.dict.insert member score) w' := by
  unfold rescore at hrun
  obtain ⟨⟨erased, sl⟩, -, hrest⟩ := exists_of_liftSkipList_bind hrun
  dsimp only at hrest
  rw [randomLevel_bind] at hrest
  obtain ⟨⟨added, sl'⟩, -, hstore⟩ := exists_of_liftSkipList_bind hrest
  exact h.reads.store_scored hstore

/-! ## The pairs -/

/-- One pair of `ZADD` without `INCR`. -/
def zaddPair (f : ZAddFlags) (score : Double) (member : Bytes) (d : Dict Bytes Double) :
    Dict Bytes Double :=
  match d.lookup member with
  | some old => if f.nx || Score.eq old score then d else d.insert member score
  | none => if f.xx then d else d.insert member score

/-- The pairs of `ZADD` without `INCR`, up to the first score that is no number: whether there is
one, and the scores. -/
def zaddPairs (env : Env) (f : ZAddFlags) :
    List (Bytes × Bytes) → Dict Bytes Double → Bool × Dict Bytes Double
  | [], d => (false, d)
  | p :: pairs, d =>
    match parseScore env p.1 with
    | none => (true, d)
    | some score => zaddPairs env f pairs (zaddPair f score p.2 d)

/-- The arguments after the flags, as pairs of a score and a member. -/
def pairsOf : List Bytes → List (Bytes × Bytes)
  | s :: member :: rest => (s, member) :: pairsOf rest
  | _ => []

/-- One pair, if its score is a number. -/
theorem zaddOne_scored (h : Scored w₀ key t d w) (hs : argv[i]? = some s)
    (hm : argv[i + 1]? = some member) (hscore : parseScore env s = some score)
    (hrun : zaddOne env argv f (some key) i c w = .ok (r, w')) :
    (∃ c', r = .next (i + 2) c') ∧ Scored w₀ key t (zaddPair f score member d) w' := by
  obtain ⟨z, rfl, h⟩ := h
  unfold zaddOne at hrun
  rw [arg_bind_some hs, hscore] at hrun
  dsimp only at hrun
  rw [arg_bind_some hm, (h.stores (k := zsetKind) rfl).deref_bind] at hrun
  unfold zaddPair
  cases hlook : z.dict.lookup member with
  | some old =>
    rw [hlook] at hrun
    dsimp only at hrun ⊢
    split_ifs at hrun ⊢
    · cases hrun
      exact ⟨⟨c, rfl⟩, h.scored⟩
    · obtain ⟨⟨⟩, w₁, hw₁, hrest⟩ := exists_of_bind hrun
      cases hrest
      exact ⟨⟨_, rfl⟩, rescore_scored h hw₁⟩
  | none =>
    rw [hlook] at hrun
    dsimp only at hrun ⊢
    split_ifs at hrun ⊢
    · cases hrun
      exact ⟨⟨c, rfl⟩, h.scored⟩
    · obtain ⟨⟨⟩, w₁, hw₁, hrest⟩ := exists_of_bind hrun
      cases hrest
      exact ⟨⟨_, rfl⟩, addPair_scored h hw₁⟩

/-- A score that is no number ends the loop with an error. -/
theorem zaddOne_invalid (hs : argv[i]? = some s) (hscore : parseScore env s = none) :
    zaddOne env argv f (some key) i c w =
      .ok (.stop (), replied (.error (bytes "ERR value is not a valid float")) w) := by
  unfold zaddOne
  rw [arg_bind_some hs, hscore]
  dsimp only
  unfold errNotFloat
  rw [bind_apply, replyError_eq, ok_bind]
  rfl

/-- How the loop over the pairs ends: with the scores `d`, and with an error if `failed`. -/
def PairsDone (w₀ : World) (key : Bytes) (t : Int64) (failed : Bool) (d : Dict Bytes Double)
    (r : Step ZAddCount Unit) (w' : World) : Prop :=
  ∃ w, Scored w₀ key t d w ∧ if failed then
      r = .stop () ∧ w' = replied (.error (bytes "ERR value is not a valid float")) w
    else (∃ j c, r = .next j c) ∧ w' = w

/-- No pair is left. -/
theorem pairsDone_of_le (hi : argv.length ≤ i) (h : Scored w₀ key t d w) :
    PairsDone w₀ key t (zaddPairs env f (pairsOf (argv.drop i)) d).1
      (zaddPairs env f (pairsOf (argv.drop i)) d).2 (.next i c) w := by
  rw [drop_eq_nil_of_le hi]
  exact ⟨w, h, ⟨i, c, rfl⟩, rfl⟩

/-- The loop over the pairs goes through all of them, or ends with an error at the first score that
is no number. -/
theorem zaddLoop_done (hn : argv.length ≤ i + n) (heven : (argv.length - i) % 2 = 0)
    (h : Scored w₀ key t d w)
    (hrun : argLoop argv (zaddOne env argv f (some key)) n i c w = .ok (r, w')) :
    PairsDone w₀ key t (zaddPairs env f (pairsOf (argv.drop i)) d).1
      (zaddPairs env f (pairsOf (argv.drop i)) d).2 r w' := by
  induction n generalizing i c d w with
  | zero =>
    cases hrun
    exact pairsDone_of_le hn h
  | succ n ih =>
    rw [argLoop] at hrun
    split_ifs at hrun with hi
    · have hi' : i + 1 < argv.length := by omega
      rw [drop_eq_getElem_cons hi, drop_eq_getElem_cons hi', pairsOf]
      unfold zaddPairs
      cases hscore : parseScore env argv[i] with
      | none =>
        rw [bind_apply, zaddOne_invalid (getElem?_eq_getElem hi) hscore, ok_bind] at hrun
        cases hrun
        exact ⟨w, h, rfl, rfl⟩
      | some score =>
        obtain ⟨r₁, w₁, hw₁, hrest⟩ := exists_of_bind hrun
        obtain ⟨⟨c', rfl⟩, h₁⟩ := zaddOne_scored h (getElem?_eq_getElem hi)
          (getElem?_eq_getElem hi') hscore hw₁
        exact ih (by omega) (by omega) h₁ hrest
    · cases hrun
      exact pairsDone_of_le (by omega) h

/-! ## The outcome -/

/-- Whether a call fails, is forbidden by a flag, or succeeds. -/
inductive Verdict where
  | failed
  | forbidden
  | done

/-- What the code takes for forbidden in `INCR` mode. -/
def refuses (f : ZAddFlags) (known : Bool) : Bool := (f.nx && !known) || (f.xx && known)

/-- The pair of `ZADD` with `INCR`. -/
def zaddIncrPair (env : Env) (f : ZAddFlags) (s member : Bytes) (d : Dict Bytes Double) :
    Verdict × Dict Bytes Double :=
  match parseScore env s with
  | none => (.failed, d)
  | some score =>
    if refuses f (d.lookup member).isSome then (.forbidden, d)
    else
      let res := env.floats.add ((d.lookup member).getD Score.zero) score
      if res.isNaN || res.isInf then (.failed, d) else (.done, d.insert member res)

/-- The outcome of `ZADD` after the flags, and the scores it leaves. -/
def zaddOutcome (env : Env) (f : ZAddFlags) (pairs : List (Bytes × Bytes))
    (d : Dict Bytes Double) : Verdict × Dict Bytes Double :=
  if f.incr then
    match pairs with
    | p :: _ => zaddIncrPair env f p.1 p.2 d
    | [] => (.failed, d)
  else
    let r := zaddPairs env f pairs d
    (if r.1 then .failed else .done, r.2)

/-- The reply is an error, or nil, or neither. -/
def Verdict.Of : Verdict → Reply → Prop
  | .failed, v => v.isError = true
  | .forbidden, v => v = .nullBulk
  | .done, v => v.isError = false ∧ v ≠ .nullBulk

/-- A member gets a score, whether it is new or not. -/
theorem putScore_scored (h : Altered w₀ key ⟨.zset z, t⟩ w)
    (hrun : putScore env (some key) z score member w = .ok ((), w')) :
    Scored w₀ key t (z.dict.insert member score) w' := by
  unfold putScore at hrun
  cases hlook : z.dict.lookup member with
  | some old =>
    rw [hlook] at hrun
    exact rescore_scored h hrun
  | none =>
    rw [hlook] at hrun
    exact addPair_scored h hrun

/-- A score is incremented, unless the sum is out of range. -/
theorem incrScore_scored {delta : Double} {r : Option Double} (h : Altered w₀ key ⟨.zset z, t⟩ w)
    (hrun : incrScore env (some key) z delta member w = .ok (r, w')) :
    let res := env.floats.add ((z.dict.lookup member).getD Score.zero) delta
    if res.isNaN || res.isInf then r = none ∧ w' = w
    else r = some res ∧ Scored w₀ key t (z.dict.insert member res) w' := by
  unfold incrScore at hrun
  dsimp only at hrun ⊢
  split_ifs at hrun ⊢
  · cases hrun
    exact ⟨rfl, rfl⟩
  · obtain ⟨⟨⟩, w₁, hw₁, hrest⟩ := exists_of_bind hrun
    cases hrest
    exact ⟨rfl, putScore_scored h hw₁⟩

/-- How a call ends that has changed the scores to `d`. -/
def Ends (w₀ : World) (key : Bytes) (t : Int64) (o : Verdict × Dict Bytes Double) (w' : World) :
    Prop :=
  ∃ w v, Scored w₀ key t o.2 w ∧ w' = replied v w ∧ o.1.Of v

/-- `ZADD` with `INCR`. -/
theorem zaddIncr_ends (h : Scored w₀ key t d w) (hs : argv[i]? = some s)
    (hm : argv[i + 1]? = some member) (hrun : zaddIncr env argv f (some key) i w = .ok ((), w')) :
    Ends w₀ key t (zaddIncrPair env f s member d) w' := by
  obtain ⟨z, rfl, h⟩ := h
  unfold zaddIncr at hrun
  unfold zaddIncrPair
  rw [arg_bind_some hs] at hrun
  cases hscore : parseScore env s with
  | none =>
    rw [hscore] at hrun
    dsimp only at hrun ⊢
    unfold errNotFloat at hrun
    rw [replyError_eq] at hrun
    cases hrun
    exact ⟨w, _, h.scored, rfl, rfl⟩
  | some score =>
    rw [hscore] at hrun
    dsimp only at hrun ⊢
    rw [arg_bind_some hm, (h.stores (k := zsetKind) rfl).deref_bind] at hrun
    unfold refuses
    split_ifs at hrun ⊢ with hrefuse hoverflow
    · rw [replyNullBulk_eq] at hrun
      cases hrun
      exact ⟨w, _, h.scored, rfl, rfl⟩
    · obtain ⟨r, w₁, hw₁, hrest⟩ := exists_of_bind hrun
      have hres := incrScore_scored h hw₁
      dsimp only at hres
      rw [if_pos hoverflow] at hres
      obtain ⟨rfl, rfl⟩ := hres
      unfold errIncrOverflow at hrest
      dsimp only at hrest
      rw [replyError_eq] at hrest
      cases hrest
      exact ⟨w₁, _, h.scored, rfl, rfl⟩
    · obtain ⟨r, w₁, hw₁, hrest⟩ := exists_of_bind hrun
      have hres := incrScore_scored h hw₁
      dsimp only at hres
      rw [if_neg hoverflow] at hres
      obtain ⟨rfl, hscored⟩ := hres
      dsimp only at hrest
      rw [replyBulk_eq] at hrest
      cases hrest
      exact ⟨w₁, _, hscored, rfl, rfl, nofun⟩

/-- The flags and the number of arguments are such that `ZADD` goes on to the set. -/
def flagsAccepted (argv : Args) : Bool :=
  let (i, f) := flagsOf argv
  let rest := argv.length - i
  !(f.nx && f.xx) && !(f.incr && decide (rest ≠ 2)) && !decide (rest = 0 ∨ rest % 2 ≠ 0)

/-- The three tests between the flags and the set. -/
theorem flagsAccepted_iff : flagsAccepted argv = true ↔
    ((flagsOf argv).2.nx && (flagsOf argv).2.xx) = false ∧
    ((flagsOf argv).2.incr && decide (argv.length - (flagsOf argv).1 ≠ 2)) = false ∧
    ¬(argv.length - (flagsOf argv).1 = 0 ∨ (argv.length - (flagsOf argv).1) % 2 ≠ 0) := by
  unfold flagsAccepted
  simp only [Bool.and_eq_true, Bool.not_eq_true', decide_eq_false_iff_not, and_assoc]

/-- There is a pair after the flags, and with `INCR` only one. -/
theorem pairsOf_of_accepted (h : flagsAccepted argv = true) :
    ∃ (p : Bytes × Bytes) (ps : List (Bytes × Bytes)), argv[(flagsOf argv).1]? = some p.1 ∧
      argv[(flagsOf argv).1 + 1]? = some p.2 ∧ pairsOf (argv.drop (flagsOf argv).1) = p :: ps ∧
      ((flagsOf argv).2.incr = true → ps = []) := by
  obtain ⟨-, htwo, hrest⟩ := flagsAccepted_iff.1 h
  have hi : (flagsOf argv).1 < argv.length := by omega
  have hi' : (flagsOf argv).1 + 1 < argv.length := by omega
  refine ⟨(argv[(flagsOf argv).1], argv[(flagsOf argv).1 + 1]),
    pairsOf (argv.drop ((flagsOf argv).1 + 1 + 1)), getElem?_eq_getElem hi,
    getElem?_eq_getElem hi', ?_, fun hincr => ?_⟩
  · rw [drop_eq_getElem_cons hi, drop_eq_getElem_cons hi', pairsOf]
  · rw [hincr, Bool.true_and, decide_eq_false_iff_not, not_not] at htwo
    rw [drop_eq_nil_of_le (by omega)]
    rfl

/-- `ZADD` on a set that was got or created. -/
theorem zadd_ends {e : Entry} (hkey : argv[1]? = some key) (haccepted : flagsAccepted argv = true)
    (hgets : Gets env zsetKind ⟨SkipList.empty, ∅⟩ key e z w)
    (hrun : zadd env argv lower w = .ok ((), w')) :
    Ends w key e.expiresAtMs
      (zaddOutcome env (flagsOf argv).2 (pairsOf (argv.drop (flagsOf argv).1)) z.dict) w' := by
  obtain ⟨hnx, hincr, hrest⟩ := flagsAccepted_iff.1 haccepted
  obtain ⟨w₁, hw₁, haltered, -⟩ := hgets.findOrCreate_eq
  have hvalue : Value.zset z = e.value := zsetKind.put_of_get _ _ hgets.value
  have hscored : Scored w key e.expiresAtMs z.dict w₁ := by
    refine ⟨z, rfl, ?_⟩
    rw [hvalue]
    exact haltered
  rw [zadd_eq] at hrun
  unfold zaddWith at hrun
  rw [if_neg (ne_true_of_eq_false hnx), if_neg (ne_true_of_eq_false hincr), if_neg hrest,
    arg_bind_some hkey] at hrun
  unfold zsetCreate at hrun
  rw [bind_apply, hw₁, ok_bind] at hrun
  dsimp only at hrun
  unfold zaddOutcome
  cases hf : (flagsOf argv).2.incr with
  | true =>
    obtain ⟨p, ps, hs, hm, hpairs, -⟩ := pairsOf_of_accepted haccepted
    rw [if_pos hf] at hrun
    rw [if_pos rfl, hpairs]
    exact zaddIncr_ends hscored hs hm hrun
  | false =>
    rw [if_neg (ne_true_of_eq_false hf)] at hrun
    obtain ⟨r, w₂, hloop, hreply⟩ := exists_of_bind hrun
    obtain ⟨w₃, hscored', hdone⟩ := zaddLoop_done (by omega) (by omega) hscored hloop
    rw [if_neg Bool.false_ne_true]
    dsimp only
    split_ifs at hdone ⊢
    · obtain ⟨rfl, rfl⟩ := hdone
      cases hreply
      exact ⟨w₃, _, hscored', rfl, rfl⟩
    · obtain ⟨⟨j, c, rfl⟩, rfl⟩ := hdone
      dsimp only at hreply
      rw [replyInt_eq] at hreply
      cases hreply
      exact ⟨w₂, _, hscored', rfl, rfl, nofun⟩

/-- The errors of `ZADD` before it gets to the set leave the database alone. -/
theorem zadd_rejected (hkey : argv[1]? = some key)
    (h : flagsAccepted argv = false ∨ WrongType env zsetKind key w)
    (hrun : zadd env argv lower w = .ok ((), w')) : w'.db = w.db := by
  rw [zadd_eq] at hrun
  unfold zaddWith at hrun
  by_cases hboth : ((flagsOf argv).2.nx && (flagsOf argv).2.xx) = true
  · rw [if_pos hboth] at hrun
    cases hrun
    rfl
  by_cases hincr : ((flagsOf argv).2.incr && decide (argv.length - (flagsOf argv).1 ≠ 2)) = true
  · rw [if_neg hboth, if_pos hincr] at hrun
    cases hrun
    rfl
  by_cases hrest : argv.length - (flagsOf argv).1 = 0 ∨ (argv.length - (flagsOf argv).1) % 2 ≠ 0
  · rw [if_neg hboth, if_neg hincr, if_pos hrest] at hrun
    cases hrun
    rfl
  have haccepted : flagsAccepted argv = true :=
    flagsAccepted_iff.2 ⟨Bool.eq_false_iff.2 hboth, Bool.eq_false_iff.2 hincr, hrest⟩
  have hwrong := h.resolve_left (by rw [haccepted]; exact nofun)
  rw [if_neg hboth, if_neg hincr, if_neg hrest, arg_bind_some hkey] at hrun
  unfold zsetCreate at hrun
  rw [bind_apply, hwrong.findOrCreate_eq, ok_bind] at hrun
  cases hrun
  rfl

/-! ## What the flags promise -/

/-- The scores of other members stay. -/
theorem lookup_zaddPair_of_ne (hne : m ≠ member) :
    (zaddPair f score member d).lookup m = d.lookup m := by
  unfold zaddPair
  split <;> split_ifs
  · rfl
  · exact AList.lookup_insert_ne hne
  · rfl
  · exact AList.lookup_insert_ne hne

/-- With `NX` a score stays as it is. -/
theorem lookup_zaddPair_nx (hnx : f.nx = true) {s : Double} (hm : d.lookup m = some s) :
    (zaddPair f score member d).lookup m = some s := by
  by_cases hne : m = member
  · subst hne
    unfold zaddPair
    rw [hm]
    dsimp only
    rw [hnx, Bool.true_or, if_pos rfl]
    exact hm
  · rw [lookup_zaddPair_of_ne hne]
    exact hm

/-- With `XX` no member is added. -/
theorem lookup_zaddPair_xx (hxx : f.xx = true) (hm : d.lookup m = none) :
    (zaddPair f score member d).lookup m = none := by
  by_cases hne : m = member
  · subst hne
    unfold zaddPair
    rw [hm]
    dsimp only
    rw [if_pos hxx]
    exact hm
  · rw [lookup_zaddPair_of_ne hne]
    exact hm

/-- No member is removed. -/
theorem isSome_zaddPair (hm : (d.lookup m).isSome = true) :
    ((zaddPair f score member d).lookup m).isSome = true := by
  by_cases hne : m = member
  · subst hne
    obtain ⟨old, hold⟩ := Option.isSome_iff_exists.1 hm
    unfold zaddPair
    rw [hold]
    dsimp only
    split_ifs
    · exact hm
    · rw [AList.lookup_insert]
      rfl
  · rw [lookup_zaddPair_of_ne hne]
    exact hm

/-- Without `XX` the member is there in the end. -/
theorem isSome_zaddPair_self (hxx : f.xx = false) :
    ((zaddPair f score member d).lookup member).isSome = true := by
  cases hm : d.lookup member with
  | some old => exact isSome_zaddPair (by rw [hm]; rfl)
  | none =>
    unfold zaddPair
    rw [hm]
    dsimp only
    rw [hxx, if_neg Bool.false_ne_true, AList.lookup_insert]
    rfl

/-- Without `NX` a member that is there has the score in the end. -/
theorem eq_zaddPair_self (hnx : f.nx = false) (hscore : score.isNaN = false)
    (hm : (d.lookup member).isSome = true) :
    ∃ s, (zaddPair f score member d).lookup member = some s ∧ Score.eq s score = true := by
  obtain ⟨old, hold⟩ := Option.isSome_iff_exists.1 hm
  unfold zaddPair
  rw [hold]
  dsimp only
  rw [hnx, Bool.false_or]
  split_ifs with heq
  · exact ⟨old, hold, heq⟩
  · exact ⟨score, AList.lookup_insert _, (Double.orderedBy.eq_iff _ _).2 ⟨hscore, hscore, rfl⟩⟩

variable {pairs us vs : List (Bytes × Bytes)} {p : Bytes × Bytes} {m : Bytes}

/-- What every pair keeps, all pairs keep. -/
theorem zaddPairs_keeps {P : Dict Bytes Double → Prop} (hd : P d)
    (hstep : ∀ d score, ∀ p ∈ pairs, P d → P (zaddPair f score p.2 d)) :
    P (zaddPairs env f pairs d).2 := by
  induction pairs generalizing d with
  | nil => exact hd
  | cons p pairs ih =>
    unfold zaddPairs
    cases parseScore env p.1 with
    | none => exact hd
    | some score =>
      exact ih (hstep d score p mem_cons_self hd) fun d score q hq =>
        hstep d score q (mem_cons_of_mem p hq)

/-- All pairs, if no score is invalid: the first, and then the others. -/
theorem zaddPairs_cons (h : (zaddPairs env f (p :: pairs) d).1 = false) :
    ∃ score, parseScore env p.1 = some score ∧
      zaddPairs env f (p :: pairs) d = zaddPairs env f pairs (zaddPair f score p.2 d) := by
  rw [zaddPairs] at h ⊢
  cases hscore : parseScore env p.1 with
  | none =>
    rw [hscore] at h
    cases h
  | some score => exact ⟨score, rfl, rfl⟩

/-- Some pairs, and then others. -/
theorem zaddPairs_append (h : (zaddPairs env f (us ++ vs) d).1 = false) :
    zaddPairs env f (us ++ vs) d = zaddPairs env f vs (zaddPairs env f us d).2 := by
  induction us generalizing d with
  | nil => rfl
  | cons p us ih =>
    rw [cons_append] at h ⊢
    obtain ⟨score, hscore, heq⟩ := zaddPairs_cons h
    rw [heq] at h ⊢
    rw [ih h, zaddPairs, hscore]

/-- NaN is not accepted. -/
theorem not_isNaN_of_parseScore (h : parseScore env s = some score) : score.isNaN = false := by
  unfold parseScore at h
  split at h
  · cases h
  · split_ifs at h with hnan
    cases h
    exact Bool.not_eq_true _ ▸ hnan

/-- Without `XX`, every member is there in the end. -/
theorem isSome_zaddPairs (hxx : f.xx = false) (h : (zaddPairs env f pairs d).1 = false)
    (hp : p ∈ pairs) : ((zaddPairs env f pairs d).2.lookup p.2).isSome = true := by
  obtain ⟨us, vs, rfl⟩ := append_of_mem hp
  have happend := zaddPairs_append h
  rw [happend] at h ⊢
  obtain ⟨score, -, heq⟩ := zaddPairs_cons h
  rw [heq]
  exact zaddPairs_keeps (P := fun d => (d.lookup p.2).isSome = true) (isSome_zaddPair_self hxx)
    fun d score q _ hd => isSome_zaddPair hd

/-- Without `NX`, a member that was there has the score of the last pair for it in the end. -/
theorem eq_zaddPairs (hnx : f.nx = false) (h : (zaddPairs env f (us ++ p :: vs) d).1 = false)
    (hvs : ∀ q ∈ vs, q.2 ≠ p.2) (hold : (d.lookup p.2).isSome = true) :
    ∃ score s, parseScore env p.1 = some score ∧
      (zaddPairs env f (us ++ p :: vs) d).2.lookup p.2 = some s ∧ Score.eq s score = true := by
  have happend := zaddPairs_append h
  rw [happend] at h ⊢
  obtain ⟨score, hscore, heq⟩ := zaddPairs_cons h
  have hus : ((zaddPairs env f us d).2.lookup p.2).isSome = true :=
    zaddPairs_keeps (P := fun d => (d.lookup p.2).isSome = true) hold
      fun d score q _ hd => isSome_zaddPair hd
  obtain ⟨s, hs, hseq⟩ := eq_zaddPair_self hnx (not_isNaN_of_parseScore hscore) hus
  refine ⟨score, s, hscore, ?_, hseq⟩
  rw [heq]
  exact zaddPairs_keeps (P := fun d => d.lookup p.2 = some s) hs
    fun d score q hq hd => (lookup_zaddPair_of_ne (hvs q hq).symm).trans hd

/-- The increment of the score is out of range. -/
def incrOverflows (env : Env) (d : Dict Bytes Double) (member : Bytes) (score : Double) : Bool :=
  let res := env.floats.add ((d.lookup member).getD Score.zero) score
  res.isNaN || res.isInf

end TinyRedis.Commands

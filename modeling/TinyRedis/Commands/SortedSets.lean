import TinyRedis.Commands.Calls
import TinyRedis.Db.Indexed
import TinyRedis.SkipList.Scores

/-!
# Ranges of sorted sets

What the commands that read, count, and remove a range of a sorted set do, when a lookup finds the
set.
-/

namespace TinyRedis.Commands

open Lib Lib.Window Resp SkipList List

variable {env : Env} {argv : Args} {tx : Tx} {w : World} {key : Bytes} {e : Entry} {z : ZSetValue}
  {es : List (Double × Bytes)} {a b : Bytes} {r : ScoreRange Double}
  {v victims : List (Double × Bytes)}

/-! ## Arguments -/

/-- The range that two bounds describe, if both are valid. -/
def rangeOf (env : Env) (a b : Bytes) : Option (ScoreRange Double) :=
  match parseScoreBound env.floats a, parseScoreBound env.floats b with
  | some min, some max => some (toRange min max)
  | _, _ => none

/-- The range arguments are parsed as `rangeOf`. -/
theorem scoreRangeArg_eq {i j : ℕ} (ha : argv[i]? = some a) (hb : argv[j]? = some b) :
    scoreRangeArg env argv i j = pure (rangeOf env a b) := by
  unfold scoreRangeArg rangeOf
  rw [arg_bind_some ha, arg_bind_some hb]
  cases parseScoreBound env.floats a <;> cases parseScoreBound env.floats b <;> rfl

/-- The options of a range of scores, as they are read from the arguments. -/
def HasOptions (argv : Args) (o : ScoreOptions) : Prop :=
  ∀ w, ∃ i, argLoop argv (byScoreOption argv) argv.length 4 ⟨false, 0, -1⟩ w = .ok (.next i o, w)

/-- What `AppendScoredPairs` replies: the members, each with its score if asked for. -/
def scoredReply (env : Env) (withScores : Bool) (v : List (Double × Bytes)) : Reply :=
  .array <| List.map .bulk <|
    if withScores then v.flatMap fun e => [e.2, formatDouble env.floats e.1] else v.map Prod.snd

/-- The scored pairs are sent as `scoredReply`. -/
theorem replyScoredPairs_eq (v : List (Double × Bytes)) (withScores : Bool) (w : World) :
    replyScoredPairs env v withScores w = .ok ((), replied (scoredReply env withScores v) w) := by
  unfold replyScoredPairs
  split_ifs with hv hs
  · subst hv
    rw [replyEmptyArray_eq]
    cases withScores <;> rfl
  · rw [Bool.not_eq_true'] at hs
    subst hs
    exact replyBulkArray_eq _ w
  · rw [Bool.not_eq_true', Bool.not_eq_false] at hs
    subst hs
    exact replyBulkArray_eq _ w

/-- The reply of scored pairs is a well-formed one. -/
theorem wellFormed_scoredReply (withScores : Bool) (v : List (Double × Bytes)) :
    (scoredReply env withScores v).WellFormed :=
  Reply.allWellFormed_bulks _

/-- Only the reply to nothing is that to nothing. -/
theorem eq_nil_of_scoredReply {withScores : Bool}
    (h : scoredReply env withScores v = scoredReply env withScores []) : v = [] := by
  have hnil : scoredReply env withScores [] = .array [] := by cases withScores <;> rfl
  have hmap := map_eq_nil_iff.1 (Reply.array.inj (h.trans hnil))
  cases withScores with
  | true =>
    cases v with
    | nil => rfl
    | cons p v => cases hmap
  | false => exact map_eq_nil_iff.1 hmap

/-- A skip list operation that returns hands its value on. -/
theorem liftSkipList_ok_bind {α β : Type} {x : Except Fault α} {a : α} (h : x = .ok a)
    (f : α → M β) (w : World) : (liftSkipList x >>= f) w = f a w := by
  rw [h]
  rfl

/-- A fault of the skip list is a fault of the command. -/
theorem liftSkipList_error_bind {α β : Type} {x : Except Fault α} {g : Fault} (h : x = .error g)
    (f : α → M β) (w : World) : (liftSkipList x >>= f) w = .error (.skipList g) := by
  rw [h]
  rfl

/-- A set with the member `a` of score 0. -/
theorem exists_scored : ∃ z : ZSetValue, z.IndexedBy [(⟨0⟩, bytes "a")] := by
  obtain ⟨es, hes⟩ := ZSetValue.indexed_empty
  obtain ⟨added, sl, hr⟩ : ∃ added sl,
      SkipList.empty.insert 1 (⟨0⟩ : Double) (bytes "a") = .ok (added, sl) := ⟨_, _, rfl⟩
  obtain ⟨es', hes'⟩ := hes.insert (by decide) (by decide) (by decide) rfl hr
  have hone : es' = [(⟨0⟩, bytes "a")] := perm_singleton.1 hes'.perm
  exact ⟨_, hone ▸ hes'⟩

/-- The pairs of a set of the scores 0, 1 and 2. -/
def threePairs : List (Double × Bytes) :=
  [(⟨0⟩, bytes "a"), (⟨0x3FF0000000000000⟩, bytes "b"), (⟨0x4000000000000000⟩, bytes "c")]

/-- A set with these pairs. -/
theorem exists_threePairs : ∃ z : ZSetValue, z.IndexedBy threePairs := by
  obtain ⟨sl₁, sl₂, sl₃, h₁, h₂, h₃⟩ : ∃ sl₁ sl₂ sl₃ : SkipList Double,
      SkipList.empty.insert 1 ⟨0⟩ (bytes "a") = .ok (true, sl₁) ∧
      sl₁.insert 2 ⟨0x3FF0000000000000⟩ (bytes "b") = .ok (true, sl₂) ∧
      sl₂.insert 1 ⟨0x4000000000000000⟩ (bytes "c") = .ok (true, sl₃) := ⟨_, _, _, rfl, rfl, rfl⟩
  obtain ⟨_, hempty⟩ := ZSetValue.indexed_empty
  obtain ⟨_, hone⟩ := hempty.insert (by decide) (by decide) (by decide) rfl h₁
  obtain ⟨_, htwo⟩ := hone.insert (by decide) (by decide) (by decide) rfl h₂
  obtain ⟨es, hes⟩ := htwo.insert (by decide) (by decide) (by decide) rfl h₃
  -- The pairs are in order, so they are known from the graph of the dict.
  have hsorted : (threePairs.map (keyOf Double.key)).Pairwise (· < ·) := by decide +kernel
  have heq : es = threePairs := (hes.perm.trans (reverse_perm threePairs)).eq_of_pairwise
    (fun _ _ _ _ hlt hgt => absurd hgt hlt.asymm) (pairwise_map.1 hes.represents.sorted)
    (pairwise_map.1 hsorted)
  exact ⟨_, heq ▸ hes⟩

/-- An environment in which `strtod` reads `nan` as NaN, and every other text as zero. -/
def nanEnv : Env :=
  { stillEnv with floats := { stillFloats with
      strtod := fun s => if s = bytes "nan" then (⟨0x7FF8000000000000⟩, 3) else (⟨0⟩, s.length) } }

/-! ## Ranges of scores -/

/-- `ZRANGEBYSCORE` and `ZREVRANGEBYSCORE`, as far as the call of the skip list. -/
theorem zrangeByScoreWith_found (rev : Bool) {o : ScoreOptions} (hkey : argv[1]? = some key)
    (hmin : argv[if rev then 3 else 2]? = some a) (hmax : argv[if rev then 2 else 3]? = some b)
    (hfinds : Finds env zsetKind key e z w) (ho : HasOptions argv o) :
    zrangeByScoreWith env argv rev w =
      match rangeOf env a b with
      | none => errBound (afterLookup env key w)
      | some r => (liftSkipList (z.sl.rangeByScore r rev o.offset o.count) >>= fun v =>
          replyScoredPairs env v o.withScores) (afterLookup env key w) := by
  unfold zrangeByScoreWith
  rw [arg_bind_some hkey, hfinds.withTyped_eq, scoreRangeArg_eq hmin hmax, pure_bind]
  cases rangeOf env a b with
  | none => rfl
  | some r =>
    obtain ⟨i, hi⟩ := ho (afterLookup env key w)
    dsimp only
    rw [bind_apply, hi, ok_bind]
    exact hfinds.stores.deref_bind _

/-- The range that the skip list returns is replied. -/
theorem zrangeByScoreWith_run (rev : Bool) {o : ScoreOptions} (hkey : argv[1]? = some key)
    (hmin : argv[if rev then 3 else 2]? = some a) (hmax : argv[if rev then 2 else 3]? = some b)
    (hfinds : Finds env zsetKind key e z w) (ho : HasOptions argv o) (hr : rangeOf env a b = some r)
    (hv : z.sl.rangeByScore r rev o.offset o.count = .ok v) : zrangeByScoreWith env argv rev w =
      .ok ((), replied (scoredReply env o.withScores v) { w with tick := w.tick + 1 }) := by
  rw [zrangeByScoreWith_found rev hkey hmin hmax hfinds ho, hr]
  dsimp only
  rw [liftSkipList_ok_bind hv, replyScoredPairs_eq, hfinds.afterLookup_eq]

/-! ## Removals -/

/-- Removing a pair that is there takes it out of both indexes. -/
theorem removePair_indexed (h : z.IndexedBy es) {p : Double × Bytes} (hp : p ∈ es) :
    ∃ z', removePair z p.1 p.2 = .ok z' ∧ z'.IndexedBy (es.erase p) := by
  obtain ⟨sl, hr, h'⟩ := h.erase_eq hp
  refine ⟨⟨sl, z.dict.erase p.2⟩, ?_, h'⟩
  unfold removePair
  rw [hr]
  rfl

/-- The pairs are removed one after the other, so each must be there until its turn comes. -/
theorem removePairs_indexed (hnodup : victims.Nodup) (hsub : ∀ p ∈ victims, p ∈ es)
    (h : z.IndexedBy es) :
    ∃ z', removePairs victims z = .ok z' ∧ z'.IndexedBy (es.diff victims) := by
  induction victims generalizing z es with
  | nil => exact ⟨z, rfl, h⟩
  | cons p victims ih =>
    obtain ⟨hp, hnodup⟩ := nodup_cons.1 hnodup
    obtain ⟨z₁, hr, h₁⟩ := removePair_indexed h (hsub p mem_cons_self)
    have hsub₁ : ∀ q ∈ victims, q ∈ es.erase p := fun q hq =>
      (mem_erase_of_ne (ne_of_mem_of_not_mem hq hp)).2 (hsub q (mem_cons_of_mem _ hq))
    obtain ⟨z', hr', h'⟩ := ih hnodup hsub₁ h₁
    refine ⟨z', ?_, ?_⟩
    · unfold removePairs
      rw [hr]
      exact hr'
    · rwa [diff_cons]

/-- The set under the key has exactly the pairs `es`, and the deadline is that of the entry `e`. -/
def HasPairs (key : Bytes) (e : Entry) (es : List (Double × Bytes)) (w : World) : Prop :=
  ∃ z, Stores zsetKind key { e with value := .zset z } z w ∧ z.IndexedBy es

/-- A stored sorted set has the pairs both indexes hold. -/
theorem hasPairs_of_stores (hstores : Stores zsetKind key e z w) (hes : z.IndexedBy es) :
    HasPairs key e es w := by
  refine ⟨z, ?_, hes⟩
  rw [show Value.zset z = e.value from zsetKind.put_of_get _ _ hstores.value]
  exact hstores

/-- A reply leaves the pairs alone. -/
theorem HasPairs.reply (h : HasPairs key e es w) (v : Reply) : HasPairs key e es (replied v w) := by
  obtain ⟨z, hstores, hes⟩ := h
  exact ⟨z, hstores.replied v, hes⟩

/-- The pairs of a range are removed, and their number is replied. -/
theorem removeRange_found (range : SkipList Double → Except Fault (List (Double × Bytes)))
    (hstores : Stores zsetKind key e z w) (hes : z.IndexedBy es) (hrange : range z.sl = .ok victims)
    (hsub : victims.Sublist es) : ∃ w', removeRange (some key) range w = .ok ((), w') ∧
      w'.out = w.out ++ (Reply.int victims.length).encode ∧
        HasPairs key e (es.diff victims) w' := by
  obtain ⟨z', hr, hes'⟩ := removePairs_indexed (hes.nodup.sublist hsub)
    (fun p hp => hsub.subset hp) hes
  unfold removeRange
  rw [hstores.deref_bind, liftSkipList_ok_bind hrange, liftSkipList_ok_bind hr,
    hstores.store_bind, replyInt_eq]
  exact ⟨_, rfl, rfl, z', (Stores.assign z').replied _, hes'⟩

section

variable (hkey : argv[1]? = some key) (hmin : argv[2]? = some a) (hmax : argv[3]? = some b)
  (hfinds : Finds env zsetKind key e z w)
include hkey hmin hmax hfinds

/-- `ZCOUNT` on a sorted set, with the bounds still to parse. -/
theorem zcount_found : zcount env argv w =
    match rangeOf env a b with
    | none => errBound (afterLookup env key w)
    | some r => (liftSkipList (z.sl.countInRange r) >>= fun n => replyInt n)
        (afterLookup env key w) := by
  unfold zcount
  rw [arg_bind_some hkey, hfinds.withTyped_eq, scoreRangeArg_eq hmin hmax, pure_bind]
  cases rangeOf env a b with
  | none => rfl
  | some r => exact hfinds.stores.deref_bind _

/-- `ZCOUNT` replies the number of the pairs in the range. -/
theorem zcount_run (hes : z.IndexedBy es) (hr : rangeOf env a b = some r) :
    zcount env argv w = .ok ((), replied (.int (es.filter (selects r)).length)
      { w with tick := w.tick + 1 }) := by
  rw [zcount_found hkey hmin hmax hfinds, hr]
  dsimp only
  rw [liftSkipList_ok_bind (countInRange_eq Double.orderedBy hes.represents r), replyInt_eq,
    hfinds.afterLookup_eq]

/-- `ZREMRANGEBYSCORE` on a sorted set, with the bounds still to parse. -/
theorem zremrangebyscore_found : zremrangebyscore env argv w =
    match rangeOf env a b with
    | none => errBound (afterLookup env key w)
    | some r => removeRange (some key) (fun sl => sl.rangeByScore r false 0 (-1))
        (afterLookup env key w) := by
  unfold zremrangebyscore
  rw [arg_bind_some hkey, hfinds.withTyped_eq, scoreRangeArg_eq hmin hmax, pure_bind]
  cases rangeOf env a b with
  | none => rfl
  | some r => rfl

/-- `ZREMRANGEBYSCORE` removes the pairs in the range and replies their number. -/
theorem zremrangebyscore_run (hes : z.IndexedBy es) (hr : rangeOf env a b = some r) :
    ∃ w', zremrangebyscore env argv w = .ok ((), w') ∧
      w'.out = w.out ++ (Reply.int (es.filter (selects r)).length).encode ∧
      HasPairs key e (es.diff (es.filter (selects r))) w' := by
  have hall : z.sl.rangeByScore r false 0 (-1) = .ok (es.filter (selects r)) :=
    rangeByScore_eq Double.orderedBy hes.represents r 0 (-1)
  rw [zremrangebyscore_found hkey hmin hmax hfinds, hr]
  exact removeRange_found (fun sl => sl.rangeByScore r false 0 (-1)) hfinds.stores hes hall
    filter_sublist

end

end TinyRedis.Commands

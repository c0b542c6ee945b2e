import TinyRedis.Commands.SortedSets
import TinyRedis.Commands.Windows

/-!
# Removals from sorted sets

A command that removes members of a sorted set removes what the corresponding command that reads
returns. The pops delete one node at a time, and the others collect the pairs of a range and then
delete each of them, while the reads walk over the list.
-/

namespace TinyRedis.Commands

open Lib Lib.Window Resp SkipList

variable {env : Env} {argv : Args} {tx : Tx} {w : World} {key : Bytes} {e : Entry} {z : ZSetValue}
  {es : List (Double × Bytes)} {start stop n : ℤ}

/-! ## Reading by rank -/

/-- The options of a range of ranks, as they are read from the arguments. -/
def HasRangeOptions (argv : Args) (isZrange : Bool) (o : RangeOptions) : Prop :=
  ∀ w, ∃ i, argLoop argv (zrangeOption argv isZrange) argv.length 4 ⟨false, !isZrange⟩ w =
    .ok (.next i o, w)

/-- The pairs from the first to the last, or from the last to the first. -/
def view (rev : Bool) (es : List (Double × Bytes)) : List (Double × Bytes) :=
  if rev then es.reverse else es

/-- `ZRANGE` and `ZREVRANGE` reply the slice of the pairs in their direction. -/
theorem zrangeWith_found {isZrange : Bool} {o : RangeOptions} (hkey : argv[1]? = some key)
    (hstart : HasInt argv 2 start) (hstop : HasInt argv 3 stop)
    (ho : HasRangeOptions argv isZrange o) (hfinds : Finds env zsetKind key e z w)
    (hes : Holds z.sl es) :
    zrangeWith env argv isZrange w = .ok ((), replied
      (scoredReply env o.withScores (slice start stop (view o.rev es)))
      { w with tick := w.tick + 1 }) := by
  obtain ⟨i, hi⟩ := ho (afterLookup env key w)
  unfold zrangeWith
  rw [arg_bind_some hkey, hfinds.withTyped_eq]
  unfold zrangeBody
  rw [twoInts_eq hstart hstop, pure_bind]
  dsimp only
  rw [bind_apply, hi, ok_bind]
  refine (hfinds.stores.deref_bind _).trans ?_
  rw [liftSkipList_ok_bind (rangeByRank_eq hes start stop o.rev), replyScoredPairs_eq,
    hfinds.afterLookup_eq]
  rfl

/-! ## Pops -/

/-- The function of the skip list that pops. -/
def popEndOf (rev : Bool) :
    SkipList Double → Except Fault (Option (Double × Bytes) × SkipList Double) :=
  if rev then SkipList.popMax else SkipList.popMin

/-- There is nothing to pop from an empty sorted set. -/
theorem popEndOf_nil (rev : Bool) (h : z.IndexedBy []) : popEndOf rev z.sl = .ok (none, z.sl) := by
  cases rev with
  | true => exact popMax_nil h.represents.holds
  | false => exact popMin_nil h.represents.holds

/-- A pop takes the first pair of the view, and leaves the others. -/
theorem popEndOf_cons (rev : Bool) {p : Double × Bytes} (h : z.IndexedBy (view rev (p :: es))) :
    ∃ sl, popEndOf rev z.sl = .ok (some p, sl) ∧
      ZSetValue.IndexedBy ⟨sl, z.dict.erase p.2⟩ (view rev es) := by
  cases rev with
  | true =>
    have h' : z.IndexedBy (es.reverse ++ [p]) := by
      rw [← List.reverse_cons]
      exact h
    exact h'.popMax_eq
  | false => exact h.popMin_eq

/-- The loop pops the first pairs of the view, and leaves the others. -/
theorem zpopLoop_eq (rev : Bool) (n : ℕ) (hstores : Stores zsetKind key e z w)
    (hes : z.IndexedBy (view rev es)) :
    ∃ w', zpopLoop env (popEndOf rev) (some key) n w = .ok ((es.take n).flatMap fun p =>
        [p.2, formatDouble env.floats p.1], w') ∧
      w'.out = w.out ∧ HasPairs key e (view rev (es.drop n)) w' := by
  induction n generalizing w z e es with
  | zero => exact ⟨w, rfl, rfl, hasPairs_of_stores hstores hes⟩
  | succ n ih =>
    unfold zpopLoop
    rw [hstores.deref_bind]
    cases es with
    | nil =>
      have hnil : z.IndexedBy [] := by cases rev <;> exact hes
      rw [liftSkipList_ok_bind (popEndOf_nil rev hnil)]
      exact ⟨w, rfl, rfl, hasPairs_of_stores hstores hes⟩
    | cons p es =>
      obtain ⟨sl, hpop, hes'⟩ := popEndOf_cons rev hes
      rw [liftSkipList_ok_bind hpop]
      dsimp only
      rw [hstores.store_bind]
      obtain ⟨w', hrun, hout, hpairs⟩ :=
        ih (Stores.assign (k := zsetKind) ⟨sl, z.dict.erase p.2⟩) hes'
      rw [bind_apply, hrun, ok_bind]
      exact ⟨w', rfl, hout, hpairs⟩

/-- The count of a pop is `n`, which is 1 if there is no argument. -/
def HasCount (argv : Args) (n : ℤ) : Prop :=
  (argv.length = 3 ∧ HasInt argv 2 n) ∨ (argv.length ≠ 3 ∧ n = 1)

/-- A positive count is the count argument. -/
theorem countArg_eq (h : HasCount argv n) (hpos : 1 ≤ n) : countArg argv 1 = pure (some n) := by
  unfold countArg
  rcases h with ⟨hlen, s, hs, hn⟩ | ⟨hlen, rfl⟩
  · rw [if_pos hlen, arg_bind_some hs, hn]
    dsimp only
    rw [if_neg (by omega)]
  · rw [if_neg hlen]

/-- The pops reply the first pairs in their direction and leave the others. -/
theorem zpopWith_found (rev : Bool) (hkey : argv[1]? = some key) (hn : HasCount argv n)
    (hpos : 1 ≤ n) (hfinds : Finds env zsetKind key e z w) (hes : z.IndexedBy es) :
    ∃ w', zpopWith env argv (popEndOf rev) w = .ok ((), w') ∧
      w'.out = w.out ++ (scoredReply env true ((view rev es).take n.toNat)).encode ∧
      HasPairs key e (view rev ((view rev es).drop n.toNat)) w' := by
  have hview : z.IndexedBy (view rev (view rev es)) := by
    cases rev with
    | true => exact (congrArg z.IndexedBy (List.reverse_reverse es)).mpr hes
    | false => exact hes
  obtain ⟨w', hrun, hout, hpairs⟩ := zpopLoop_eq rev n.toNat hfinds.stores hview
  unfold zpopWith
  rw [arg_bind_some hkey, hfinds.withTyped_eq, countArg_eq hn hpos, pure_bind]
  dsimp only
  rw [if_neg (by omega), bind_apply, hrun, ok_bind, replyBulkArray_eq]
  refine ⟨_, rfl, ?_, hpairs.reply _⟩
  unfold replied
  rw [hout]
  rfl

/-! ## Ranges -/

/-- `ZREMRANGEBYRANK` removes the slice of the pairs and replies its length. -/
theorem zremrangebyrank_found (hkey : argv[1]? = some key) (hstart : HasInt argv 2 start)
    (hstop : HasInt argv 3 stop) (hfinds : Finds env zsetKind key e z w) (hes : z.IndexedBy es) :
    ∃ w', zremrangebyrank env argv w = .ok ((), w') ∧
      w'.out = w.out ++ (Reply.int (slice start stop es).length).encode ∧
      HasPairs key e (es.diff (slice start stop es)) w' := by
  unfold zremrangebyrank
  rw [arg_bind_some hkey, hfinds.withTyped_eq, twoInts_eq hstart hstop, pure_bind]
  exact removeRange_found (fun sl => sl.rangeByRank start stop false) hfinds.stores hes
    (rangeByRank_eq hes.represents.holds start stop false) (slice_sublist start stop es)

/-- The call of a command on a key, with the two bounds of a range of scores, outside a
transaction. -/
structure ScoreCall (env : Env) (c : Cmd) (argv : Args) (tx : Tx) (key : Bytes)
    (r : ScoreRange Double) : Prop where
  accepts : accepts c argv = true
  outside : tx.inMulti = false
  key : argv[1]? = some key
  range : ∃ a b, argv[2]? = some a ∧ argv[3]? = some b ∧ rangeOf env a b = some r

/-- The call of a pop, outside a transaction. -/
structure PopCall (c : Cmd) (argv : Args) (tx : Tx) (key : Bytes) (n : ℤ) : Prop where
  accepts : accepts c argv = true
  outside : tx.inMulti = false
  key : argv[1]? = some key
  count : HasCount argv n

/-- The call replies `v`, and leaves exactly the pairs `rest` in the set under the key. -/
def Leaves (env : Env) (depth : ℕ) (argv : Args) (tx : Tx) (w : World) (v : Reply) (key : Bytes)
    (e : Entry) (rest : List (Double × Bytes)) : Prop :=
  ∃ w', Answers env depth argv tx w v w' ∧ HasPairs key e rest w'

/-- In two worlds in which the same set is found, a command that removes members in the one, and one
that reads them in the other, agree. `ZPOPMIN` and `ZPOPMAX` reply what the first members in their
order are, and leave the others; `ZREMRANGEBYRANK` and `ZREMRANGEBYSCORE` remove what `ZRANGE` and
`ZRANGEBYSCORE` return, and reply the number of it, which is that of `ZCOUNT`. -/
theorem removals_agree (hmax : env.opts.maxmemory = 0) (depth : ℕ) {w₀ : World}
    (hfinds₀ : Finds env zsetKind key e z w₀) (hfinds : Finds env zsetKind key e z w)
    (hes : z.IndexedBy es) :
    (∀ argv₀ tx₀ argv tx n, 1 ≤ n → WindowCall .zrange argv₀ tx₀ key 0 (n - 1) →
      HasRangeOptions argv₀ true ⟨true, false⟩ → PopCall .zpopmin argv tx key n →
      (∃ w', Answers env depth argv₀ tx₀ w₀ (scoredReply env true (es.take n.toNat)) w') ∧
      Leaves env depth argv tx w (scoredReply env true (es.take n.toNat)) key e
        (es.drop n.toNat)) ∧
    (∀ argv₀ tx₀ argv tx n, 1 ≤ n → WindowCall .zrevrange argv₀ tx₀ key 0 (n - 1) →
      HasRangeOptions argv₀ false ⟨true, true⟩ → PopCall .zpopmax argv tx key n →
      (∃ w', Answers env depth argv₀ tx₀ w₀ (scoredReply env true (es.reverse.take n.toNat)) w') ∧
      Leaves env depth argv tx w (scoredReply env true (es.reverse.take n.toNat)) key e
        (es.reverse.drop n.toNat).reverse) ∧
    (∀ argv₀ tx₀ argv tx withScores start stop, WindowCall .zrange argv₀ tx₀ key start stop →
      HasRangeOptions argv₀ true ⟨withScores, false⟩ →
      WindowCall .zremrangebyrank argv tx key start stop →
      (∃ w', Answers env depth argv₀ tx₀ w₀ (scoredReply env withScores (slice start stop es)) w') ∧
      Leaves env depth argv tx w (.int (slice start stop es).length) key e
        (es.filter (· ∉ slice start stop es))) ∧
    (∀ argv₀ tx₀ argv₁ tx₁ argv tx withScores r, ScoreCall env .zrangebyscore argv₀ tx₀ key r →
      HasOptions argv₀ ⟨withScores, 0, -1⟩ → ScoreCall env .zcount argv₁ tx₁ key r →
      ScoreCall env .zremrangebyscore argv tx key r →
      (∃ w', Answers env depth argv₀ tx₀ w₀
        (scoredReply env withScores (es.filter (selects r))) w') ∧
      (∃ w', Answers env depth argv₁ tx₁ w₀ (.int (es.filter (selects r)).length) w') ∧
      Leaves env depth argv tx w (.int (es.filter (selects r)).length) key e
        (es.filter (· ∉ es.filter (selects r)))) := by
  have hholds := hes.represents.holds
  have hdiff : ∀ v, es.diff v = es.filter (· ∉ v) := fun v => hes.nodup.sdiff_eq_filter
  have hgate : ∀ {c : Cmd} {w : World}, gated env c w = false := gated_of_unlimited hmax
  refine ⟨fun argv₀ tx₀ argv tx n hn hread hopts hpop => ?_,
    fun argv₀ tx₀ argv tx n hn hread hopts hpop => ?_,
    fun argv₀ tx₀ argv tx withScores start stop hread hopts hrem => ?_,
    fun argv₀ tx₀ argv₁ tx₁ argv tx withScores r hread hopts hcount hrem => ?_⟩
  · have hrun := zrangeWith_found hread.key hread.start hread.stop hopts hfinds₀ hholds
    rw [slice_zero_pred hn] at hrun
    obtain ⟨w', hrun', hout, hpairs⟩ := zpopWith_found false hpop.key hpop.count hn hfinds hes
    exact ⟨⟨_, (hread.enters hgate rfl).answers depth hrun rfl⟩, w',
      Enters.answers (.mk hpop.accepts hpop.outside hgate rfl) depth hrun' hout, hpairs⟩
  · have hrun := zrangeWith_found hread.key hread.start hread.stop hopts hfinds₀ hholds
    rw [slice_zero_pred hn] at hrun
    obtain ⟨w', hrun', hout, hpairs⟩ := zpopWith_found true hpop.key hpop.count hn hfinds hes
    exact ⟨⟨_, (hread.enters hgate rfl).answers depth hrun rfl⟩, w',
      Enters.answers (.mk hpop.accepts hpop.outside hgate rfl) depth hrun' hout, hpairs⟩
  · have hrun := zrangeWith_found hread.key hread.start hread.stop hopts hfinds₀ hholds
    obtain ⟨w', hrun', hout, hpairs⟩ :=
      zremrangebyrank_found hrem.key hrem.start hrem.stop hfinds hes
    rw [hdiff] at hpairs
    exact ⟨⟨_, (hread.enters hgate rfl).answers depth hrun rfl⟩, w',
      (hrem.enters hgate rfl).answers depth hrun' hout, hpairs⟩
  · obtain ⟨a₀, b₀, ha₀, hb₀, hr₀⟩ := hread.range
    obtain ⟨a₁, b₁, ha₁, hb₁, hr₁⟩ := hcount.range
    obtain ⟨a, b, ha, hb, hr⟩ := hrem.range
    have hall : z.sl.rangeByScore r false 0 (-1) = .ok (es.filter (selects r)) :=
      rangeByScore_eq Double.orderedBy hes.represents r 0 (-1)
    have hrun₀ := zrangeByScoreWith_run false hread.key ha₀ hb₀ hfinds₀ hopts hr₀ hall
    have hrun₁ := zcount_run hcount.key ha₁ hb₁ hfinds₀ hes hr₁
    obtain ⟨w', hrun', hout, hpairs⟩ := zremrangebyscore_run hrem.key ha hb hfinds hes hr
    rw [hdiff] at hpairs
    exact ⟨⟨_, Enters.answers (.mk hread.accepts hread.outside hgate rfl) depth hrun₀ rfl⟩,
      ⟨_, Enters.answers (.mk hcount.accepts hcount.outside hgate rfl) depth hrun₁ rfl⟩,
      w', Enters.answers (.mk hrem.accepts hrem.outside hgate rfl) depth hrun' hout, hpairs⟩

/-- `ZPOPMIN k 2`, and `ZREMRANGEBYRANK k 1 1`, on a set with three members. -/
theorem removals_agree_zpopmin : ∃ z : ZSetValue, z.IndexedBy threePairs ∧
    ((∃ w', Answers stillEnv 1 [bytes "ZRANGE", bytes "k", bytes "0", bytes "1", bytes "WITHSCORES"]
      .idle (worldWith (.zset z)) (scoredReply stillEnv true (threePairs.take 2)) w') ∧
    Leaves stillEnv 1 [bytes "ZPOPMIN", bytes "k", bytes "2"] .idle (worldWith (.zset z))
      (scoredReply stillEnv true (threePairs.take 2)) (bytes "k") ⟨.zset z, 0⟩
      (threePairs.drop 2)) ∧
    (∃ w', Answers stillEnv 1 [bytes "ZRANGE", bytes "k", bytes "1", bytes "1"]
      .idle (worldWith (.zset z)) (scoredReply stillEnv false (slice 1 1 threePairs)) w') ∧
    Leaves stillEnv 1 [bytes "ZREMRANGEBYRANK", bytes "k", bytes "1", bytes "1"] .idle
      (worldWith (.zset z)) (.int 1) (bytes "k") ⟨.zset z, 0⟩
      [(⟨0⟩, bytes "a"), (⟨0x4000000000000000⟩, bytes "c")] := by
  obtain ⟨z, hz⟩ := exists_threePairs
  have hfinds := finds_worldWith stillEnv zsetKind z
  have hall := removals_agree rfl 1 hfinds hfinds hz
  exact ⟨z, hz, hall.1 _ _ _ _ 2 (by decide)
    ⟨by decide +kernel, rfl, rfl, ⟨_, rfl, by decide +kernel⟩, ⟨_, rfl, by decide +kernel⟩⟩
    (fun w => ⟨5, rfl⟩) ⟨by decide +kernel, rfl, rfl, .inl ⟨rfl, _, rfl, by decide +kernel⟩⟩,
    hall.2.2.1 _ _ _ _ false 1 1
    ⟨by decide +kernel, rfl, rfl, ⟨_, rfl, by decide +kernel⟩, ⟨_, rfl, by decide +kernel⟩⟩
    (fun w => ⟨4, rfl⟩)
    ⟨by decide +kernel, rfl, rfl, ⟨_, rfl, by decide +kernel⟩, ⟨_, rfl, by decide +kernel⟩⟩⟩

/-- A set with the member `b` of the score NaN in front of the member `a` of the score 1. -/
def nanSet : ZSetValue where
  sl := (run [.insert 1 ⟨0x3FF0000000000000⟩ (bytes "a"),
      .insert 1 ⟨0x7FF8000000000000⟩ (bytes "b")] SkipList.empty).toOption.elim
    SkipList.empty Prod.snd
  dict := AList.insert (bytes "b") ⟨0x7FF8000000000000⟩
    (AList.insert (bytes "a") ⟨0x3FF0000000000000⟩ ∅)

/-- `ZREMRANGEBYRANK k 1 1` replies that it has removed the member that `ZRANGE k 1 1` returns, but
its search in the skip list stops before NaN: the member is gone from the dict only. -/
theorem zremrangebyrank_behind_nan : nanSet.Consistent ∧
    (∃ w', Answers stillEnv 1 [bytes "ZRANGE", bytes "k", bytes "1", bytes "1"] .idle
      (worldWith (.zset nanSet))
      (scoredReply stillEnv false [(⟨0x3FF0000000000000⟩, bytes "a")]) w') ∧
    ∃ w' z', Answers stillEnv 1 [bytes "ZREMRANGEBYRANK", bytes "k", bytes "1", bytes "1"] .idle
        (worldWith (.zset nanSet)) (.int 1) w' ∧
      Stores zsetKind (bytes "k") ⟨.zset z', 0⟩ z' w' ∧ z'.dict.lookup (bytes "a") = none ∧
      z'.sl.rangeByRank 1 1 false = .ok [(⟨0x3FF0000000000000⟩, bytes "a")] := by
  obtain ⟨sl, ha, hb⟩ : ∃ sl : SkipList Double,
      SkipList.empty.insert 1 ⟨0x3FF0000000000000⟩ (bytes "a") = .ok (true, sl) ∧
      sl.insert 1 ⟨0x7FF8000000000000⟩ (bytes "b") = .ok (true, nanSet.sl) := ⟨_, rfl, rfl⟩
  have hnew : bytes "b" ∉
      AList.insert (β := fun _ => Double) (bytes "a") ⟨0x3FF0000000000000⟩ ∅ := by decide
  have hone := ZSetValue.consistent_empty.insert_new (by decide) (by decide) (by decide) ha
  exact ⟨hone.insert_new (by decide) (by decide) hnew hb, ⟨_, rfl, rfl⟩, _, _, ⟨rfl, rfl⟩,
    ⟨rfl, rfl⟩, rfl, rfl⟩

end TinyRedis.Commands

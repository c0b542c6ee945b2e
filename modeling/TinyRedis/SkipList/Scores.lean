import Mathlib.Data.List.TakeWhile
import TinyRedis.SkipList.Range
import TinyRedis.SkipList.Runs

/-!
# Ranges of scores

The loops test whether a score is below the minimum or above the maximum, and take it if it is
neither (`selects`). If all scores compare, this is to be in the range (`inRange`). If one bound is
NaN, no score is in the range, but none is below or above that bound either.

In a list in order, the pairs below the minimum come first, and those above the maximum last, so
that `RangeByScore` and `CountInRange` take all that they select, although they do not look at every
pair.
-/

namespace TinyRedis.SkipList

open Lib Lib.SortedSet Lib.Window List

variable {σ κ : Type} [Score σ] [LinearOrder κ] {key : σ → κ} {ok : σ → Prop} {sl : SkipList σ}
  {es before bs : List (σ × Bytes)} {r : ScoreRange σ} {a b : σ}

/-- `a <= b`, where the scores compare. -/
theorem le_iff_key (hk : OrderedBy key ok) : Score.le a b = true ↔ ok a ∧ ok b ∧ key a ≤ key b := by
  unfold Score.le
  rw [Bool.or_eq_true, hk.lt_iff, hk.eq_iff, le_iff_lt_or_eq]
  tauto

/-- The score is in the range: at least the minimum, or above it if it is excluded, and at most the
maximum, or below it. -/
def inRange (r : ScoreRange σ) (v : σ) : Bool :=
  (if r.minExclusive then Score.lt r.min v else Score.le r.min v) &&
    (if r.maxExclusive then Score.lt v r.max else Score.le v r.max)

/-- `belowMin` compares the keys with the lower bound, and is false for a NaN. -/
theorem belowMin_iff (hk : OrderedBy key ok) : belowMin r a = true ↔
    ok a ∧ ok r.min ∧ if r.minExclusive then key a ≤ key r.min else key a < key r.min := by
  unfold belowMin
  cases r.minExclusive with
  | true => exact le_iff_key hk
  | false => exact hk.lt_iff _ _

/-- `aboveMax` compares the keys with the upper bound, and is false for a NaN. -/
theorem aboveMax_iff (hk : OrderedBy key ok) : aboveMax r a = true ↔
    ok r.max ∧ ok a ∧ if r.maxExclusive then key r.max ≤ key a else key r.max < key a := by
  unfold aboveMax
  cases r.maxExclusive with
  | true => exact le_iff_key hk
  | false => exact hk.lt_iff _ _

/-- `inRange` compares the keys with both bounds, and is false for a NaN. -/
theorem inRange_iff (hk : OrderedBy key ok) : inRange r a = true ↔ ok r.min ∧ ok r.max ∧ ok a ∧
    (if r.minExclusive then key r.min < key a else key r.min ≤ key a) ∧
    (if r.maxExclusive then key a < key r.max else key a ≤ key r.max) := by
  unfold inRange
  rw [Bool.and_eq_true]
  cases r.minExclusive <;> cases r.maxExclusive <;>
    simp only [Bool.false_eq_true, if_true, if_false, hk.lt_iff, le_iff_key hk] <;> tauto

/-- What is selected is in the range, if the scores compare. -/
theorem selects_eq_inRange (hk : OrderedBy key ok) (hmin : ok r.min) (hmax : ok r.max)
    {e : σ × Bytes} (he : ok e.1) : selects r e = inRange r e.1 := by
  rw [Bool.eq_iff_iff, inRange_iff hk]
  unfold selects
  rw [Bool.and_eq_true, Bool.not_eq_true', Bool.not_eq_true', ← Bool.not_eq_true,
    ← Bool.not_eq_true, belowMin_iff hk, aboveMax_iff hk]
  simp only [hmin, hmax, he, true_and]
  cases r.minExclusive <;> cases r.maxExclusive <;> simp

/-- No score is in a range with a bound that does not compare. -/
theorem inRange_of_not_ok (hk : OrderedBy key ok) (hr : ¬(ok r.min ∧ ok r.max)) :
    inRange r a = false := by
  rw [Bool.eq_false_iff, Ne, inRange_iff hk]
  exact fun h => hr ⟨h.1, h.2.1⟩

/-! ## In order -/

/-- A smaller score is below the range too. -/
theorem belowMin_of_le (hk : OrderedBy key ok) (ha : ok a) (hle : key a ≤ key b)
    (hb : belowMin r b = true) : belowMin r a = true := by
  rw [belowMin_iff hk] at hb ⊢
  refine ⟨ha, hb.2.1, ?_⟩
  have hbelow := hb.2.2
  split_ifs at hbelow ⊢
  · exact hle.trans hbelow
  · exact hle.trans_lt hbelow

/-- A larger score is above the range too. -/
theorem aboveMax_of_le (hk : OrderedBy key ok) (hb : ok b) (hle : key a ≤ key b)
    (ha : aboveMax r a = true) : aboveMax r b = true := by
  rw [aboveMax_iff hk] at ha ⊢
  refine ⟨ha.1, hb, ?_⟩
  have habove := ha.2.2
  split_ifs at habove ⊢
  · exact habove.trans hle
  · exact habove.trans_le hle

omit [Score σ] in
/-- The scores of a list in order do not go down. -/
theorem Represents.key_le (h : Represents key ok sl es) :
    es.Pairwise fun e e' => key e.1 ≤ key e'.1 := by
  refine (pairwise_map.1 h.sorted).imp fun hlt => ?_
  rcases keyOf_lt_iff.1 hlt with hlt | heq
  · exact hlt.le
  · exact heq.1.le

/-- A loop that stops at the maximum takes all that is selected. -/
theorem upTo_eq_filter (hk : OrderedBy key ok) (h : Represents key ok sl es) (r : ScoreRange σ) :
    upTo r es = es.filter (selects r) := by
  have hpairs : (es.filter fun e => !belowMin r e.1).Pairwise fun e e' =>
      (!aboveMax r e'.1) = true → (!aboveMax r e.1) = true := by
    refine (h.key_le.filter _).imp_of_mem fun {e e'} _ he' hle hnot => ?_
    have hok := h.ok e' (mem_of_mem_filter he')
    rw [Bool.not_eq_true', ← Bool.not_eq_true] at hnot ⊢
    exact fun habove => hnot (aboveMax_of_le hk hok hle habove)
  unfold upTo
  rw [takeWhile_eq_filter hpairs, filter_filter]
  refine filter_congr fun e _ => ?_
  unfold selects
  rw [Bool.and_comm]

/-- The pairs that the descent has passed are below the minimum. -/
theorem Sought.below (hk : OrderedBy key ok) (h : Represents key ok sl es)
    (hs : Sought r es before bs) {e : σ × Bytes} (he : e ∈ before) : belowMin r e.1 = true := by
  have hmem : ∀ e ∈ before, e ∈ es := fun e he => by
    rw [hs.split]
    exact mem_append_left _ he
  have hlt : ∀ z, before.getLast? = some z → belowMin r z.1 = true := by
    intro z hz
    have hz := hs.pass z hz
    rw [hk.lt_iff] at hz
    rw [belowMin_iff hk]
    refine ⟨hz.1, hz.2.1, ?_⟩
    split_ifs
    · exact hz.2.2.le
    · exact hz.2.2
  rcases eq_nil_or_concat before with rfl | ⟨init, z, rfl⟩
  · exact absurd he not_mem_nil
  · rw [concat_eq_append] at he hmem hlt hs
    have hz := hlt z getLast?_concat
    have horder := h.key_le
    rw [hs.split] at horder
    have hinit := (pairwise_append.1 (pairwise_append.1 horder).1).2.2
    rcases mem_append.1 he with hei | hei
    · exact belowMin_of_le hk (h.ok e (hmem e he)) (hinit e hei z (mem_singleton_self z)) hz
    · rwa [mem_singleton.1 hei]

/-- The entries below the range are skipped. -/
theorem filter_append_of_below (hbefore : ∀ e ∈ before, belowMin r e.1 = true) :
    upTo r (before ++ bs) = upTo r bs := by
  have hnil : (before.filter fun e => !belowMin r e.1) = [] :=
    filter_eq_nil_iff.2 fun e he => by rw [hbefore e he]; exact Bool.false_ne_true
  unfold upTo
  rw [filter_append, hnil, nil_append]

/-- The scores that are equal to the minimum are below it, if it is excluded. -/
theorem upTo_dropWhile (hex : r.minExclusive = true) (bs : List (σ × Bytes)) :
    upTo r (bs.dropWhile fun e => Score.eq e.1 r.min) = upTo r bs := by
  have hsplit := takeWhile_append_dropWhile (p := fun e : σ × Bytes => Score.eq e.1 r.min)
    (l := bs)
  have hties : ∀ e ∈ bs.takeWhile fun e => Score.eq e.1 r.min, belowMin r e.1 = true := by
    intro e he
    have htie := mem_takeWhile_imp he
    unfold belowMin Score.le
    rw [hex, if_pos rfl, htie, Bool.or_true]
  rw [← filter_append_of_below hties, hsplit]

/-- The ascending `RangeByScore` is a page of the pairs that are selected. -/
theorem rangeByScore_eq (hk : OrderedBy key ok) (h : Represents key ok sl es) (r : ScoreRange σ)
    (offset count : ℤ) : sl.rangeByScore r false offset count =
      .ok (page offset count (es.filter (selects r))) := by
  obtain ⟨before, bs, hs, hr⟩ := rangeByScore_ahead h.holds r offset count
  have hbs : upTo r bs = es.filter (selects r) := by
    rw [← upTo_eq_filter hk h, hs.split]
    exact (filter_append_of_below fun e he => hs.below hk h he).symm
  rw [hr]
  split_ifs with hex
  · rw [upTo_dropWhile hex, hbs]
  · rw [hbs]

/-- `CountInRange` counts the entries in the range. -/
theorem countInRange_eq (hk : OrderedBy key ok) (h : Represents key ok sl es) (r : ScoreRange σ) :
    sl.countInRange r = .ok (es.filter (selects r)).length := by
  rw [countInRange_ahead h.holds, upTo_eq_filter hk h]

/-- In every list that is reached from the empty one, with bounds that compare: the ascending range
of scores is a page of the pairs in the range, the descending one a page of the same pairs from the
last to the first, and the count is their number. -/
theorem rangeByScore_exact (hk : OrderedBy key ok) (ops : List (Op σ))
    (hops : ∀ op ∈ ops, op.Valid ok) (outs : List (Out (σ × Bytes))) (sl : SkipList σ)
    (hrun : run ops empty = .ok (outs, sl)) :
    ∃ ps, WellFormed key sl ps ∧ ∀ r : ScoreRange σ, ok r.min → ok r.max →
      (∀ offset count : ℤ, 0 ≤ offset →
        sl.rangeByScore r false offset count =
          .ok (page offset count ((sl.pairs ps).filter fun e => inRange r e.1)) ∧
        sl.rangeByScore r true offset count =
          .ok (page offset count ((sl.pairs ps).filter fun e => inRange r e.1).reverse)) ∧
      sl.countInRange r = .ok ((sl.pairs ps).filter fun e => inRange r e.1).length := by
  rcases run_refines hk ops hops represents_empty with
    ⟨outs', sl', es, hr, hrep, -⟩ | ⟨hr, -⟩
  · rw [hrun] at hr
    cases hr
    obtain ⟨ps, hwf, hpairs⟩ := hrep.wellFormed
    refine ⟨ps, hwf, fun r hmin hmax => ?_⟩
    have hfilter : (es.filter fun e => inRange r e.1) = es.filter (selects r) :=
      filter_congr fun e he => (selects_eq_inRange hk hmin hmax (hrep.ok e he)).symm
    rw [hpairs, hfilter]
    refine ⟨fun offset count hoffset => ⟨rangeByScore_eq hk hrep r offset count, ?_⟩,
      countInRange_eq hk hrep r⟩
    rw [rangeByScore_rev hrep.holds, if_pos (.inr hoffset)]
  · rw [hrun] at hr
    cases hr

/-- A list with the scores 1 and 2. -/
theorem rangeByScore_exact_double :
    ∃ outs sl ps,
      run [.insert 1 (⟨0x3FF0000000000000⟩ : Double) (bytes "a"),
        .insert 3 ⟨0x4000000000000000⟩ (bytes "b")] empty = .ok (outs, sl) ∧
      WellFormed Double.key sl ps ∧
      sl.countInRange ⟨Double.negHugeVal, ⟨0x4000000000000000⟩, false, true⟩ =
        .ok ((sl.pairs ps).filter fun e =>
          inRange ⟨Double.negHugeVal, ⟨0x4000000000000000⟩, false, true⟩ e.1).length := by
  obtain ⟨outs, sl, hrun⟩ : ∃ outs sl,
      run [.insert 1 (⟨0x3FF0000000000000⟩ : Double) (bytes "a"),
        .insert 3 ⟨0x4000000000000000⟩ (bytes "b")] empty = .ok (outs, sl) := ⟨_, _, rfl⟩
  obtain ⟨ps, hwf, hall⟩ := rangeByScore_exact Double.orderedBy _ (by decide) outs sl hrun
  exact ⟨outs, sl, ps, hrun, hwf, (hall _ (by decide) (by decide)).2⟩

/-- NaN is in no range, but neither below a minimum nor above a maximum, and the loops only test
that: in front of the score 1, it is returned and counted for the range from 1 to 2. -/
theorem rangeByScore_takes_nan :
    ∃ outs sl,
      run [.insert 1 (⟨0x3FF0000000000000⟩ : Double) (bytes "a"),
        .insert 1 ⟨0x7FF8000000000000⟩ (bytes "b")] empty = .ok (outs, sl) ∧
      sl.Path 0 sl.header [2, 1] ∧
      (sl.pairs [2, 1]).filter (fun e => inRange ⟨⟨0x3FF0000000000000⟩, ⟨0x4000000000000000⟩, false,
        false⟩ e.1) = [(⟨0x3FF0000000000000⟩, bytes "a")] ∧
      sl.rangeByScore ⟨⟨0x3FF0000000000000⟩, ⟨0x4000000000000000⟩, false, false⟩ false 0 (-1) =
        .ok [(⟨0x7FF8000000000000⟩, bytes "b"), (⟨0x3FF0000000000000⟩, bytes "a")] ∧
      sl.countInRange ⟨⟨0x3FF0000000000000⟩, ⟨0x4000000000000000⟩, false, false⟩ = .ok 2 :=
  ⟨_, _, rfl, ⟨⟨_, rfl⟩, ⟨_, rfl⟩, ⟨_, rfl⟩⟩, rfl, rfl, rfl⟩

end TinyRedis.SkipList

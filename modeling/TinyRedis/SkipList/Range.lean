import TinyRedis.Lib.Window
import TinyRedis.SkipList.Entries

/-!
# Ranges

`RangeByRank`, `RangeByScore`, and `CountInRange` walk along level 0. Each of their loops is a
function of the pairs that are ahead of it, and none of them needs the pairs to be in order:
`RangeByScore` passes over the pairs that are below the minimum, wherever they stand, and stops at
the first that is above the maximum.
-/

namespace TinyRedis.SkipList

open Lib.Window List

variable {σ : Type} {sl : SkipList σ} {ps after : List Ptr} {es bs l : List (σ × Bytes)} {fuel : ℕ}

/-- The nodes that a walk along level 0 has before it, and their pairs. -/
structure Ahead (sl : SkipList σ) (ps after : List Ptr) (bs : List (σ × Bytes)) : Prop where
  suffix : ∃ before, ps = before ++ after
  entries : after.map sl.entry = bs.map some

/-- From the first node all entries are ahead. -/
theorem Ahead.all (he : ps.map sl.entry = es.map some) : Ahead sl ps ps es := ⟨⟨[], rfl⟩, he⟩

/-- Past the last node nothing is ahead. -/
theorem Ahead.nil (h : Ahead sl ps [] bs) : bs = [] := by
  have := h.entries
  simpa using this.symm

/-- There are no more nodes ahead than the list has. -/
theorem Ahead.length_le (hs : Shape sl ps) (h : Ahead sl ps after bs) :
    after.length ≤ sl.length := by
  obtain ⟨before, hsplit⟩ := h.suffix
  rw [hs.length, hsplit, length_append]
  exact Nat.le_add_left _ _

/-- One step of a walk: the node, its link, and what is ahead then. -/
theorem Ahead.cons {x : Ptr} (hs : Shape sl ps) (h : Ahead sl ps (x :: after) bs) :
    ∃ n s e bs', bs = e :: bs' ∧ sl.deref x = .ok n ∧ (n.score, n.member) = e ∧
      sl.link x 0 = .ok ⟨after.head?, s⟩ ∧ Ahead sl ps after bs' := by
  obtain ⟨⟨before, rfl⟩, he⟩ := h
  cases bs with
  | nil => cases he
  | cons e bs =>
    obtain ⟨hx, hafter⟩ := List.cons.inj he
    obtain ⟨n, hn, hscore, hmember⟩ := deref_of_entry hx
    have hsplit : sl.header :: (before ++ x :: after) = (sl.header :: before) ++ x :: after := rfl
    obtain ⟨s, hlink⟩ := hs.link_next hsplit
    refine ⟨n, s, e, bs, rfl, deref_eq_ok hn, ?_, hlink, ⟨before ++ [x], by simp⟩, hafter⟩
    rw [hscore, hmember]

/-- A loop along level 0 that is given as many steps as there are nodes ahead. -/
theorem Ahead.induction (hs : Shape sl ps) {P : ℕ → List Ptr → List (σ × Bytes) → Prop}
    (hnil : ∀ fuel, P fuel [] [])
    (hcons : ∀ fuel x after n s bs, sl.deref x = .ok n → sl.link x 0 = .ok ⟨after.head?, s⟩ →
      Ahead sl ps (x :: after) ((n.score, n.member) :: bs) → Ahead sl ps after bs →
      P fuel after bs → P (fuel + 1) (x :: after) ((n.score, n.member) :: bs))
    (h : Ahead sl ps after bs) (hfuel : after.length ≤ fuel) : P fuel after bs := by
  induction after generalizing bs fuel with
  | nil =>
    rw [h.nil]
    exact hnil fuel
  | cons x after ih =>
    obtain ⟨n, s, e, bs, rfl, hn, rfl, hlink, hahead⟩ := h.cons hs
    rw [length_cons] at hfuel
    obtain ⟨fuel, rfl⟩ : ∃ k, fuel = k + 1 := ⟨fuel - 1, by omega⟩
    exact hcons fuel x after n s bs hn hlink h hahead (ih hahead (by omega))

/-! ## By rank -/

/-- The loop of `RangeByRank`, which is at the rank `r`. -/
theorem window_eq (hs : Shape sl ps) (start stop r : ℤ) (h : Ahead sl ps after bs)
    (hfuel : after.length ≤ fuel) :
    sl.window start stop fuel after.head? r =
      .ok ((bs.take (stop - r + 1).toNat).drop (start - r).toNat) := by
  refine Ahead.induction hs (P := fun fuel after bs => ∀ r,
    sl.window start stop fuel after.head? r =
      .ok ((bs.take (stop - r + 1).toNat).drop (start - r).toNat)) ?_ ?_ h hfuel r
  · intro fuel r
    rw [take_nil, drop_nil]
    cases fuel <;> rfl
  · intro fuel x after n s bs hn hlink _ _ ih r
    rw [head?_cons, window]
    by_cases hstop : stop < r
    · rw [if_pos hstop, show (stop - r + 1).toNat = 0 by omega, take_zero, drop_nil]
    · rw [if_neg hstop, hn, ok_bind, hlink, ok_bind, ih, ok_bind,
        show (stop - r + 1).toNat = (stop - (r + 1) + 1).toNat + 1 by omega, take_succ_cons]
      by_cases hstart : start ≤ r
      · rw [if_pos hstart, show (start - r).toNat = 0 by omega,
          show (start - (r + 1)).toNat = 0 by omega]
        rfl
      · rw [if_neg hstart, show (start - r).toNat = (start - (r + 1)).toNat + 1 by omega,
          drop_succ_cons]

/-- The loops of `RangeByRank` between two ranks that are in the list. -/
def betweenRanks (sl : SkipList σ) (rev : Bool) (lo hi : ℤ) : Except Fault (List (σ × Bytes)) := do
  let l ← sl.link sl.header 0
  if rev then do
    let tmp ← sl.window (sl.length - 1 - hi) (sl.length - 1 - lo) sl.length l.forward 0
    .ok tmp.reverse
  else sl.window lo hi sl.length l.forward 0

/-- `RangeByRank` cuts the two indices to the list. -/
theorem rangeByRank_clamped (sl : SkipList σ) (start stop : ℤ) (rev : Bool) {lo hi : ℤ}
    (hlo : lo = max 0 (norm sl.length start))
    (hhi : hi = min ((sl.length : ℤ) - 1) (norm sl.length stop)) :
    sl.rangeByRank start stop rev = if hi < lo then .ok [] else sl.betweenRanks rev lo hi := by
  have hlo' : (if norm sl.length start < 0 then 0 else norm sl.length start) = lo := by
    split_ifs <;> omega
  have hhi' : (if norm sl.length stop > (sl.length : ℤ) - 1 then (sl.length : ℤ) - 1
      else norm sl.length stop) = hi := by
    split_ifs <;> omega
  have hdef : sl.rangeByRank start stop rev = if sl.length = 0 then .ok [] else
      if lo > (sl.length : ℤ) - 1 then .ok [] else if norm sl.length stop < 0 then .ok [] else
      if lo > hi then .ok [] else sl.betweenRanks rev lo hi := by
    rw [← hlo', ← hhi']
    rfl
  rw [hdef]
  by_cases hlt : hi < lo
  · rw [if_pos hlt]
    split_ifs <;> rfl
  · rw [if_neg hlt, if_neg (by omega), if_neg (by omega), if_neg (by omega)]

/-- `RangeByRank` is the part of the list, or of the reversed list, between two indices. -/
theorem rangeByRank_eq (h : Holds sl es) (start stop : ℤ) (rev : Bool) :
    sl.rangeByRank start stop rev = .ok (slice start stop (if rev then es.reverse else es)) := by
  have hlen := h.length
  obtain ⟨ps, hs, he⟩ := h
  have hahead : Ahead sl ps ps es := .all he
  obtain ⟨s, hlink⟩ := hs.link_header
  have hwindow := fun lo hi => window_eq hs lo hi 0 hahead (hahead.length_le hs)
  rw [rangeByRank_clamped sl start stop rev rfl rfl]
  generalize hlo : max 0 (norm sl.length start) = lo
  generalize hhi : min ((sl.length : ℤ) - 1) (norm sl.length stop) = hi
  have hlength : (if rev then es.reverse else es).length = sl.length := by
    rw [hlen]
    split_ifs
    · exact length_reverse
    · rfl
  have hlo' : lo = max 0 (norm ((if rev then es.reverse else es).length) start) := by
    rw [hlength, hlo]
  have hhi' : hi = min (((if rev then es.reverse else es).length : ℤ) - 1)
      (norm ((if rev then es.reverse else es).length) stop) := by
    rw [hlength, hhi]
  by_cases hlt : hi < lo
  · rw [if_pos hlt, slice_eq_nil hlo' hhi' hlt]
  · unfold betweenRanks
    rw [if_neg hlt, slice_of_clamped hlo' hhi', hlink, ok_bind]
    cases rev with
    | true =>
      have hrev : ((es.take (es.length - lo.toNat)).drop (es.length - 1 - hi.toNat)).reverse = _ :=
        reverse_take_drop (by omega) (by omega)
      simp only [if_true, hwindow, ok_bind]
      rw [show (hi + 1).toNat = hi.toNat + 1 by omega, ← hrev]
      congr 4 <;> omega
    | false =>
      simp only [Bool.false_eq_true, if_false, hwindow]
      rw [sub_zero, sub_zero]

/-- What a rank range returns is among the entries, in order. -/
theorem rangeByRank_sublist (h : Holds sl es) {start stop : ℤ}
    (hl : sl.rangeByRank start stop false = .ok l) : l.Sublist es := by
  rw [rangeByRank_eq h] at hl
  cases hl
  exact slice_sublist start stop es

/-! ## By score -/

variable [Score σ] {r : ScoreRange σ} {e : σ × Bytes} {count : ℤ}

/-- The pairs that the loops take: neither below the minimum nor above the maximum. -/
def selects (r : ScoreRange σ) (e : σ × Bytes) : Bool := !belowMin r e.1 && !aboveMax r e.1

/-- What the loops that stop at the maximum take of the pairs ahead. -/
def upTo (r : ScoreRange σ) (bs : List (σ × Bytes)) : List (σ × Bytes) :=
  (bs.filter fun e => !belowMin r e.1).takeWhile fun e => !aboveMax r e.1

/-- An entry below the range is left out. -/
theorem upTo_cons_of_below (h : belowMin r e.1 = true) : upTo r (e :: bs) = upTo r bs := by
  unfold upTo
  rw [filter_cons_of_neg (by rw [h]; exact Bool.false_ne_true)]

/-- The first entry above the range ends it. -/
theorem upTo_cons_of_above (hmin : belowMin r e.1 = false) (hmax : aboveMax r e.1 = true) :
    upTo r (e :: bs) = [] := by
  unfold upTo
  rw [filter_cons_of_pos (by rw [hmin]; rfl),
    takeWhile_cons_of_neg (by rw [hmax]; exact Bool.false_ne_true)]

/-- An entry in the range is taken. -/
theorem upTo_cons (hmin : belowMin r e.1 = false) (hmax : aboveMax r e.1 = false) :
    upTo r (e :: bs) = e :: upTo r bs := by
  unfold upTo
  rw [filter_cons_of_pos (by rw [hmin]; rfl), takeWhile_cons_of_pos (by rw [hmax]; rfl)]

/-- The loop over the scores that are excluded goes to the first that is not. -/
theorem skipTies_eq (hs : Shape sl ps) (min : σ) (h : Ahead sl ps after bs)
    (hfuel : after.length ≤ fuel) :
    ∃ after', sl.skipTies min fuel after.head? = .ok after'.head? ∧
      Ahead sl ps after' (bs.dropWhile fun e => Score.eq e.1 min) := by
  refine Ahead.induction hs (P := fun fuel after bs => ∃ after', sl.skipTies min fuel after.head? =
    .ok after'.head? ∧ Ahead sl ps after' (bs.dropWhile fun e => Score.eq e.1 min)) ?_ ?_ h hfuel
  · intro fuel
    refine ⟨[], ?_, ⟨ps, (append_nil ps).symm⟩, rfl⟩
    cases fuel <;> rfl
  · intro fuel x after n s bs hn hlink h _ ih
    rw [head?_cons, skipTies, hn, ok_bind, hlink, ok_bind]
    by_cases htie : Score.eq n.score min = true
    · rw [if_pos htie, dropWhile_cons, if_pos htie]
      exact ih
    · rw [if_neg htie, dropWhile_cons, if_neg htie]
      exact ⟨x :: after, rfl, h⟩

/-- What is left of a page when `size` of its elements were put out. -/
def cut (count size : ℤ) (l : List (σ × Bytes)) : List (σ × Bytes) :=
  if 0 < count then l.take (count - size).toNat else l

omit [Score σ] in
/-- There is nothing to cut from nothing. -/
theorem cut_nil (count size : ℤ) : cut count size ([] : List (σ × Bytes)) = [] := by
  unfold cut
  rw [take_nil, ite_self]

omit [Score σ] in
/-- An entry is taken while the count is not reached. -/
theorem cut_cons {size : ℤ} (hsize : 0 < count → size < count) (e : σ × Bytes)
    (l : List (σ × Bytes)) : cut count size (e :: l) = e :: cut count (size + 1) l := by
  unfold cut
  split_ifs with hcount
  · have hlt := hsize hcount
    rw [show (count - size).toNat = (count - (size + 1)).toNat + 1 by omega, take_succ_cons]
  · rfl

/-- The loop of `RangeByScore`. -/
theorem collect_eq (hs : Shape sl ps) (r : ScoreRange σ) (offset count skipped size : ℤ)
    (h : Ahead sl ps after bs) (hfuel : after.length ≤ fuel) (hskipped : 0 ≤ skipped)
    (hsize : 0 < count → size < count) :
    sl.collect r offset count fuel after.head? skipped size =
      .ok (cut count size ((upTo r bs).drop (offset - skipped).toNat)) := by
  refine Ahead.induction hs (P := fun fuel after bs => ∀ skipped size : ℤ, 0 ≤ skipped →
    (0 < count → size < count) → sl.collect r offset count fuel after.head? skipped size =
    .ok (cut count size ((upTo r bs).drop (offset - skipped).toNat))) ?_ ?_ h hfuel skipped size
    hskipped hsize
  · intro fuel skipped size _ _
    show _ = Except.ok (cut count size (([] : List (σ × Bytes)).drop _))
    rw [drop_nil, cut_nil]
    cases fuel <;> rfl
  · intro fuel x after n s bs hn hlink _ _ ih skipped size hskipped hsize
    rw [head?_cons, collect, hn, ok_bind, hlink, ok_bind]
    cases hmin : belowMin r n.score with
    | true => rw [if_pos rfl, ih skipped size hskipped hsize, upTo_cons_of_below hmin]
    | false =>
      rw [if_neg Bool.false_ne_true]
      cases hmax : aboveMax r n.score with
      | true => rw [if_pos rfl, upTo_cons_of_above hmin hmax, drop_nil, cut_nil]
      | false =>
        rw [if_neg Bool.false_ne_true, upTo_cons hmin hmax]
        by_cases hskip : offset > 0 ∧ skipped < offset
        · rw [if_pos hskip, ih (skipped + 1) size (by omega) hsize,
            show (offset - skipped).toNat = (offset - (skipped + 1)).toNat + 1 by omega,
            drop_succ_cons]
        · have hzero : (offset - skipped).toNat = 0 := by omega
          rw [if_neg hskip, hzero, drop_zero, cut_cons hsize]
          by_cases hfull : count > 0 ∧ size + 1 ≥ count
          · unfold cut
            rw [if_pos hfull, if_pos hfull.1, show (count - (size + 1)).toNat = 0 by omega,
              take_zero]
          · rw [if_neg hfull, ih skipped (size + 1) hskipped (by omega), hzero, drop_zero, ok_bind]

/-- The loop of `RangeByScore` from its beginning. -/
theorem collect_page (hs : Shape sl ps) (r : ScoreRange σ) (offset : ℤ) (hcount : count ≠ 0)
    (h : Ahead sl ps after bs) : sl.collect r offset count sl.length after.head? 0 0 =
      .ok (page offset count (upTo r bs)) := by
  rw [collect_eq hs r offset count 0 0 h (h.length_le hs) (le_refl _) id, sub_zero]
  unfold cut page
  rw [sub_zero]
  split_ifs
  · omega
  · rfl
  · rfl
  · omega

/-- The loop of the descending `RangeByScore`. -/
theorem collectAll_eq (hs : Shape sl ps) (r : ScoreRange σ) (h : Ahead sl ps after bs)
    (hfuel : after.length ≤ fuel) :
    sl.collectAll r fuel after.head? = .ok (bs.filter (selects r)) := by
  refine Ahead.induction hs (P := fun fuel after bs =>
    sl.collectAll r fuel after.head? = .ok (bs.filter (selects r))) ?_ ?_ h hfuel
  · intro fuel
    cases fuel <;> rfl
  · intro fuel x after n s bs hn hlink _ _ ih
    rw [head?_cons, collectAll, hn, ok_bind, hlink, ok_bind, ih, ok_bind, filter_cons]
    unfold selects
    cases belowMin r n.score with
    | true => rfl
    | false => cases aboveMax r n.score <;> rfl

/-- The loop of `CountInRange`. -/
theorem countFrom_eq (hs : Shape sl ps) (r : ScoreRange σ) (h : Ahead sl ps after bs)
    (hfuel : after.length ≤ fuel) :
    sl.countFrom r fuel after.head? = .ok (upTo r bs).length := by
  refine Ahead.induction hs (P := fun fuel after bs =>
    sl.countFrom r fuel after.head? = .ok (upTo r bs).length) ?_ ?_ h hfuel
  · intro fuel
    cases fuel <;> rfl
  · intro fuel x after n s bs hn hlink _ _ ih
    rw [head?_cons, countFrom, hn, ok_bind, hlink, ok_bind]
    cases hmin : belowMin r n.score with
    | true => rw [if_pos rfl, ih, upTo_cons_of_below hmin]
    | false =>
      rw [if_neg Bool.false_ne_true]
      cases hmax : aboveMax r n.score with
      | true => rw [if_pos rfl, upTo_cons_of_above hmin hmax, length_nil]
      | false =>
        rw [if_neg Bool.false_ne_true, ih, ok_bind, upTo_cons hmin hmax, length_cons]

/-- The pairs that the ascending `RangeByScore` has before it after its descent, and after the
scores that are excluded. -/
structure Sought (r : ScoreRange σ) (es before bs : List (σ × Bytes)) : Prop where
  split : es = before ++ bs
  pass : ∀ a ∈ before.getLast?, Score.lt a.1 r.min = true
  stop : ∀ b ∈ bs.head?, Score.lt b.1 r.min = false

/-- The ascending `RangeByScore` goes to the minimum, and takes what is then ahead. -/
theorem rangeByScore_ahead (h : Holds sl es) (r : ScoreRange σ) (offset count : ℤ) :
    ∃ before bs, Sought r es before bs ∧ sl.rangeByScore r false offset count =
      .ok (page offset count (upTo r
        (if r.minExclusive then bs.dropWhile fun e => Score.eq e.1 r.min else bs))) := by
  obtain ⟨ps, hs, he⟩ := h
  obtain ⟨path, before, after, hd, hc⟩ := descend_header hs fun n => Score.lt n.score r.min
  obtain ⟨s, hlink⟩ := hc.link_lastOf hs
  obtain ⟨as, bs, hsplit, -, hbs, hpass, hstop⟩ :=
    Cut.entries (f := fun s _ => Score.lt s r.min) hc he
  refine ⟨as, bs, ⟨hsplit, hpass, hstop⟩, ?_⟩
  have hahead : Ahead sl ps after bs := ⟨⟨before, hc.split⟩, hbs⟩
  have hforward : (!false) = true := rfl
  unfold rangeByScore
  by_cases hcount : count = 0
  · rw [if_pos hcount, hcount, page_zero]
  · rw [if_neg hcount, if_pos hforward, hd, ok_bind, hlink, ok_bind]
    cases r.minExclusive with
    | true =>
      obtain ⟨after', hcur, hahead'⟩ := skipTies_eq hs r.min hahead (hahead.length_le hs)
      simp only [if_true, hcur, ok_bind]
      exact collect_page hs r offset hcount hahead'
    | false =>
      simp only [Bool.false_eq_true, if_false, ok_bind]
      exact collect_page hs r offset hcount hahead

/-- What a score range returns is among the entries, in order. -/
theorem rangeByScore_sublist (h : Holds sl es) {r : ScoreRange σ} {offset : ℤ}
    (hl : sl.rangeByScore r false offset count = .ok l) : l.Sublist es := by
  obtain ⟨before, bs, hsought, heq⟩ := rangeByScore_ahead h r offset count
  rw [heq] at hl
  cases hl
  refine (page_sublist _ _ _).trans
    (((takeWhile_sublist _).trans filter_sublist).trans ?_)
  have hbs : bs.Sublist es := by
    rw [hsought.split]
    exact sublist_append_right _ _
  split_ifs
  · exact (dropWhile_sublist _).trans hbs
  · exact hbs

/-- The descending `RangeByScore` reads before the first pair, or adds too much to the number of the
pairs, if the offset is negative. -/
theorem rangeByScore_rev (h : Holds sl es) (r : ScoreRange σ) (offset count : ℤ) :
    sl.rangeByScore r true offset count = if count = 0 ∨ 0 ≤ offset then
        .ok (page offset count (es.filter (selects r)).reverse)
      else if 2^63 ≤ ((es.filter (selects r)).length : ℤ) - offset then .error .signedOverflow
      else .error .outOfRange := by
  have hmax := h.length_le
  obtain ⟨ps, hs, he⟩ := h
  have hahead : Ahead sl ps ps es := .all he
  obtain ⟨s, hlink⟩ := hs.link_header
  have hlen : (es.filter (selects r)).length ≤ es.length := length_filter_le _ _
  have hrlen : (es.filter (selects r)).reverse.length = (es.filter (selects r)).length :=
    length_reverse
  unfold maxNodes at hmax
  unfold rangeByScore
  by_cases hcount : count = 0
  · rw [if_pos hcount, if_pos (.inl hcount), hcount, page_zero]
  · have hrev : ¬(!true) = true := nofun
    rw [if_neg hcount, if_neg hrev, hlink, ok_bind, collectAll_eq hs r hahead (hahead.length_le hs),
      ok_bind]
    generalize es.filter (selects r) = asc at *
    dsimp only
    by_cases hoffset : 0 ≤ offset
    · have hsmall : ¬2^63 ≤ (asc.length : ℤ) - offset := by omega
      rw [if_neg hsmall, if_pos (show count = 0 ∨ 0 ≤ offset from .inr hoffset)]
      by_cases hstop : (asc.length : ℤ) - offset ≤ 0
      · rw [if_pos hstop, page_of_length_le count (by omega)]
      · have hpage := page_of_bounds (l := asc.reverse) hoffset hcount
          (congrArg (fun n : ℕ => (n : ℤ) - offset) hrlen.symm) (by omega) rfl
        rw [hrlen] at hpage
        rw [if_neg hstop, if_neg (by omega), hpage]
        congr 4
        split_ifs <;> omega
    · have hbad : ¬(count = 0 ∨ 0 ≤ offset) := fun h => h.elim hcount hoffset
      rw [if_neg hbad]
      by_cases hbig : 2^63 ≤ (asc.length : ℤ) - offset
      · rw [if_pos hbig, if_pos hbig]
      · rw [if_neg hbig, if_neg hbig, if_neg (by omega), if_pos (by omega)]

/-- `CountInRange` counts what is ahead of it. -/
theorem countInRange_ahead (h : Holds sl es) (r : ScoreRange σ) :
    sl.countInRange r = .ok (upTo r es).length := by
  obtain ⟨ps, hs, he⟩ := h
  have hahead : Ahead sl ps ps es := .all he
  obtain ⟨s, hlink⟩ := hs.link_header
  unfold countInRange
  rw [hlink, ok_bind]
  exact countFrom_eq hs r hahead (hahead.length_le hs)

end TinyRedis.SkipList

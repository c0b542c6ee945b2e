import Mathlib.Algebra.Order.Ring.Int
import Mathlib.Data.List.Basic

/-!
# Parts of a list

`slice` is the part of a list between two indices, which count from the end if they are negative.
`page` is the part that is left when some elements are skipped, and the rest is cut to a length. The
part up to a place where a condition fails for good is that of all elements with the condition.
-/

namespace TinyRedis.Lib.Window

open List

variable {α : Type} {l : List α} {start stop lo hi offset : ℤ}

/-! ## Between two indices -/

/-- An index into a list of length `n`, from the end if it is negative. -/
def norm (n i : ℤ) : ℤ := if i < 0 then n + i else i

/-- The elements at the indices from `start` to `stop`. -/
def slice (start stop : ℤ) (l : List α) : List α :=
  (l.zipIdx.filter fun p => decide (max 0 (norm l.length start) ≤ p.2 ∧
    (p.2 : ℤ) ≤ min ((l.length : ℤ) - 1) (norm l.length stop))).map Prod.fst

/-- The elements of a list that begins at the index `k`. -/
theorem filter_zipIdx (lo hi : ℤ) (l : List α) (k : ℕ) :
    ((l.zipIdx k).filter fun p => decide (lo ≤ p.2 ∧ (p.2 : ℤ) ≤ hi)).map Prod.fst =
      (l.take (hi - k + 1).toNat).drop (lo - k).toNat := by
  induction l generalizing k with
  | nil => simp
  | cons a l ih =>
    have hnext := ih (k + 1)
    rw [Nat.cast_succ] at hnext
    rw [zipIdx_cons, filter_cons]
    by_cases hhi : (k : ℤ) ≤ hi
    · rw [show (hi - k + 1).toNat = (hi - (k + 1) + 1).toNat + 1 by omega, take_succ_cons]
      by_cases hlo : lo ≤ (k : ℤ)
      · rw [if_pos (decide_eq_true ⟨hlo, hhi⟩), map_cons, hnext,
          show (lo - k).toNat = 0 by omega, show (lo - (k + 1)).toNat = 0 by omega]
        rfl
      · rw [if_neg (by simp [hlo]), hnext,
          show (lo - k).toNat = (lo - (k + 1)).toNat + 1 by omega, drop_succ_cons]
    · rw [if_neg (by simp [hhi]), hnext, show (hi - k + 1).toNat = 0 by omega,
        show (hi - (k + 1) + 1).toNat = 0 by omega, take_zero, take_zero, drop_nil, drop_nil]

/-- A part of a list is one of its beginning. -/
theorem slice_eq (start stop : ℤ) (l : List α) :
    slice start stop l =
      (l.take (norm l.length stop + 1).toNat).drop (norm l.length start).toNat := by
  have hpart := filter_zipIdx (max 0 (norm l.length start))
    (min ((l.length : ℤ) - 1) (norm l.length stop)) l 0
  unfold slice
  rw [hpart, Nat.cast_zero, sub_zero, sub_zero, show (max 0 (norm l.length start)).toNat =
    (norm l.length start).toNat by omega]
  congr 1
  by_cases hlt : norm l.length stop ≤ (l.length : ℤ) - 1
  · rw [min_eq_right hlt]
  · rw [take_of_length_le (by omega), take_of_length_le (by omega)]

/-- A slice is a part of the list. -/
theorem slice_sublist (start stop : ℤ) (l : List α) : (slice start stop l).Sublist l := by
  rw [slice_eq]
  exact (drop_sublist _ _).trans (take_sublist _ _)

/-- How many elements there are depends only on how long the list is. -/
theorem length_slice_congr {β : Type} {l' : List β} (h : l.length = l'.length) (start stop : ℤ) :
    (slice start stop l).length = (slice start stop l').length := by
  rw [slice_eq, slice_eq, h]
  simp only [length_drop, length_take, h]

/-- Indices that are cut to the list. -/
theorem slice_of_clamped (hlo : lo = max 0 (norm l.length start))
    (hhi : hi = min ((l.length : ℤ) - 1) (norm l.length stop)) :
    slice start stop l = (l.take (hi + 1).toNat).drop lo.toNat := by
  have hpart := filter_zipIdx lo hi l 0
  rw [Nat.cast_zero, sub_zero, sub_zero] at hpart
  rw [← hpart]
  unfold slice
  rw [hlo, hhi]

/-- Nothing is left between indices that are cut to the list, and the other way round. -/
theorem slice_eq_nil (hlo : lo = max 0 (norm l.length start))
    (hhi : hi = min ((l.length : ℤ) - 1) (norm l.length stop)) (hlt : hi < lo) :
    slice start stop l = [] := by
  rw [slice_of_clamped hlo hhi]
  refine drop_eq_nil_of_le ?_
  rw [length_take]
  omega

/-- The whole list. -/
theorem slice_zero_neg_one (l : List α) : slice 0 (-1) l = l := by
  rw [slice_eq]
  unfold norm
  rw [if_neg (lt_irrefl _), if_pos (by omega), Int.toNat_zero, drop_zero]
  exact take_of_length_le (by omega)

/-- The first `n` elements. -/
theorem slice_zero_pred {n : ℤ} (hn : 1 ≤ n) (l : List α) : slice 0 (n - 1) l = l.take n.toNat := by
  rw [slice_eq]
  unfold norm
  rw [if_neg (lt_irrefl _), if_neg (by omega), Int.toNat_zero, drop_zero, sub_add_cancel]

/-- A part of the reversed list is that of the list between the indices that are as far from the
other end. -/
theorem reverse_take_drop {lo hi : ℕ} (hlo : lo ≤ hi) (hhi : hi < l.length) :
    ((l.take (l.length - lo)).drop (l.length - 1 - hi)).reverse =
      (l.reverse.take (hi + 1)).drop lo := by
  rw [take_reverse, drop_reverse, length_drop, drop_take]
  congr 2
  · omega
  · congr 1
    omega

/-! ## From an offset -/

/-- The elements after the first `offset`, at most `count` of them unless `count` is negative. -/
def page (offset count : ℤ) (l : List α) : List α :=
  if count < 0 then l.drop offset.toNat else (l.drop offset.toNat).take count.toNat

/-- A page of no elements. -/
theorem page_zero (offset : ℤ) (l : List α) : page offset 0 l = [] := by
  unfold page
  rw [if_neg (lt_irrefl _), Int.toNat_zero, take_zero]

/-- A page after the end. -/
theorem page_of_length_le (count : ℤ) (h : l.length ≤ offset) : page offset count l = [] := by
  have hdrop : l.drop offset.toNat = [] := drop_eq_nil_of_le (by omega)
  unfold page
  rw [hdrop, take_nil, ite_self]

/-- A page by the number of elements from its beginning, and from its end, to the end of the list.
-/
theorem page_of_bounds {count : ℤ} (hoffset : 0 ≤ offset) (hcount : count ≠ 0)
    (hstop : stop = l.length - offset) (hpos : 0 < stop)
    (hstart : start = if 0 < count then max 0 (stop - count) else 0) :
    page offset count l = (l.drop (l.length - stop).toNat).take (stop - start).toNat := by
  have hlen : (l.drop offset.toNat).length = stop.toNat := by
    rw [length_drop]
    omega
  rw [show ((l.length : ℤ) - stop).toNat = offset.toNat by omega]
  unfold page
  split_ifs at hstart ⊢ with hneg hpos
  · omega
  · rw [take_of_length_le (by omega)]
  · by_cases hle : count ≤ stop
    · rw [show (stop - start).toNat = count.toNat by omega]
    · rw [take_of_length_le (by omega), take_of_length_le (by omega)]
  · omega

/-- A page is a part of the list. -/
theorem page_sublist (offset count : ℤ) (l : List α) : (page offset count l).Sublist l := by
  unfold page
  split_ifs
  · exact drop_sublist _ _
  · exact (take_sublist _ _).trans (drop_sublist _ _)

/-! ## Up to a place -/

/-- A condition that is not met again once it has failed. -/
theorem takeWhile_eq_filter {p : α → Bool} (h : l.Pairwise fun a b => p b = true → p a = true) :
    l.takeWhile p = l.filter p := by
  induction l with
  | nil => rfl
  | cons a l ih =>
    obtain ⟨ha, hl⟩ := pairwise_cons.1 h
    by_cases hp : p a = true
    · rw [takeWhile_cons_of_pos hp, filter_cons_of_pos hp, ih hl]
    · rw [takeWhile_cons_of_neg hp, filter_cons_of_neg hp]
      exact (filter_eq_nil_iff.2 fun b hb hpb => hp (ha b hb hpb)).symm

end TinyRedis.Lib.Window

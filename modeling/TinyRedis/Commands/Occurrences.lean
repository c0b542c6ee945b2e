import TinyRedis.Commands.Lists
import TinyRedis.Lib.Occurrences

/-!
# The loops of `LREM`

`LREM` erases from the head while it goes over the list, and from the tail by the iterators that it
has collected before. Both loops remove the occurrences that `count` says, and the second one is the
mirror image of the first. No iterator that is read is out of range.
-/

namespace TinyRedis.Commands

open Lib List

variable {v : Bytes} {count : ℤ} {l : List Bytes}

/-! ## From the head -/

/-- Without a limit all occurrences are erased. -/
theorem eraseForward_all (v : Bytes) (l : List Bytes) (removed : ℤ) :
    eraseForward v 0 l removed = (l.filter (· ≠ v), removed + l.count v) := by
  induction l generalizing removed with
  | nil => exact Prod.ext rfl (by simp [eraseForward])
  | cons x l ih =>
    rw [eraseForward, if_pos (.inl rfl)]
    by_cases hx : x = v
    · subst hx
      rw [if_pos rfl, ih, count_cons_self, filter_cons_of_neg (by simp)]
      exact Prod.ext rfl (by push_cast; ring)
    · rw [if_neg hx, ih, count_cons_of_ne hx, filter_cons_of_pos (by simpa using hx)]

/-- With a limit, as many as are still allowed. -/
theorem eraseForward_limit (hcount : 0 < count) (l : List Bytes) (n : ℕ) :
    eraseForward v count l (count - n) =
      (removeFirst v n l, count - n + (min n (l.count v) : ℕ)) := by
  induction l generalizing n with
  | nil =>
    rw [removeFirst_nil, count_nil, Nat.min_zero]
    exact Prod.ext rfl (by simp [eraseForward])
  | cons x l ih =>
    cases n with
    | zero =>
      rw [eraseForward, if_neg (by omega), removeFirst_zero, Nat.zero_min]
      exact Prod.ext rfl (by simp)
    | succ n =>
      rw [eraseForward, if_pos (.inr (by omega))]
      by_cases hx : x = v
      · subst hx
        have hnext : count - (n + 1 : ℕ) + 1 = count - n := by omega
        rw [if_pos rfl, hnext, ih, removeFirst_succ_self, count_cons_self, Nat.succ_min_succ]
        exact Prod.ext rfl (by push_cast; ring)
      · rw [if_neg hx, ih, removeFirst_cons_of_ne hx, count_cons_of_ne hx]

/-! ## From the tail -/

/-- One more element adds its index if it is an occurrence. -/
theorem hitsOf_concat (v x : Bytes) (l : List Bytes) :
    hitsOf v (l ++ [x]) = hitsOf v l ++ if x = v then [l.length] else [] := by
  unfold hitsOf
  rw [zipIdx_append, filter_append, map_append]
  by_cases hx : x = v
  · simp [hx]
  · simp [hx]

/-- There are as many hits as occurrences. -/
theorem length_hitsOf (v : Bytes) (l : List Bytes) : (hitsOf v l).length = l.count v := by
  induction l using List.reverseRecOn with
  | nil => rfl
  | append_singleton l x ih =>
    rw [hitsOf_concat, length_append, ih, count_append, count_singleton]
    by_cases hx : x = v
    · simp [hx]
    · simp [hx]

/-- A hit is an index of the list. -/
theorem lt_of_mem_hitsOf {i : ℕ} (h : i ∈ hitsOf v l) : i < l.length := by
  unfold hitsOf at h
  obtain ⟨⟨x, j⟩, hx, rfl⟩ := mem_map.1 h
  have hmem := mem_zipIdx (mem_of_mem_filter hx)
  simpa using hmem.2.1

/-- A hit within the vector is read from it. -/
theorem hitAt_eq {hits : List ℕ} {k : ℕ} (hk : k < hits.length) :
    hitAt hits k = pure (hits.getD k 0) := by
  unfold hitAt
  rw [if_neg (by omega), Int.toNat_natCast, getD_eq_getElem?_getD, getElem?_eq_getElem hk]
  rfl

/-- The loop erases the elements at the hits that it goes over. -/
theorem eraseBackward_eq {hits : List ℕ} {last k fuel : ℕ} (hk : k ≤ hits.length)
    (hlast : last ≤ k) (hfuel : k - last ≤ fuel) (nodes : List (Bytes × ℕ)) (removed : ℤ) :
    eraseBackward hits last fuel (k - 1) nodes removed =
      pure (nodes.filter fun x => decide (x.2 ∉ (hits.take k).drop last),
        removed + (k - last : ℕ)) := by
  have hdone : (hits.take last).drop last = [] :=
    drop_eq_nil_of_le (length_take_le _ _)
  induction fuel generalizing k nodes removed with
  | zero =>
    obtain rfl : k = last := by omega
    rw [eraseBackward, hdone, Nat.sub_self]
    simp
  | succ fuel ih =>
    rw [eraseBackward]
    cases Nat.eq_or_lt_of_le hlast with
    | inl hend =>
      subst hend
      rw [if_neg (by omega), hdone, Nat.sub_self]
      simp
    | inr hlt =>
      obtain ⟨k, rfl⟩ := Nat.exists_eq_add_of_lt (Nat.zero_lt_of_lt hlt)
      rw [Nat.zero_add] at *
      have hprev : ((k + 1 : ℕ) : ℤ) - 1 = k := by omega
      have htake : (hits.take (k + 1)).drop last =
          (hits.take k).drop last ++ [hits.getD k 0] := by
        rw [take_succ_eq_append_getElem (by omega), drop_append_of_le_length
          (by rw [length_take]; omega), getD_eq_getElem?_getD,
          getElem?_eq_getElem (by omega)]
        rfl
      rw [hprev, if_pos (by omega), hitAt_eq (by omega), pure_bind,
        ih (by omega) (by omega) (by omega), htake, filter_filter]
      congr 2
      · refine filter_congr fun x _ => ?_
        simp only [mem_append, mem_singleton, not_or, ne_eq, Bool.decide_and]
      · omega

/-- The elements that are not at the last hits. -/
theorem map_filter_hits (v : Bytes) (l : List Bytes) (n : ℕ) :
    (l.zipIdx.filter fun x => decide (x.2 ∉ (hitsOf v l).drop (l.count v - n))).map Prod.fst =
      removeLast v n l := by
  -- By induction from the end of the list, where the last hit is.
  induction l using List.reverseRecOn generalizing n with
  | nil =>
    rw [removeLast_nil]
    rfl
  | append_singleton l x ih =>
    have hlen := length_hitsOf v l
    rw [zipIdx_append, zipIdx_singleton, Nat.zero_add, filter_append, map_append, hitsOf_concat]
    by_cases hx : x = v
    · subst hx
      rw [if_pos rfl, count_append, count_singleton_self]
      cases n with
      | zero =>
        rw [drop_eq_nil_of_le (by rw [length_append, hlen]; rfl), removeLast_zero]
        simp
      | succ n =>
        rw [Nat.add_sub_add_right, drop_append_of_le_length (by omega),
          removeLast_concat_self, ← ih n, filter_singleton]
        have hlast : decide (l.length ∉ (hitsOf x l).drop (l.count x - n) ++ [l.length]) = false :=
          decide_eq_false fun h => h (mem_append_right _ mem_cons_self)
        rw [hlast, cond_false, map_nil, append_nil]
        congr 1
        refine filter_congr fun y hy => ?_
        have hne : y.2 ≠ l.length := Nat.ne_of_lt (by simpa using (mem_zipIdx hy).2.1)
        simp only [mem_append, mem_singleton, hne, or_false]
    · have hlast : decide (l.length ∉ (hitsOf v l).drop (l.count v - n)) = true :=
        decide_eq_true fun h => Nat.lt_irrefl _ (lt_of_mem_hitsOf (mem_of_mem_drop h))
      rw [if_neg hx, append_nil, count_append, count_singleton, if_neg (by simpa using hx),
        Nat.add_zero, ih n, removeLast_concat_of_ne hx, filter_singleton, hlast]
      rfl

/-- The loop from the tail, for a count that can be negated. -/
theorem eraseBackward_hits (v : Bytes) (l : List Bytes) (n : ℤ) (hn : 0 ≤ n) :
    eraseBackward (hitsOf v l) ((hitsOf v l).length - min ((hitsOf v l).length : ℤ) n)
        ((hitsOf v l).length + 1) ((hitsOf v l).length - 1) l.zipIdx 0 =
      pure (l.zipIdx.filter fun x => decide (x.2 ∉ (hitsOf v l).drop (l.count v - n.toNat)),
        ((min n.toNat (l.count v) : ℕ) : ℤ)) := by
  have hlast : ((hitsOf v l).length : ℤ) - min ((hitsOf v l).length : ℤ) n =
      ((l.count v - n.toNat : ℕ) : ℤ) := by
    rw [length_hitsOf]
    omega
  have hlen := length_hitsOf v l
  rw [hlast, eraseBackward_eq le_rfl (by omega) (by omega), take_length]
  congr 2
  omega

/-- `LREM` on a list. -/
theorem removeCount_eq (v : Bytes) (count : ℤ) (l : List Bytes) : removeCount v count l =
    if count = 0 then pure (l.filter (· ≠ v), (l.count v : ℤ))
    else if 0 < count then
      pure (removeFirst v count.toNat l, ((min count.toNat (l.count v) : ℕ) : ℤ))
    else checked (-count) >>= fun n =>
      pure (removeLast v n.toNat l, ((min n.toNat (l.count v) : ℕ) : ℤ)) := by
  unfold removeCount
  by_cases hle : 0 ≤ count
  · rw [if_pos hle]
    by_cases hzero : count = 0
    · subst hzero
      rw [if_pos rfl, eraseForward_all, zero_add]
    · have hpos : 0 < count := by omega
      have hrun := eraseForward_limit (v := v) hpos l count.toNat
      rw [Int.toNat_of_nonneg hle, sub_self, zero_add] at hrun
      rw [if_neg hzero, if_pos hpos, hrun]
  · rw [if_neg hle, if_neg (by omega), if_neg (by omega)]
    unfold checked
    split_ifs with hfits
    · dsimp only
      rw [pure_bind, pure_bind, eraseBackward_hits v l (-count) (by omega), pure_bind,
        map_filter_hits]
    · rfl

end TinyRedis.Commands

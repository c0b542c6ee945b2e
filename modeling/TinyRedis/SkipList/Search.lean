import TinyRedis.SkipList.Shape

/-!
# The descent

A descent walks along each level, from the top, as long as the next node passes a test. Whatever the
test is, it ends somewhere: it cuts the nodes into those before and those after, and `update[i]` is
the last node before the cut that is above level `i` (`descend_spec`). The reason is that a node
that stops the walk at level `i` is on all lower levels too, and stops the walks there.

Nothing here depends on the order of the nodes. When they are in order, and the test is to be below
a key, the cut is where that key belongs (`Refinement.lean`).
-/

namespace TinyRedis.SkipList

open Lib List
open scoped UInt64.CommRing

variable {σ : Type} {sl : SkipList σ} {ps : List Ptr}

/-- A test of an allocated node reads the node. -/
theorem test_eq {p : Ptr} {n : Node σ} (h : sl.heap p = some n) (less : Node σ → Bool) :
    sl.test less p = less n := by
  simp [test, h]

/-- One walk along level `i`, from a node `x` above it: over `mid` to a node `y`. The nodes above
the level that it comes by pass the test, and the next one after `y` does not. -/
theorem walk_spec (h : Shape sl ps) (less : Node σ → Bool) {i : ℕ} (fuel : ℕ) (pre : List Ptr)
    (x : Ptr) (rest : List Ptr) (rank : UInt64) (hl : sl.header :: ps = pre ++ x :: rest)
    (hx : i < sl.height x) (hfuel : rest.length < fuel) :
    ∃ mid y rest', x :: rest = mid ++ y :: rest' ∧ i < sl.height y ∧
      sl.walk less i fuel x rank = .ok (y, rank + (mid.length : UInt64)) ∧
      (∀ q ∈ (mid ++ [y]).tail, i < sl.height q → sl.test less q = true) ∧
      ∀ m q s, rest' = m ++ q :: s → (∀ r ∈ m, sl.height r ≤ i) → i < sl.height q →
        sl.test less q = false := by
  induction fuel generalizing pre x rest rank with
  | zero => omega
  | succ fuel ih =>
    unfold walk
    rw [link_eq_ok hx, ok_bind]
    rcases h.linked pre x rest hl i hx with ⟨hf, hlow⟩ | ⟨m, q, s, rfl, hm, hq, hf, hs⟩
    · -- The level ends at `x`.
      refine ⟨[], x, rest, rfl, hx, ?_, by simp, fun m q s hr _ hq => ?_⟩
      · rw [hf]; simp
      · have := hlow q (by rw [hr]; simp)
        omega
    · obtain ⟨n, hn⟩ := heap_of_height_pos (Nat.zero_lt_of_lt hq)
      simp only [hf, deref_eq_ok hn, ok_bind]
      rw [← test_eq hn less]
      by_cases htest : sl.test less q = true
      · -- The walk goes on from `q`.
        have hlen : s.length < fuel := by
          simp only [length_append, length_cons] at hfuel
          omega
        obtain ⟨mid, y, rest', hr, hy, hw, hpass, hstop⟩ :=
          ih (pre ++ x :: m) q s (rank + sl.spanAt x i) (by rw [hl]; simp) hq hlen
        refine ⟨x :: m ++ mid, y, rest', by rw [hr]; simp, hy, ?_, ?_, hstop⟩
        · rw [if_pos htest, hw, hs]
          simp only [cons_append, length_cons, length_append]
          push_cast
          congr 2
          abel
        · intro r hr' hri
          rcases mem_append.1 (show r ∈ m ++ (mid ++ [y]) by simpa using hr') with hrm | hrm
          · have := hm r hrm
            omega
          · -- `mid ++ [y]` starts with `q`, which passed the test.
            have hcons : ∃ t, mid ++ [y] = q :: t := by
              cases mid with
              | nil =>
                rw [nil_append, List.cons.injEq] at hr
                exact ⟨[], by rw [hr.1]; rfl⟩
              | cons z mid =>
                rw [cons_append, List.cons.injEq] at hr
                exact ⟨mid ++ [y], by rw [hr.1]; simp⟩
            obtain ⟨t, ht⟩ := hcons
            rw [ht] at hrm hpass
            rcases mem_cons.1 hrm with rfl | hrt
            · exact htest
            · exact hpass r hrt hri
      · -- `q` stops the walk.
        refine ⟨[], x, m ++ q :: s, rfl, hx, ?_, by simp, fun m' q' s' hr hm' hq' => ?_⟩
        · rw [if_neg htest]; simp
        · rw [← (first_unique hr hm hq hm' hq').1]
          simpa using htest

/-- A descent over the levels below `n` cuts the list into `before` and `after`, with the starting
point in `before`. -/
theorem descend_spec (h : Shape sl ps) (less : Node σ → Bool) (n : ℕ) (pre : List Ptr) (x : Ptr)
    (rest : List Ptr) (hl : sl.header :: ps = pre ++ x :: rest) (hx : n ≤ sl.height x) :
    ∃ update seg after, sl.descend less n x (pre.length : UInt64) = .ok update ∧
      update.length = n ∧ rest = seg ++ after ∧
      (∀ i < n, ∃ u tail, Splits sl.height i (pre ++ x :: seg) u tail ∧
        update[i]? = some (u, ((pre.length + seg.length - tail.length : ℕ) : UInt64))) ∧
      (∀ q ∈ seg, n ≤ sl.height q → sl.test less q = true) ∧
      (∀ q ∈ seg.getLast?, sl.test less q = true) ∧
      (0 < n → ∀ q ∈ after.head?, sl.test less q = false) := by
  induction n generalizing pre x rest with
  | zero => exact ⟨[], [], rest, rfl, rfl, rfl, by simp, by simp, by simp, by simp⟩
  | succ n ih =>
    have hlen : rest.length < sl.length + 1 := by
      have := congrArg List.length hl
      simp only [length_cons, length_append] at this
      rw [h.length]
      omega
    obtain ⟨mid, y, rest', hr, hy, hw, hpass, hstop⟩ :=
      walk_spec h less (sl.length + 1) pre x rest (pre.length : UInt64) hl hx hlen
    -- The rest of the descent, from where the walk at level `n` ended.
    obtain ⟨update, seg, after, hd, hul, hrest, hupd, hhigh, hlast, hhead⟩ :=
      ih (pre ++ mid) y rest' (by rw [hl, hr]; simp) (by omega)
    have hlow : ∀ r ∈ seg, sl.height r ≤ n := by
      by_contra hc
      push Not at hc
      obtain ⟨m, q, s, rfl, hm, hq⟩ := exists_first hc
      have h1 := hhigh q (by simp) (by omega)
      have h2 := hstop m q (s ++ after) (by rw [hrest]; simp) hm hq
      rw [h1] at h2
      exact absurd h2 (by simp)
    have hcut : pre ++ x :: ((mid ++ [y]).tail ++ seg) = (pre ++ mid) ++ y :: seg := by
      cases mid with
      | nil =>
        rw [nil_append, List.cons.injEq] at hr
        simp [hr.1]
      | cons z mid =>
        rw [cons_append, List.cons.injEq] at hr
        simp [hr.1]
    have hmid : (mid ++ [y]).tail.length = mid.length := by simp
    refine ⟨update ++ [(y, (((pre ++ mid).length : ℕ) : UInt64))], (mid ++ [y]).tail ++ seg, after,
      ?_, by simp [hul], ?_, ?_, ?_, ?_, ?_⟩
    · unfold descend
      rw [hw, ok_bind]
      have hcast : (pre.length : UInt64) + (mid.length : UInt64) =
          (((pre ++ mid).length : ℕ) : UInt64) := by rw [length_append]; push_cast; rfl
      simp only [hcast, hd, ok_bind]
    · cases mid with
      | nil =>
        rw [nil_append, List.cons.injEq] at hr
        simp [hr.2, hrest]
      | cons z mid =>
        rw [cons_append, List.cons.injEq] at hr
        simp [hr.2, hrest]
    · intro i hi
      rw [hcut]
      rcases Nat.lt_succ_iff_lt_or_eq.1 hi with hi | rfl
      · obtain ⟨u, tail, hu, hui⟩ := hupd i hi
        refine ⟨u, tail, hu, ?_⟩
        rw [getElem?_append_left (by omega), hui, length_append, length_append, hmid]
        congr 4
        omega
      · refine ⟨y, seg, ⟨⟨pre ++ mid, rfl⟩, hy, hlow⟩, ?_⟩
        rw [getElem?_append_right (by omega), hul, length_append, length_append, hmid]
        simp only [Nat.sub_self, getElem?_cons_zero]
        congr 4
        omega
    · intro q hq hqn
      rcases mem_append.1 hq with hq | hq
      · exact hpass q hq (by omega)
      · exact hhigh q hq (by omega)
    · intro q hq
      cases hseg : seg.getLast? with
      | some z =>
        rw [getLast?_append, hseg] at hq
        simp only [Option.some_or, Option.mem_def, Option.some.injEq] at hq
        exact hlast q (by rw [hseg, hq]; rfl)
      | none =>
        -- The last node passed is `y`, where the walk at level `n` ended.
        rw [getLast?_append, hseg, Option.none_or] at hq
        have hq' : q ∈ (mid ++ [y]).tail := mem_of_getLast? hq
        cases mid with
        | nil => simp at hq'
        | cons z mid =>
          have : q = y := by simpa [eq_comm] using hq
          exact hpass q hq' (by rw [this]; exact hy)
    · intro _ q hq
      rcases Nat.eq_zero_or_pos n with rfl | hpos
      · -- The walk at level 0 ended right before `q`.
        have hmem : ∀ r ∈ rest', r ∈ sl.header :: ps := fun r hr' => by
          rw [hl, hr]; simp [hr']
        have hseg : seg = [] := by
          refine eq_nil_iff_forall_not_mem.2 fun r hr' => ?_
          have h0 := hlow r hr'
          have hpos := h.pos_of_mem (hmem r (by rw [hrest]; simp [hr']))
          omega
        cases after with
        | nil => simp at hq
        | cons z after =>
          have hzq : z = q := by simpa using hq
          rw [hseg, nil_append, hzq] at hrest
          exact hstop [] q after hrest (by simp) (h.pos_of_mem (hmem q (by rw [hrest]; simp)))
      · exact hhead hpos q hq

/-- Where a descent from the header ends: `before` it are `update[i]`, the last node above level `i`
of the header and `before`, with its position for `rank[i]`. -/
structure Cut (sl : SkipList σ) (ps : List Ptr) (less : Node σ → Bool)
    (update : List (Ptr × UInt64)) (before after : List Ptr) : Prop where
  split : ps = before ++ after
  length : update.length = sl.level
  update : ∀ i < sl.level, ∃ u tail, Splits sl.height i (sl.header :: before) u tail ∧
    update[i]? = some (u, ((before.length - tail.length : ℕ) : UInt64))
  pass : ∀ q ∈ before.getLast?, sl.test less q = true
  stop : ∀ q ∈ after.head?, sl.test less q = false
  high : ∀ q ∈ before, sl.level ≤ sl.height q → sl.test less q = true

/-- A descent from the header returns, and cuts the list in two. -/
theorem descend_header (h : Shape sl ps) (less : Node σ → Bool) :
    ∃ update before after, sl.descend less sl.level sl.header 0 = .ok update ∧
      Cut sl ps less update before after := by
  obtain ⟨update, seg, after, hd, hlen, hrest, hupd, hhigh, hlast, hhead⟩ :=
    descend_spec h less sl.level [] sl.header ps rfl
      (by rw [h.header_height]; exact h.level_le)
  refine ⟨update, seg, after, by simpa using hd, hrest, hlen, fun i hi => ?_, hlast,
    hhead h.level_pos, hhigh⟩
  obtain ⟨u, tail, hu, hui⟩ := hupd i hi
  exact ⟨u, tail, by simpa using hu, by simpa using hui⟩

/-- At level 0 a node is linked to the next one. -/
theorem Shape.link_next (h : Shape sl ps) {pre after : List Ptr} {x : Ptr}
    (hl : sl.header :: ps = pre ++ x :: after) : ∃ s, sl.link x 0 = .ok ⟨after.head?, s⟩ := by
  have hpos := h.pos_of_mem (p := x) (by rw [hl]; simp)
  refine ⟨sl.spanAt x 0, ?_⟩
  rw [link_eq_ok hpos]
  congr 2
  rcases h.linked _ _ _ hl 0 hpos with ⟨hf, hlow⟩ | ⟨mid, q, rest, rfl, hmid, -, hf, -⟩
  · cases after with
    | nil => exact hf
    | cons q after =>
      have h0 := hlow q (by simp)
      have := h.pos_of_mem (p := q) (by rw [hl]; simp)
      omega
  · cases mid with
    | nil => exact hf
    | cons r mid =>
      have h0 := hmid r (by simp)
      have := h.pos_of_mem (p := r) (by rw [hl]; simp)
      omega

/-- The header's first link leads to the first node. -/
theorem Shape.link_header (h : Shape sl ps) : ∃ s, sl.link sl.header 0 = .ok ⟨ps.head?, s⟩ :=
  h.link_next (nil_append _).symm

section Cut

variable {less : Node σ → Bool} {update : List (Ptr × UInt64)} {before after : List Ptr}

/-- `rank[0]` and the last node before the cut. -/
theorem Cut.head (h : Shape sl ps) (c : Cut sl ps less update before after) :
    ∃ pre, sl.header :: before = pre ++ [sl.lastOf update] ∧
      (update.head?.map Prod.snd).getD 0 = (before.length : UInt64) := by
  obtain ⟨u, tail, ⟨⟨pre, hpre⟩, -, htail⟩, hu⟩ := c.update 0 h.level_pos
  have hnil : tail = [] := by
    refine eq_nil_iff_forall_not_mem.2 fun r hr => ?_
    have h0 := htail r hr
    have hmem : r ∈ sl.header :: before := by rw [hpre]; simp [hr]
    have hpos := h.pos_of_mem (p := r) (by
      rw [c.split, ← cons_append]; exact mem_append_left _ hmem)
    omega
  subst hnil
  have hhead : update.head? = some (u, (before.length : UInt64)) := by
    rw [head?_eq_getElem?]; simpa using hu
  refine ⟨pre, ?_, by rw [hhead]; rfl⟩
  rw [hpre]
  simp [lastOf, hhead]

/-- The last node before the cut is linked to the first one after it at level 0. -/
theorem Cut.link_lastOf (h : Shape sl ps) (c : Cut sl ps less update before after) :
    ∃ s, sl.link (sl.lastOf update) 0 = .ok ⟨after.head?, s⟩ := by
  obtain ⟨pre, hpre, -⟩ := c.head h
  have hl : sl.header :: ps = pre ++ sl.lastOf update :: after := by
    rw [c.split, ← cons_append, hpre]; simp
  exact h.link_next hl

end Cut

/-- `FindNode` returns, with the cut for its key, and the first node after the cut if it has this
score and member. -/
theorem findNode_spec [Score σ] (h : Shape sl ps) (score : σ) (member : Bytes) :
    ∃ update before after,
      sl.findNode score member =
        .ok (after.head?.filter (sl.test fun n => keyEqual n.score n.member score member),
          update) ∧
      Cut sl ps (fun n => keyLess n.score n.member score member) update before after ∧
      sl.descend (fun n => keyLess n.score n.member score member) sl.level sl.header 0 =
        .ok update := by
  obtain ⟨update, before, after, hd, hc⟩ :=
    descend_header h fun n => keyLess n.score n.member score member
  obtain ⟨s, hs⟩ := hc.link_lastOf h
  refine ⟨update, before, after, ?_, hc, hd⟩
  unfold findNode
  rw [hd, ok_bind, hs, ok_bind]
  cases after with
  | nil => rfl
  | cons q after =>
    obtain ⟨n, hn⟩ := heap_of_height_pos (h.pos_of_mem (p := q) (by rw [hc.split]; simp))
    simp only [head?_cons, deref_eq_ok hn, ok_bind, Option.filter_some, test_eq hn]

end TinyRedis.SkipList

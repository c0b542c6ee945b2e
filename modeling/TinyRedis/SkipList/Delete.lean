import TinyRedis.SkipList.Insert

/-!
# Removal keeps the shape

`deleteNode` unlinks the node right after a cut. As in `Insert.lean`, the loop is described by what
it does at a level (`unlinkLevels_spec`), which is what `Linked.erase` asks for. The levels that are
left without a node are dropped afterwards (`topLevel_spec`).
-/

namespace TinyRedis.SkipList

open Lib List
open scoped UInt64.CommRing

variable {σ : Type} {sl : SkipList σ} {ps before after : List Ptr} {less : Node σ → Bool} {x : Ptr}

/-- The link that a node has after `x` is taken out of a level. -/
def unlinked (x : Ptr) (g : Ptr → Link) (u : Ptr) : Link :=
  if (g u).forward = some x then
    ⟨(g x).forward, if (g x).forward.isSome then (g u).span + ((g x).span - 1) else 0⟩
  else ⟨(g u).forward, (g u).span - 1⟩

/-- The loop gives the nodes of `update` that are linked to `x` the links of `x`, and counts the
spans of the others down by one. -/
theorem unlinkLevels_spec (x : Ptr) (update : List (Ptr × UInt64)) (i : ℕ) (sl : SkipList σ)
    (hu : ∀ k y, update[k]? = some y → i + k < sl.height y.1 ∧
      (sl.fwd y.1 (i + k) = some x → i + k < sl.height x)) :
    ∃ sl', unlinkLevels x update i sl = .ok sl' ∧ SameNodes sl sl' ∧
      (∀ k y, update[k]? = some y → sl'.lane (i + k) = Function.update (sl.lane (i + k)) y.1
        (unlinked x (sl.lane (i + k)) y.1)) ∧
      ∀ j, (j < i ∨ i + update.length ≤ j) → sl'.lane j = sl.lane j :=
  levels_spec (f := fun y g => Function.update g y.1 (unlinked x g y.1))
    (G := fun y j height g => j < height y.1 ∧ ((g y.1).forward = some x → j < height x))
    (fun _ _ => rfl) (fun y rest i sl ⟨hi, hx⟩ => by
      refine ⟨sl.putLink y.1 i (unlinked x (sl.lane i) y.1), ?_, sameNodes_putLink, fun j => ?_⟩
      · rw [unlinkLevels, link_eq_ok hi, ok_bind]
        unfold unlinked
        by_cases hf : sl.fwd y.1 i = some x
        · rw [if_pos hf, if_pos (show (sl.lane i y.1).forward = some x from hf),
            link_eq_ok (hx hf), ok_bind, setLink_eq_ok hi, ok_bind]
          rfl
        · rw [if_neg hf, if_neg (show ¬(sl.lane i y.1).forward = some x from hf),
            setSpan_eq_ok hi, ok_bind]
          rfl
      · rw [lane_putLink hi]
        split_ifs with hj
        · rw [hj]
        · rfl) update i sl hu

/-- The levels without nodes are dropped from the top, down to level 0. -/
theorem topLevel_spec (sl : SkipList σ) (n : ℕ) (hpos : 0 < n) (hn : n ≤ sl.height sl.header) :
    ∃ m, sl.topLevel n = .ok m ∧ 0 < m ∧ m ≤ n ∧
      ∀ j, m ≤ j → j < n → sl.fwd sl.header j = none := by
  induction n with
  | zero => omega
  | succ n ih =>
    cases n with
    | zero => exact ⟨1, rfl, by omega, le_refl _, fun j h1 h2 => by omega⟩
    | succ n =>
      unfold topLevel
      rw [link_eq_ok (by omega), ok_bind]
      by_cases hf : sl.fwd sl.header (n + 1) = none
      · rw [if_pos hf]
        obtain ⟨m, hm, hmpos, hle, hnone⟩ := ih (by omega) (by omega)
        refine ⟨m, hm, hmpos, by omega, fun j h1 h2 => ?_⟩
        rcases Nat.lt_succ_iff_lt_or_eq.1 h2 with h2 | rfl
        · exact hnone j h1 h2
        · exact hf
      · rw [if_neg hf]
        exact ⟨n + 2, rfl, by omega, le_refl _, fun j h1 h2 => by omega⟩

/-- The node right after a cut is linked from the node before it exactly at the levels it is on. -/
theorem Shape.fwd_eq_some_iff {u : Ptr} {i : ℕ} {tail : List Ptr}
    (h : Shape sl (before ++ x :: after)) (hs : Splits sl.height i (sl.header :: before) u tail) :
    sl.fwd u i = some x ↔ i < sl.height x := by
  obtain ⟨⟨pre, hpre⟩, hui, htail⟩ := hs
  have hl : sl.header :: (before ++ x :: after) = pre ++ u :: (tail ++ x :: after) := by
    rw [← cons_append, hpre]; simp
  rcases h.linked pre u _ hl i hui with ⟨hf, hlow⟩ | ⟨mid, q, rest, hr, hmid, hq, hf, -⟩
  · have := hlow x (by simp)
    rw [hf]
    simp only [reduceCtorEq, false_iff]
    omega
  · obtain ⟨b, rfl, hb⟩ := exists_append_of_notMem hr.symm hq htail
    cases b with
    | nil =>
      rw [nil_append, List.cons.injEq] at hb
      rw [hf, hb.1]
      exact ⟨fun _ => hq, fun _ => rfl⟩
    | cons y b =>
      rw [cons_append, List.cons.injEq] at hb
      have hx := hmid x (by rw [hb.1]; simp)
      have hqx : q ≠ x := by rintro rfl; omega
      rw [hf]
      simp only [Option.some.injEq, hqx, false_iff]
      omega

/-- `deleteNode` of the node right after a cut takes it out of the list. -/
theorem deleteNode_spec {update : List (Ptr × UInt64)} (h : Shape sl (before ++ x :: after))
    (c : Cut sl (before ++ x :: after) less update before (x :: after)) :
    ∃ sl', sl.deleteNode x update = .ok sl' ∧ Shape sl' (before ++ after) ∧
      sl'.header = sl.header ∧
      ∀ p ∈ sl.header :: (before ++ after), sl'.height p = sl.height p ∧
        sl'.entry p = sl.entry p := by
  have hnd : (x :: (sl.header :: before ++ after)).Nodup :=
    nodup_middle.1 (by rw [cons_append]; exact h.nodup)
  have hne : ∀ {p}, p ∈ sl.header :: (before ++ after) → p ≠ x := fun hp hpx =>
    (nodup_cons.1 hnd).1 (by rw [← hpx]; exact hp)
  have hold : ∀ {p}, p ∈ sl.header :: (before ++ after) → p ∈ sl.header :: (before ++ x :: after) :=
    fun hp => by
      simp only [mem_cons, mem_append] at hp ⊢
      tauto
  have hsplit : ∀ {i u tail}, Splits sl.height i (sl.header :: before) u tail →
      u ∈ sl.header :: (before ++ after) := fun hs => by
    obtain ⟨⟨pre, hpre⟩, -, -⟩ := hs
    rw [← cons_append, hpre]
    simp
  have hget : ∀ {k y}, update[k]? = some y → ∃ tail,
      Splits sl.height k (sl.header :: before) y.1 tail := fun {k y} hk => by
    have hlt : k < update.length := (List.getElem?_eq_some_iff.1 hk).1
    obtain ⟨v, tail, hs, hv⟩ := c.update k (by rw [← c.length]; exact hlt)
    obtain rfl : (v, _) = y := by simpa [hv] using hk
    exact ⟨tail, hs⟩
  obtain ⟨sl₁, hr₁, hsame₁, hset, hkeep⟩ := unlinkLevels_spec x update 0 sl (fun k y hk => by
    obtain ⟨tail, hs⟩ := hget hk
    rw [Nat.zero_add]
    exact ⟨hs.2.1, (h.fwd_eq_some_iff hs).1⟩)
  simp only [Nat.zero_add] at hset hkeep
  rw [c.length] at hkeep
  obtain ⟨lvl, hr₂, hlpos, hlle, hlnone⟩ := topLevel_spec sl₁ sl₁.level
    (by rw [hsame₁.level]; exact h.level_pos)
    (by rw [hsame₁.level, hsame₁.header, hsame₁.height, h.header_height]; exact h.level_le)
  obtain ⟨n, hn⟩ : ∃ n, sl₁.heap x = some n :=
    heap_of_height_pos (by rw [hsame₁.height]; exact h.height_pos x (by simp))
  generalize hs₂ : ({ sl₁ with level := lvl, length := sl₁.length - 1,
                                heap := Function.update sl₁.heap x none } : SkipList σ) = sl₂
  have hrun : sl.deleteNode x update = .ok sl₂ := by
    unfold deleteNode
    rw [hr₁, ok_bind, hr₂, ok_bind, deref_eq_ok hn, ok_bind, hs₂]
  have hview : ∀ p, p ≠ x → ∀ i, sl₂.height p = sl.height p ∧ sl₂.fwd p i = sl₁.fwd p i ∧
      sl₂.spanAt p i = sl₁.spanAt p i ∧ sl₂.entry p = sl.entry p := fun p hp i => by
    rw [← hsame₁.height, ← hsame₁.entry, ← hs₂]
    simp [height, fwd, spanAt, entry, hp]
  have hheader : sl₂.header = sl.header := by rw [← hs₂]; exact hsame₁.header
  have hlevel : sl₂.level = lvl := by rw [← hs₂]
  have hself : ∀ {i p tail}, Splits sl.height i (sl.header :: before) p tail → i < sl.level →
      sl₁.lane i p = unlinked x (sl.lane i) p := fun {i} _ _ hs hlt => by
    obtain ⟨u, t, hs', hu⟩ := c.update i hlt
    obtain ⟨rfl, rfl⟩ := hs.unique hs'
    rw [hset i _ hu, Function.update_self]
  have hlinked : Linked sl₂.height sl₂.fwd sl₂.spanAt (sl.header :: before ++ after) := by
    have hl : Linked sl.height sl.fwd sl.spanAt (sl.header :: before ++ x :: after) := by
      rw [cons_append]; exact h.linked
    refine hl.erase (fun p hp => (hview p (hne hp) 0).1) (nodup_cons.1 hnd).2 ?_ ?_ ?_
    · intro i p hp hi hnone
      obtain ⟨-, hf, hs, -⟩ := hview p (hne hp) i
      have hlane : sl₁.lane i p = sl.lane i p := by
        rcases lt_or_ge i sl.level with hlt | hge
        · obtain ⟨u, t, hu, hk⟩ := c.update i hlt
          have hpu : p ≠ u := fun heq => hnone t (heq ▸ hu)
          rw [hset i _ hk, Function.update_of_ne hpu]
        · rw [hkeep i (.inr hge)]
      exact ⟨hf.trans (congrArg Link.forward hlane), hs.trans (congrArg Link.span hlane)⟩
    · intro i p tail hs hi
      have hlane := hself hs (hi.trans_le (h.height_le x (by simp)))
      have hfi : (sl.lane i p).forward = some x := (h.fwd_eq_some_iff hs).2 hi
      rw [unlinked, if_pos hfi] at hlane
      obtain ⟨-, hf, hspan, -⟩ := hview p (hne (hsplit hs)) i
      refine ⟨hf.trans (congrArg Link.forward hlane), fun hfx => hspan.trans ?_⟩
      refine (congrArg Link.span hlane).trans (if_pos ?_)
      exact Option.isSome_iff_ne_none.2 hfx
    · intro i p tail hs hi
      obtain ⟨-, hf, hspan, -⟩ := hview p (hne (hsplit hs)) i
      rcases lt_or_ge i sl.level with hlt | hge
      · have hlane := hself hs hlt
        have hfi : ¬(sl.lane i p).forward = some x := fun hc =>
          absurd ((h.fwd_eq_some_iff hs).1 hc) (Nat.not_lt_of_le hi)
        rw [unlinked, if_neg hfi] at hlane
        exact ⟨hf.trans (congrArg Link.forward hlane),
          fun _ => hspan.trans (congrArg Link.span hlane)⟩
      · -- Above the levels in use there is no link.
        refine ⟨hf.trans (congrArg Link.forward (congrFun (hkeep i (.inr hge)) p)), fun hfi => ?_⟩
        have := h.lt_level_of_fwd (hold (hsplit hs)) hs.2.1 hfi
        omega
  have hheight : ∀ p ∈ sl.header :: (before ++ after), sl₂.height p = sl.height p := fun p hp =>
    (hview p (hne hp) 0).1
  refine ⟨sl₂, hrun, ⟨?_, ?_, ?_, ?_, ?_, ?_, ?_, ?_, ?_, ?_⟩, hheader, fun p hp =>
    ⟨hheight p hp, (hview p (hne hp) 0).2.2.2⟩⟩
  · rw [hheader]; exact hlinked
  · rw [hheader]; exact (nodup_cons.1 hnd).2
  · rw [hheader, hheight _ (by simp), h.header_height]
  · intro p hp
    rw [hheight p (by simp [hp])]
    exact h.height_pos p (mem_cons.1 (hold (by simp [hp])) |>.resolve_left fun hph =>
      (nodup_cons.1 (nodup_cons.1 hnd).2).1 (by rw [← hph]; exact hp))
  · intro p hp
    rw [hlevel]
    by_contra hc
    push Not at hc
    have hp' : sl₂.height p ≤ sl.level := by
      rw [hheight p (by simp [hp])]
      exact h.height_le p (by simp only [mem_append, mem_cons] at hp ⊢; tauto)
    -- The header's link at level `lvl` is null, so no node is above that level.
    have hf : sl₂.fwd sl.header lvl = none := by
      rw [(hview sl.header (hne (by simp)) lvl).2.1, ← hsame₁.header]
      exact hlnone lvl (le_refl _) (by rw [hsame₁.level]; omega)
    have hlk : lvl < sl₂.height sl.header := by
      rw [hheight _ (by simp), h.header_height]
      have := h.level_le
      omega
    rcases hlinked [] sl.header (before ++ after) rfl lvl hlk with
      ⟨-, hlow'⟩ | ⟨mid, q, rest, -, -, -, hq, -⟩
    · have := hlow' p hp
      omega
    · rw [hf] at hq
      exact absurd hq (by simp)
  · rw [hlevel]; exact hlpos
  · rw [hlevel]
    have := h.level_le
    rw [hsame₁.level] at hlle
    omega
  · intro p hp
    rw [hheader] at hp
    rw [← hs₂]
    show p < sl₁.fresh
    rw [hsame₁.fresh]
    exact h.fresh p (hold hp)
  · rw [← hs₂]
    show sl₁.length - 1 = _
    rw [hsame₁.length, h.length]
    simp only [length_append, length_cons]
    omega
  · have := h.length_le
    simp only [length_append, length_cons] at this ⊢
    omega

end TinyRedis.SkipList

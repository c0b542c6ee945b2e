import TinyRedis.Double
import TinyRedis.Lib.SortedSet
import TinyRedis.SkipList.Entries

/-!
# The skip list is a sorted set

When the scores compare, the pairs of a list that was built with `Insert`, `Erase`, `PopMin`, and
`PopMax` are in strictly increasing order (`Represents`). The cut that a descent makes is then the
place of the pair it looks for (`EntryCut.cutAt`), so that `FindNode` finds every pair that is there
(`EntryCut.found_iff`), and the four operations are those of a finite set of pairs
(`apply_refines`). `run_refines_sortedSet` says so for sequences of operations.
-/

namespace TinyRedis.SkipList

open Lib Lib.SortedSet List
open scoped UInt64.CommRing

variable {σ κ : Type} [Score σ] [LinearOrder κ] {key : σ → κ} {ok : σ → Prop} {sl sl' : SkipList σ}
  {es as bs : List (σ × Bytes)} {score : σ} {member : Bytes} {e : σ × Bytes} {ps : List Ptr}

/-- `sl` holds the pairs `es`, whose scores compare and which are in strictly increasing order. -/
structure Represents (key : σ → κ) (ok : σ → Prop) (sl : SkipList σ) (es : List (σ × Bytes)) :
    Prop where
  holds : Holds sl es
  ok : ∀ e ∈ es, ok e.1
  sorted : (es.map (keyOf key)).Pairwise (· < ·)

/-- The pairs as a sorted set. -/
def keySet (key : σ → κ) (es : List (σ × Bytes)) : Finset (κ ×ₗ Bytes) := elems (es.map (keyOf key))

/-! ## Searches -/

/-- The cut is the place of the pair. -/
theorem EntryCut.cutAt (hk : OrderedBy key ok) (h : Represents key ok sl es)
    (c : EntryCut es score member as bs) (hs : ok score) :
    CutAt (keyOf key (score, member)) (as.map (keyOf key)) (bs.map (keyOf key)) := by
  obtain ⟨hsplit, hpass, hstop⟩ := c
  have hok : ∀ e ∈ as ++ bs, ok e.1 := fun e he => h.ok e (by rw [hsplit]; exact he)
  refine CutAt.of_ends (by rw [← map_append, ← hsplit]; exact h.sorted) ?_ ?_
  · intro x hx
    rw [getLast?_map, Option.mem_def, Option.map_eq_some_iff] at hx
    obtain ⟨a, ha, rfl⟩ := hx
    have hmem := mem_append_left bs (mem_of_getLast? ha)
    exact (keyLess_iff hk member (hok a hmem) hs).1 (hpass a ha)
  · intro x hx
    rw [head?_map, Option.mem_def, Option.map_eq_some_iff] at hx
    obtain ⟨b, hb, rfl⟩ := hx
    have hmem := mem_append_right as (mem_of_head? hb)
    have hnot := hstop b hb
    rw [Bool.eq_false_iff, Ne, keyLess_iff hk member (hok b hmem) hs] at hnot
    exact not_lt.1 hnot

/-- A pair is found if and only if it is there. -/
theorem EntryCut.found_iff (hk : OrderedBy key ok) (h : Represents key ok sl es)
    (c : EntryCut es score member as bs) :
    (∃ b ∈ bs.head?, keyEqual b.1 b.2 score member = true) ↔
      keyOf key (score, member) ∈ es.map (keyOf key) := by
  have hok : ∀ e ∈ as ++ bs, ok e.1 := fun e he => h.ok e (by rw [c.split]; exact he)
  constructor
  · rintro ⟨b, hb, hq⟩
    have hmem := mem_append_right as (mem_of_head? hb)
    rw [c.split, ← (keyEqual_iff hk member (hok b hmem)).1 hq]
    exact mem_map_of_mem hmem
  · intro hmem
    -- The score compares, as it has the key of one that does.
    have hs : ok score := by
      obtain ⟨e, he, hke⟩ := mem_map.1 hmem
      exact hk.ok_of_key_eq _ _ (h.ok e he) (keyOf_eq_iff.1 hke).1
    rw [c.split, map_append, (c.cutAt hk h hs).mem_iff, head?_map, Option.map_eq_some_iff] at hmem
    obtain ⟨b, hb, hkb⟩ := hmem
    exact ⟨b, hb, (keyEqual_iff hk member
      (hok b (mem_append_right as (mem_of_head? hb)))).2 hkb⟩

/-- `Contains` decides whether a pair is there. -/
theorem contains_eq (hk : OrderedBy key ok) (h : Represents key ok sl es) (score : σ)
    (member : Bytes) :
    sl.contains score member =
      .ok (decide (keyOf key (score, member) ∈ keySet key es)) := by
  obtain ⟨as, bs, hcut, hr⟩ := contains_spec h.holds score member
  rw [hr]
  congr 1
  rw [Bool.eq_iff_iff, decide_eq_true_eq, keySet, mem_elems, ← hcut.found_iff hk h]
  cases bs with
  | nil => simp
  | cons b bs => simp

/-! ## The operations -/

/-- A pair that is not found is not in the list. -/
theorem EntryCut.notMem (hk : OrderedBy key ok) (h : Represents key ok sl es)
    (c : EntryCut es score member as bs)
    (hq : ∀ b ∈ bs.head?, keyEqual b.1 b.2 score member = false) :
    keyOf key (score, member) ∉ as.map (keyOf key) ++ bs.map (keyOf key) := by
  rw [← map_append, ← c.split, ← c.found_iff hk h]
  rintro ⟨b, hb, hqb⟩
  rw [hq b hb] at hqb
  exact absurd hqb (by simp)

/-- A pair that is not found is in order at the cut. -/
theorem Represents.insert (hk : OrderedBy key ok) (h : Represents key ok sl es)
    (c : EntryCut es score member as bs) (hs : ok score)
    (hq : ∀ b ∈ bs.head?, keyEqual b.1 b.2 score member = false)
    (hh : Holds sl' (as ++ (score, member) :: bs)) :
    Represents key ok sl' (as ++ (score, member) :: bs) := by
  have hok : ∀ e ∈ as ++ bs, ok e.1 := fun e he => h.ok e (by rw [c.split]; exact he)
  refine ⟨hh, fun e he => ?_, ?_⟩
  · rcases mem_append.1 he with he | he
    · exact hok e (mem_append_left _ he)
    · rcases mem_cons.1 he with rfl | he
      · exact hs
      · exact hok e (mem_append_right _ he)
  · rw [map_append, map_cons]
    exact (c.cutAt hk h hs).sorted_insert (c.notMem hk h hq)

/-- `Insert` is an insertion into the set, unless there is no memory for one more node. -/
theorem insert_refines (hk : OrderedBy key ok) (h : Represents key ok sl es) {level : ℕ}
    (hpos : 0 < level) (hle : level ≤ kMaxLevel) (hs : ok score) (member : Bytes) :
    (∃ b sl' es', sl.insert level score member = .ok (b, sl') ∧ Represents key ok sl' es' ∧
      es'.length ≤ es.length + 1 ∧
      step (keySet key es) (.insert (keyOf key (score, member))) = (.flag b, keySet key es')) ∨
    (sl.insert level score member = .error .badAlloc ∧ maxNodes ≤ es.length) := by
  obtain ⟨as, bs, hcut, -, hcase⟩ := insert_spec h.holds hpos hle score member
  have hfound := hcut.found_iff hk h
  have hsplit := hcut.split
  have hok : ∀ e ∈ as ++ bs, ok e.1 := fun e he => h.ok e (by rw [hsplit]; exact he)
  rcases hcase with ⟨b, bs', sl', rfl, hq, hr, hh⟩ | ⟨hq, ⟨sl', hr, hh⟩ | hfull⟩
  · -- The keys stay as they are.
    left
    have hkb := (keyEqual_iff hk member (hok b (by simp))).1 hq
    have hkeys : (as ++ (score, member) :: bs').map (keyOf key) = es.map (keyOf key) := by
      rw [hsplit, map_append, map_append, map_cons, map_cons, hkb]
    refine ⟨false, sl', _, hr, ⟨hh, ?_, by rw [hkeys]; exact h.sorted⟩, by rw [hsplit]; simp, ?_⟩
    · intro e he
      rcases mem_append.1 he with he | he
      · exact hok e (mem_append_left _ he)
      · rcases mem_cons.1 he with rfl | he
        · exact hs
        · exact hok e (mem_append_right _ (mem_cons_of_mem b he))
    · unfold keySet
      rw [hkeys]
      exact step_insert_of_mem (hfound.1 ⟨b, rfl, hq⟩)
  · left
    refine ⟨true, sl', _, hr, h.insert hk hcut hs hq hh, by rw [hsplit]; simp; omega, ?_⟩
    unfold keySet
    rw [hsplit, map_append, map_append, map_cons]
    exact step_insert_of_notMem (hcut.notMem hk h hq)
  · exact .inr hfull

omit [Score σ] in
/-- What is left when a pair is taken out is in order. -/
theorem Represents.remove (h : Represents key ok sl (as ++ e :: bs)) (hh : Holds sl' (as ++ bs)) :
    Represents key ok sl' (as ++ bs) := by
  have hsorted := h.sorted
  rw [map_append, map_cons] at hsorted
  refine ⟨hh, fun a ha => h.ok a ?_, by rw [map_append]; exact sorted_erase hsorted⟩
  rcases mem_append.1 ha with ha | ha
  · exact mem_append_left _ ha
  · exact mem_append_right _ (mem_cons_of_mem e ha)

/-- `Erase` is an erasure from the set. -/
theorem erase_refines (hk : OrderedBy key ok) (h : Represents key ok sl es) (score : σ)
    (member : Bytes) :
    ∃ b sl' es', sl.erase score member = .ok (b, sl') ∧ Represents key ok sl' es' ∧
      es'.length ≤ es.length ∧
      step (keySet key es) (.erase (keyOf key (score, member))) = (.flag b, keySet key es') := by
  obtain ⟨as, bs, hcut, hcase⟩ := erase_spec h.holds score member
  have hfound := hcut.found_iff hk h
  have hsplit := hcut.split
  rcases hcase with ⟨b, bs', sl', rfl, hq, hr, hh⟩ | ⟨hq, hr⟩
  · have hkb := (keyEqual_iff hk member (h.ok b (by rw [hsplit]; simp))).1 hq
    subst hsplit
    refine ⟨true, sl', as ++ bs', hr, h.remove hh, by simp, ?_⟩
    have hsorted := h.sorted
    unfold keySet
    rw [map_append, map_cons, hkb] at hsorted ⊢
    rw [map_append]
    exact step_erase_of_mem hsorted
  · refine ⟨false, sl, es, hr, h, le_rfl, step_erase_of_notMem ?_⟩
    rw [← hfound]
    rintro ⟨b, hb, hqb⟩
    rw [hq b hb] at hqb
    exact absurd hqb (by simp)

/-- `DeleteNode` of a node that was found by its own score and member. -/
theorem delete_found (hk : OrderedBy key ok) {ps before after : List Ptr} {x : Ptr}
    (h : Represents key ok sl (as ++ e :: bs)) (hs : Shape sl ps) (hps : ps = before ++ x :: after)
    (has : before.map sl.entry = as.map some) (hx : sl.entry x = some e)
    (hbs : after.map sl.entry = bs.map some) :
    ∃ cand update sl', sl.findNode e.1 e.2 = .ok (cand, update) ∧
      sl.deleteNode x update = .ok sl' ∧ Represents key ok sl' (as ++ bs) := by
  have he : ps.map sl.entry = (as ++ e :: bs).map some := by
    rw [hps, map_append, map_cons, has, hx, hbs, map_append, map_cons]
  obtain ⟨cand, update, before', after', as', bs', hf, hc, hcut, has', hbs', -⟩ :=
    findNode_entries hs he e.1 e.2
  -- The descent ends right before `x`, as there is one place for the pair.
  have hsorted := h.sorted
  rw [map_append, map_cons] at hsorted
  have hkeys : as'.map (keyOf key) ++ bs'.map (keyOf key) =
      as.map (keyOf key) ++ keyOf key e :: bs.map (keyOf key) := by
    rw [← map_append, ← hcut.split, map_append, map_cons]
  have hlen : before'.length = before.length := by
    have h1 := congrArg List.length
      ((hcut.cutAt hk h (h.ok e (by simp))).unique (CutAt.of_mem hsorted) hkeys).1
    have h2 := congrArg List.length has
    have h3 := congrArg List.length has'
    simp only [length_map] at h1 h2 h3
    omega
  have hcatp : before' ++ after' = before ++ x :: after := by rw [← hc.split, hps]
  obtain ⟨rfl, rfl⟩ := append_inj hcatp hlen
  obtain ⟨sl', hr, hh⟩ := deleteNode_entries hs hc has hbs
  exact ⟨cand, update, sl', hf, hr, h.remove hh⟩

/-- `PopMin` of an empty list returns nothing. -/
theorem popMin_nil (h : Holds sl []) : sl.popMin = .ok (none, sl) := by
  obtain ⟨ps, hs, he⟩ := h
  have hps : ps = [] := by simpa using he
  subst hps
  obtain ⟨s, hl⟩ := hs.link_header
  unfold SkipList.popMin
  rw [hl, ok_bind]
  rfl

/-- `PopMin` removes the first pair. -/
theorem popMin_cons (hk : OrderedBy key ok) (h : Represents key ok sl (e :: es)) :
    ∃ sl', sl.popMin = .ok (some e, sl') ∧ Represents key ok sl' es := by
  obtain ⟨ps, hs, he⟩ := h.holds
  cases ps with
  | nil => simp at he
  | cons x ps =>
    obtain ⟨hx, hps⟩ := List.cons.inj he
    obtain ⟨s, hl⟩ := hs.link_header
    obtain ⟨n, hn, hn1, hn2⟩ := deref_of_entry hx
    have h' : Represents key ok sl ([] ++ e :: es) := h
    obtain ⟨cand, update, sl', hf, hr, hrep⟩ :=
      delete_found hk h' hs (nil_append _).symm rfl hx hps
    refine ⟨sl', ?_, hrep⟩
    unfold SkipList.popMin
    simp only [hl, ok_bind, head?_cons, deref_eq_ok hn, hn1, hn2, hf, hr]

omit [Score σ] in
/-- The descent of `PopMax` ends at the last node. -/
theorem descend_true (hs : Shape sl ps) :
    ∃ path pre, sl.descend (fun _ => true) sl.level sl.header 0 = .ok path ∧
      sl.header :: ps = pre ++ [sl.lastOf path] := by
  obtain ⟨path, before, after, hd, hc⟩ := descend_header hs fun _ => true
  obtain ⟨pre, hpre, -⟩ := hc.head hs
  refine ⟨path, pre, hd, ?_⟩
  have hafter : after = [] := by
    cases after with
    | nil => rfl
    | cons q after =>
      obtain ⟨n, hn⟩ := heap_of_height_pos (hs.pos_of_mem (p := q) (by rw [hc.split]; simp))
      have := hc.stop q rfl
      rw [test_eq hn] at this
      exact absurd this (by simp)
  rw [hc.split, hafter, append_nil, hpre]

/-- `PopMax` of an empty list returns nothing. -/
theorem popMax_nil (h : Holds sl []) : sl.popMax = .ok (none, sl) := by
  obtain ⟨ps, hs, he⟩ := h
  have hps : ps = [] := by simpa using he
  subst hps
  obtain ⟨path, pre, hd, hlast⟩ := descend_true hs
  have hx : sl.lastOf path = sl.header := by
    have := congrArg List.getLast? hlast
    simpa using this.symm
  unfold SkipList.popMax
  rw [hd, ok_bind, if_pos hx]

/-- `PopMax` removes the last pair. -/
theorem popMax_concat (hk : OrderedBy key ok) (h : Represents key ok sl (es ++ [e])) :
    ∃ sl', sl.popMax = .ok (some e, sl') ∧ Represents key ok sl' es := by
  obtain ⟨ps, hs, he⟩ := h.holds
  obtain ⟨path, pre, hd, hlast⟩ := descend_true hs
  rw [map_append] at he
  obtain ⟨before, tail, rfl, hb, ht⟩ := map_eq_append_iff.1 he
  obtain ⟨x, rfl, hx⟩ : ∃ x, tail = [x] ∧ sl.entry x = some e := by
    cases tail with
    | nil => simp at ht
    | cons x tail =>
      obtain ⟨h1, h2⟩ := List.cons.inj ht
      exact ⟨x, by rw [map_eq_nil_iff.1 h2], h1⟩
  have hlx : sl.lastOf path = x := by
    have := congrArg List.getLast? hlast
    rw [← cons_append, getLast?_concat, getLast?_concat] at this
    exact (Option.some.inj this).symm
  have hne : x ≠ sl.header := by
    rintro rfl
    exact (nodup_cons.1 hs.nodup).1 (by simp)
  obtain ⟨n, hn, hn1, hn2⟩ := deref_of_entry hx
  obtain ⟨cand, update, sl', hf, hr, hrep⟩ := delete_found hk h hs rfl hb hx rfl
  rw [append_nil] at hrep
  refine ⟨sl', ?_, hrep⟩
  unfold SkipList.popMax
  simp only [hd, ok_bind, hlx, if_neg hne, deref_eq_ok hn, hn1, hn2, hf, hr]

end TinyRedis.SkipList

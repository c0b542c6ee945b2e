import TinyRedis.Db.ZSet
import TinyRedis.SkipList.Refinement

/-!
# Writes to the two indices of a sorted set

As long as no score is NaN, the pairs in the skip list are in order, so every pair of the dict is
found there: what is written to both indices keeps them consistent.
-/

namespace TinyRedis.ZSetValue

open Lib SkipList List

variable {z : ZSetValue} {es : List (Double × Bytes)} {score : Double} {member : Bytes}
  {sl : SkipList Double} {e : Double × Bytes} {level : ℕ} {added erased : Bool}

/-- The skip list holds the pairs `es` in order, which are those of the dict, and no score is NaN.
-/
structure IndexedBy (z : ZSetValue) (es : List (Double × Bytes)) : Prop where
  represents : Represents Double.key (fun d => d.isNaN = false) z.sl es
  perm : es.Perm z.graph

/-- The two indices are consistent, and no score is NaN. -/
def Indexed (z : ZSetValue) : Prop := ∃ es, IndexedBy z es

/-- The empty sorted set. -/
theorem indexed_empty : Indexed ⟨SkipList.empty, ∅⟩ :=
  ⟨[], ⟨holds_empty, nofun, List.Pairwise.nil⟩, List.Perm.nil⟩

/-- The pairs are those of the dict. -/
theorem IndexedBy.mem_iff (h : IndexedBy z es) :
    (score, member) ∈ es ↔ z.dict.lookup member = some score := by
  rw [h.perm.mem_iff, mem_graph]

/-- No pair is there twice, as the pairs are in order. -/
theorem IndexedBy.nodup (h : IndexedBy z es) : es.Nodup :=
  List.Nodup.of_map _ (List.Pairwise.imp (fun hlt => hlt.ne) h.represents.sorted)

/-! ## The graph -/

/-- A write of a score replaces the pair of the member. -/
theorem graph_write (z : ZSetValue) (sl sl' : SkipList Double) (score : Double) (member : Bytes) :
    graph ⟨sl, z.dict.insert member score⟩ =
      (score, member) :: graph ⟨sl', z.dict.erase member⟩ := by
  unfold graph Dict.toList
  rw [AList.entries_insert, map_cons, map_cons]
  rfl

/-- A member that is erased takes its pair along. -/
theorem graph_erase (h : z.dict.lookup member = some score) (sl : SkipList Double) :
    z.graph.Perm ((score, member) :: graph ⟨sl, z.dict.erase member⟩) :=
  ((Dict.entries_perm_erase h).map fun e : (_ : Bytes) × Double => (e.1, e.2)).map Prod.swap

/-! ## Writes -/

/-- What is left when the first pair is taken out. -/
theorem perm_erase_of_cons (hperm : (e :: es).Perm z.graph) (sl : SkipList Double) :
    es.Perm (graph ⟨sl, z.dict.erase e.2⟩) := by
  have hlook : z.dict.lookup e.2 = some e.1 :=
    mem_graph.1 (hperm.mem_iff.1 (show (e.1, e.2) ∈ e :: es from mem_cons_self))
  have h : (e :: es).Perm (e :: graph ⟨sl, z.dict.erase e.2⟩) :=
    hperm.trans (graph_erase hlook sl)
  exact h.cons_inv

/-- A score that is found for its member is overwritten in both indices. -/
theorem Consistent.insert_found (h : z.Consistent) (hpos : 0 < level) (hle : level ≤ kMaxLevel)
    (hfound : z.sl.contains score member = .ok true)
    (hr : z.sl.insert level score member = .ok (added, sl)) :
    Consistent ⟨sl, z.dict.insert member score⟩ := by
  obtain rfl := insert_of_contains hfound hr
  obtain ⟨es, hes, hperm⟩ := h
  obtain ⟨as, bs, hcut, -, hcase⟩ := insert_spec hes hpos hle score member
  rcases hcase with ⟨b, bs', sl', rfl, hq, hr', hh⟩ | ⟨-, ⟨sl', hr', -⟩ | ⟨hfull, -⟩⟩
  · rw [hr'] at hr
    cases hr
    rw [hcut.split] at hperm
    refine ⟨_, hh, ?_⟩
    rw [graph_write z sl z.sl]
    refine perm_middle.trans (List.Perm.cons _ ?_)
    rw [← member_eq_of_keyEqual hq]
    exact perm_erase_of_cons (perm_middle.symm.trans hperm) z.sl
  · rw [hr'] at hr
    cases hr
  · rw [hfull] at hr
    cases hr

/-- The first pair is popped from both indices. -/
theorem IndexedBy.popMin_eq (h : IndexedBy z (e :: es)) :
    ∃ sl, z.sl.popMin = .ok (some e, sl) ∧ IndexedBy ⟨sl, z.dict.erase e.2⟩ es := by
  obtain ⟨sl, hr, hrepr⟩ := popMin_cons Double.orderedBy h.represents
  exact ⟨sl, hr, hrepr, perm_erase_of_cons h.perm sl⟩

/-- The last pair is popped from both indices. -/
theorem IndexedBy.popMax_eq (h : IndexedBy z (es ++ [e])) :
    ∃ sl, z.sl.popMax = .ok (some e, sl) ∧ IndexedBy ⟨sl, z.dict.erase e.2⟩ es := by
  obtain ⟨sl, hr, hrepr⟩ := popMax_concat Double.orderedBy h.represents
  have hcons : (e :: es).Perm z.graph := (perm_append_singleton e es).symm.trans h.perm
  exact ⟨sl, hr, hrepr, perm_erase_of_cons hcons sl⟩

namespace IndexedBy

variable (h : IndexedBy z es)
include h

/-- A pair that the skip list finds for a member of the dict is the one of the dict. -/
theorem eq_of_keyEqual {b : Double × Bytes} (hb : b ∈ es)
    (hq : keyEqual b.1 b.2 score member = true) :
    b.2 = member ∧ z.dict.lookup member = some b.1 := by
  have hmember := member_eq_of_keyEqual hq
  refine ⟨hmember, ?_⟩
  rw [← hmember]
  exact h.mem_iff.1 hb

/-- A new member. -/
theorem insert (hpos : 0 < level) (hle : level ≤ kMaxLevel)
    (hnan : score.isNaN = false) (hnew : z.dict.lookup member = none)
    (hr : z.sl.insert level score member = .ok (added, sl)) :
    Indexed ⟨sl, z.dict.insert member score⟩ := by
  obtain ⟨as, bs, hcut, -, hcase⟩ := insert_spec h.represents.holds hpos hle score member
  rcases hcase with ⟨b, bs', -, rfl, hq, -⟩ | ⟨hq, ⟨sl', hr', hh⟩ | ⟨hfull, -⟩⟩
  · -- A pair with this member would be one of the dict.
    have hb : b ∈ es := by rw [hcut.split]; simp
    rw [(h.eq_of_keyEqual hb hq).2] at hnew
    cases hnew
  · rw [hr'] at hr
    cases hr
    refine ⟨_, h.represents.insert Double.orderedBy hcut hnan hq hh, ?_⟩
    rw [graph_write z sl z.sl, Dict.erase_of_lookup_none hnew]
    refine perm_middle.trans (List.Perm.cons _ ?_)
    rw [← hcut.split]
    exact h.perm
  · rw [hfull] at hr
    cases hr

/-- A pair that is there is erased from both indices. -/
theorem erase_eq (hmem : (score, member) ∈ es) :
    ∃ sl, z.sl.erase score member = .ok (true, sl) ∧
      IndexedBy ⟨sl, z.dict.erase member⟩ (es.erase (score, member)) := by
  obtain ⟨as, bs, hcut, hcase⟩ := erase_spec h.represents.holds score member
  have hfound : ∃ b ∈ bs.head?, keyEqual b.1 b.2 score member = true :=
    (hcut.found_iff Double.orderedBy h.represents).2 (mem_map_of_mem hmem)
  rcases hcase with ⟨b, bs', sl', rfl, hq, hr', hh⟩ | ⟨hq, -⟩
  · -- The scores may differ as bits, but the dict has one for the member.
    have hb : b = (score, member) := by
      obtain ⟨hmember, hlook⟩ := h.eq_of_keyEqual (by rw [hcut.split]; simp) hq
      rw [h.mem_iff.1 hmem] at hlook
      exact Prod.ext (Option.some.inj hlook).symm hmember
    subst hb
    have hnodup := h.nodup
    obtain ⟨hrepr, hperm⟩ := h
    rw [hcut.split] at hrepr hperm hnodup
    have herase : es.erase (score, member) = as ++ bs' := by
      have hnot : (score, member) ∉ as := fun hin =>
        (nodup_append.1 hnodup).2.2 _ hin _ mem_cons_self rfl
      rw [hcut.split, erase_append_right _ hnot, erase_cons_head]
    refine ⟨sl', hr', ?_⟩
    rw [herase]
    exact ⟨hrepr.remove hh, perm_erase_of_cons (perm_middle.symm.trans hperm) sl'⟩
  · obtain ⟨b, hb, hqb⟩ := hfound
    rw [hq b hb] at hqb
    cases hqb

/-- A member that is there. -/
theorem erase (hold : z.dict.lookup member = some score)
    (hr : z.sl.erase score member = .ok (erased, sl)) : Indexed ⟨sl, z.dict.erase member⟩ := by
  obtain ⟨sl', hr', h'⟩ := h.erase_eq (h.mem_iff.2 hold)
  rw [hr'] at hr
  cases hr
  exact ⟨_, h'⟩

/-- A member that is not there. -/
theorem erase_none (hnone : z.dict.lookup member = none)
    (hr : z.sl.erase score member = .ok (erased, sl)) : Indexed ⟨sl, z.dict.erase member⟩ := by
  obtain ⟨as, bs, hcut, hcase⟩ := erase_spec h.represents.holds score member
  rcases hcase with ⟨b, bs', sl', rfl, hq, -⟩ | ⟨-, hr'⟩
  · have hb : b ∈ es := by rw [hcut.split]; simp
    rw [(h.eq_of_keyEqual hb hq).2] at hnone
    cases hnone
  · rw [hr'] at hr
    cases hr
    rw [Dict.erase_of_lookup_none hnone]
    exact ⟨es, h⟩

/-- A new score for a member. -/
theorem rescore {old : Double} {sl' : SkipList Double}
    (hpos : 0 < level) (hle : level ≤ kMaxLevel) (hnan : score.isNaN = false)
    (hold : z.dict.lookup member = some old) (hr : z.sl.erase old member = .ok (erased, sl))
    (hr' : sl.insert level score member = .ok (added, sl')) :
    Indexed ⟨sl', z.dict.insert member score⟩ := by
  obtain ⟨es', h'⟩ := h.erase hold hr
  have hnone : (z.dict.erase member).lookup member = none := AList.lookup_erase _ _
  obtain ⟨es'', h''⟩ := h'.insert hpos hle hnan hnone hr'
  refine ⟨es'', h''.represents, ?_⟩
  -- The old score is overwritten, and not erased first.
  have hperm := h''.perm
  rw [graph_write ⟨sl, z.dict.erase member⟩ sl' sl, Dict.erase_of_lookup_none hnone] at hperm
  rw [graph_write z sl' sl]
  exact hperm

/-- What is popped first is gone from both indices. -/
theorem popMin (hr : z.sl.popMin = .ok (some e, sl)) : Indexed ⟨sl, z.dict.erase e.2⟩ := by
  cases es with
  | nil =>
    rw [popMin_nil h.represents.holds] at hr
    cases hr
  | cons e' es =>
    obtain ⟨sl', hr', h'⟩ := h.popMin_eq
    rw [hr'] at hr
    cases hr
    exact ⟨es, h'⟩

/-- So is what is popped last. -/
theorem popMax (hr : z.sl.popMax = .ok (some e, sl)) : Indexed ⟨sl, z.dict.erase e.2⟩ := by
  rcases eq_nil_or_concat es with rfl | ⟨es, e', rfl⟩
  · rw [popMax_nil h.represents.holds] at hr
    cases hr
  · rw [concat_eq_append] at h
    obtain ⟨sl', hr', h'⟩ := h.popMax_eq
    rw [hr'] at hr
    cases hr
    exact ⟨es, h'⟩

end IndexedBy

end TinyRedis.ZSetValue

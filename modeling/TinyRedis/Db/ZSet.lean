import TinyRedis.Db.Model
import TinyRedis.SkipList.Entries

/-!
# The two indices of a sorted set

A sorted set is stored twice: the skip list has the pairs in order, and the dict has the score of
each member. The two are consistent when they have the same pairs.
-/

namespace TinyRedis.ZSetValue

open Lib SkipList

variable {z : ZSetValue} {es : List (Double × Bytes)} {score : Double} {member : Bytes}
  {sl : SkipList Double}

/-- The graph of the dict. -/
def graph (z : ZSetValue) : List (Double × Bytes) := z.dict.toList.map Prod.swap

/-- The skip list holds the pairs of the dict, and no others. -/
def Consistent (z : ZSetValue) : Prop := ∃ es, Holds z.sl es ∧ es.Perm z.graph

/-- The pairs of the graph. -/
theorem mem_graph : (score, member) ∈ z.graph ↔ z.dict.lookup member = some score := by
  rw [Dict.lookup_eq_some_iff]
  unfold graph
  rw [List.mem_map]
  constructor
  · rintro ⟨⟨m, s⟩, h, he⟩
    obtain ⟨rfl, rfl⟩ := Prod.mk.inj he
    exact h
  · intro h
    exact ⟨(member, score), h, rfl⟩

/-- There is one pair for each member. -/
theorem length_graph (z : ZSetValue) : z.graph.length = z.dict.size := by
  unfold graph
  rw [List.length_map, Dict.length_toList]

/-- A member that is new goes to the front. -/
theorem graph_insert (h : member ∉ z.dict) :
    graph ⟨sl, z.dict.insert member score⟩ = (score, member) :: z.graph := by
  unfold graph
  rw [Dict.toList_insert h, List.map_cons, Prod.swap_prod_mk]

/-- The empty sorted set. -/
theorem consistent_empty : Consistent ⟨SkipList.empty, ∅⟩ := ⟨[], holds_empty, List.Perm.nil⟩

/-- A new member goes into both indices: the skip list has no pair that could be overwritten. -/
theorem Consistent.insert_new (h : z.Consistent) {level : ℕ} {added : Bool} (hpos : 0 < level)
    (hle : level ≤ kMaxLevel) (hnew : member ∉ z.dict)
    (hr : z.sl.insert level score member = .ok (added, sl)) :
    Consistent ⟨sl, z.dict.insert member score⟩ := by
  obtain ⟨es, hes, hperm⟩ := h
  obtain ⟨as, bs, hcut, -, hcase⟩ := insert_spec hes hpos hle score member
  rcases hcase with ⟨b, bs', -, rfl, hq, -⟩ | ⟨-, ⟨sl', hr', hh⟩ | ⟨hfull, -⟩⟩
  · -- A pair with this member would be one of the dict.
    refine absurd ?_ hnew
    have hb : b ∈ z.graph := hperm.mem_iff.1 (by rw [hcut.split]; simp)
    rw [← AList.lookup_isSome, ← member_eq_of_keyEqual hq,
      mem_graph.1 (show (b.1, b.2) ∈ z.graph from hb)]
    rfl
  · rw [hr'] at hr
    cases hr
    refine ⟨_, hh, ?_⟩
    rw [graph_insert hnew]
    refine List.perm_middle.trans (List.Perm.cons _ ?_)
    rw [← hcut.split]
    exact hperm
  · rw [hfull] at hr
    cases hr

end TinyRedis.ZSetValue

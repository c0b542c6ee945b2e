import TinyRedis.SkipList.Refinement

/-!
# Runs of operations

Sequences of `Insert`, `Erase`, `PopMin`, and `PopMax` from an empty list, with any outcomes of
`RandomLevel`. Every operation either is the operation of the sorted set or is an `Insert` that
finds no memory for one more node, after as many insertions as there are addresses
(`apply_refines`, `run_refines`).

What holds of the pointers is spelled out without the invariant of the proofs: `Path` follows the
links of a level, and `WellFormed` says what the paths are.
-/

namespace TinyRedis.SkipList

open Lib Lib.SortedSet List
open scoped UInt64.CommRing

variable {σ κ : Type} [Score σ] [LinearOrder κ] {key : σ → κ} {ok : σ → Prop} {sl : SkipList σ}
  {es : List (σ × Bytes)} {ps : List Ptr}

/-! ## The machine -/

/-- A call that changes the list, with the outcome of `RandomLevel` for an `Insert`. -/
inductive Op (σ : Type) where
  | insert (level : ℕ) (score : σ) (member : Bytes)
  | erase (score : σ) (member : Bytes)
  | popMin
  | popMax

/-- `RandomLevel` returns a level from 1 to `kMaxLevel`, and the scores that are inserted are
`ok`. -/
def Op.Valid (ok : σ → Prop) : Op σ → Prop
  | .insert level score _ => 0 < level ∧ level ≤ kMaxLevel ∧ ok score
  | _ => True

/-- Whether an operation is valid is decidable where its scores are. -/
instance [DecidablePred ok] : DecidablePred (Op.Valid ok : Op σ → Prop)
  | .insert level score _ => inferInstanceAs (Decidable (0 < level ∧ level ≤ kMaxLevel ∧ ok score))
  | .erase _ _ | .popMin | .popMax => .isTrue trivial

/-- The operation on the set of pairs. -/
def Op.toSet (key : σ → κ) : Op σ → SortedSet.Op (κ ×ₗ Bytes)
  | .insert _ score member => .insert (keyOf key (score, member))
  | .erase score member => .erase (keyOf key (score, member))
  | .popMin => .popMin
  | .popMax => .popMax

/-- One call. -/
def apply (sl : SkipList σ) : Op σ → Except Fault (Out (σ × Bytes) × SkipList σ)
  | .insert level score member => do
    let (b, sl) ← sl.insert level score member
    .ok (.flag b, sl)
  | .erase score member => do
    let (b, sl) ← sl.erase score member
    .ok (.flag b, sl)
  | .popMin => do
    let (e, sl) ← sl.popMin
    .ok (.popped e, sl)
  | .popMax => do
    let (e, sl) ← sl.popMax
    .ok (.popped e, sl)

/-- A sequence of calls, with what each of them returns. -/
def run : List (Op σ) → SkipList σ → Except Fault (List (Out (σ × Bytes)) × SkipList σ)
  | [], sl => .ok ([], sl)
  | op :: ops, sl => do
    let (out, sl) ← sl.apply op
    let (outs, sl) ← run ops sl
    .ok (out :: outs, sl)

/-- Every call is an operation on the set, unless there is no memory for a new node. -/
theorem apply_refines (hk : OrderedBy key ok) (h : Represents key ok sl es) {op : Op σ}
    (hop : op.Valid ok) :
    (∃ out sl' es', sl.apply op = .ok (out, sl') ∧ Represents key ok sl' es' ∧
      es'.length ≤ es.length + 1 ∧
      step (keySet key es) (op.toSet key) = (out.map (keyOf key), keySet key es')) ∨
    (sl.apply op = .error .badAlloc ∧ maxNodes ≤ es.length) := by
  cases op with
  | insert level score member =>
    obtain ⟨hpos, hle, hs⟩ := hop
    unfold apply
    rcases insert_refines hk h hpos hle hs member with
      ⟨b, sl', es', hr, hrep, hlen, hstep⟩ | ⟨hr, hfull⟩
    · exact .inl ⟨.flag b, sl', es', by simp only [hr, ok_bind], hrep, hlen, hstep⟩
    · exact .inr ⟨by simp only [hr, error_bind], hfull⟩
  | erase score member =>
    obtain ⟨b, sl', es', hr, hrep, hlen, hstep⟩ := erase_refines hk h score member
    unfold apply
    exact .inl ⟨.flag b, sl', es', by simp only [hr, ok_bind], hrep, by omega, hstep⟩
  | popMin =>
    left
    unfold apply
    cases es with
    | nil =>
      exact ⟨.popped none, sl, [], by simp only [popMin_nil h.holds, ok_bind], h, by simp,
        rfl⟩
    | cons e es =>
      obtain ⟨sl', hr, hrep⟩ := popMin_cons hk h
      exact ⟨.popped (some e), sl', es, by simp only [hr, ok_bind], hrep, by simp; omega,
        step_popMin_cons h.sorted⟩
  | popMax =>
    left
    unfold apply
    rcases eq_nil_or_concat es with rfl | ⟨es, e, rfl⟩
    · exact ⟨.popped none, sl, [], by simp only [popMax_nil h.holds, ok_bind], h, by simp,
        rfl⟩
    · rw [concat_eq_append] at h ⊢
      have hsorted := h.sorted
      rw [map_append] at hsorted
      obtain ⟨sl', hr, hrep⟩ := popMax_concat hk h
      refine ⟨.popped (some e), sl', es, by simp only [hr, ok_bind], hrep, by simp; omega, ?_⟩
      unfold keySet
      rw [map_append]
      exact step_popMax_concat hsorted

/-- A run is a run of the sorted set. -/
theorem run_refines (hk : OrderedBy key ok) (ops : List (Op σ)) (hops : ∀ op ∈ ops, op.Valid ok)
    (h : Represents key ok sl es) :
    (∃ outs sl' es', run ops sl = .ok (outs, sl') ∧ Represents key ok sl' es' ∧
      SortedSet.run (ops.map (Op.toSet key)) (keySet key es) =
        (outs.map (Out.map (keyOf key)), keySet key es')) ∨
    (run ops sl = .error .badAlloc ∧ maxNodes ≤ es.length + ops.length) := by
  induction ops generalizing sl es with
  | nil => exact .inl ⟨[], sl, es, rfl, h, rfl⟩
  | cons op ops ih =>
    unfold run
    rcases apply_refines hk h (hops op (by simp)) with
      ⟨out, sl₁, es₁, hr, hrep, hlen, hstep⟩ | ⟨hr, hfull⟩
    · simp only [hr, ok_bind]
      rcases ih (fun o ho => hops o (mem_cons_of_mem _ ho)) hrep with
        ⟨outs, sl', es', hr', hrep', hrun⟩ | ⟨hr', hfull⟩
      · refine .inl ⟨out :: outs, sl', es', by simp only [hr', ok_bind], hrep', ?_⟩
        rw [map_cons, SortedSet.run, hstep]
        simp only [hrun]
        rfl
      · refine .inr ⟨by simp only [hr', error_bind], ?_⟩
        rw [length_cons]
        omega
    · refine .inr ⟨by simp only [hr, error_bind], ?_⟩
      omega

/-- The empty skip list represents nothing. -/
theorem represents_empty : Represents key ok (empty : SkipList σ) [] :=
  ⟨holds_empty, by simp, List.Pairwise.nil⟩

/-! ## The pointers -/

/-- The links of level `i` lead from `p` through the nodes `ps` to null. -/
def Path (sl : SkipList σ) (i : ℕ) : Ptr → List Ptr → Prop
  | p, [] => ∃ span, sl.link p i = .ok ⟨none, span⟩
  | p, q :: ps => (∃ span, sl.link p i = .ok ⟨some q, span⟩) ∧ sl.Path i q ps

/-- The pairs of some nodes. -/
def pairs (sl : SkipList σ) (ps : List Ptr) : List (σ × Bytes) := ps.filterMap sl.entry

/-- The pointers of a list with the nodes `ps`. -/
structure WellFormed (key : σ → κ) (sl : SkipList σ) (ps : List Ptr) : Prop where
  /-- `ps` are the nodes of level 0. -/
  path_zero : sl.Path 0 sl.header ps
  /-- Level 0 is strictly increasing. -/
  sorted : ((sl.pairs ps).map (keyOf key)).Pairwise (· < ·)
  /-- Every node has a score and a member. -/
  entries : ∀ p ∈ ps, (sl.entry p).isSome
  /-- A higher level leads through the nodes of level 0 that are above it. -/
  path : ∀ i < sl.level, sl.Path i sl.header (ps.filter fun p => i < sl.height p)
  /-- The header is not linked above the levels in use. -/
  header_null : ∀ i, sl.level ≤ i → i < kMaxLevel → ∃ span, sl.link sl.header i = .ok ⟨none, span⟩
  /-- `length_` is the number of nodes. -/
  length : sl.length = ps.length

omit [Score σ] in
/-- From a node of the list, a level leads through the nodes above it. -/
theorem Shape.path_from (h : Shape sl ps) {i : ℕ} (n : ℕ) (pre : List Ptr) (p : Ptr)
    (rest : List Ptr) (hl : sl.header :: ps = pre ++ p :: rest) (hp : i < sl.height p)
    (hn : rest.length ≤ n) : sl.Path i p (rest.filter fun q => i < sl.height q) := by
  induction n generalizing pre p rest with
  | zero =>
    have hrest : rest = [] := length_eq_zero_iff.1 (by omega)
    subst hrest
    rcases h.linked pre p [] hl i hp with ⟨hf, -⟩ | ⟨mid, q, s, hr, -⟩
    · exact ⟨sl.spanAt p i, by rw [link_eq_ok hp, hf]⟩
    · exact absurd hr (by simp)
  | succ n ih =>
    rcases h.linked pre p rest hl i hp with ⟨hf, hlow⟩ | ⟨mid, q, s, rfl, hmid, hq, hf, -⟩
    · have hfilter : (rest.filter fun q => i < sl.height q) = [] := by
        rw [filter_eq_nil_iff]
        intro q hq
        have := hlow q hq
        simpa using this
      rw [hfilter]
      exact ⟨sl.spanAt p i, by rw [link_eq_ok hp, hf]⟩
    · have hfilter : ((mid ++ q :: s).filter fun q => i < sl.height q) =
          q :: s.filter fun q => i < sl.height q := by
        have hnil : (mid.filter fun q => i < sl.height q) = [] := by
          rw [filter_eq_nil_iff]
          intro r hr
          have := hmid r hr
          simpa using this
        rw [filter_append, hnil, nil_append, filter_cons_of_pos (by simpa using hq)]
      rw [hfilter]
      refine ⟨⟨sl.spanAt p i, by rw [link_eq_ok hp, hf]⟩, ?_⟩
      refine ih (pre ++ p :: mid) q s (by rw [hl]; simp) hq ?_
      simp only [length_append, length_cons] at hn
      omega

omit [Score σ] in
/-- The pairs of a path are its entries. -/
theorem pairs_eq (he : ps.map sl.entry = es.map some) : sl.pairs ps = es := by
  have := congrArg (List.filterMap id) he
  rwa [filterMap_map, Function.id_comp, filterMap_map, Function.id_comp, filterMap_some] at this

omit [Score σ] in
/-- Level 0 leads through all nodes. -/
theorem Shape.path_zero (h : Shape sl ps) : sl.Path 0 sl.header ps := by
  have hpath := h.path_from ps.length [] sl.header ps rfl
    (show 0 < sl.height sl.header by rw [h.header_height]; decide) le_rfl
  have hzero : (ps.filter fun p => 0 < sl.height p) = ps := by
    rw [filter_eq_self]
    intro p hp
    simpa using h.height_pos p hp
  rwa [hzero] at hpath

omit [Score σ] in
/-- There is one path from a node on each level. -/
theorem Path.unique {i : ℕ} {p : Ptr} {ps' : List Ptr} (h : sl.Path i p ps) (h' : sl.Path i p ps') :
    ps = ps' := by
  induction ps generalizing p ps' with
  | nil =>
    obtain ⟨_, hl⟩ := h
    cases ps' with
    | nil => rfl
    | cons q' ps' =>
      obtain ⟨⟨_, hl'⟩, -⟩ := h'
      rw [hl] at hl'
      cases hl'
  | cons q ps ih =>
    obtain ⟨⟨_, hl⟩, h⟩ := h
    cases ps' with
    | nil =>
      obtain ⟨_, hl'⟩ := h'
      rw [hl] at hl'
      cases hl'
    | cons q' ps' =>
      obtain ⟨⟨_, hl'⟩, h'⟩ := h'
      rw [hl] at hl'
      cases hl'
      rw [ih h h']

omit [Score σ] in
/-- The pairs of a list are those along level 0. -/
theorem Holds.unique {es' : List (σ × Bytes)} (h : Holds sl es) (h' : Holds sl es') : es = es' := by
  obtain ⟨ps, hs, he⟩ := h
  obtain ⟨ps', hs', he'⟩ := h'
  obtain rfl := hs.path_zero.unique hs'.path_zero
  rw [← pairs_eq he, ← pairs_eq he']

omit [Score σ] in
/-- A list with pairs in order is well formed. -/
theorem Represents.wellFormed (h : Represents key ok sl es) :
    ∃ ps, WellFormed key sl ps ∧ sl.pairs ps = es := by
  obtain ⟨ps, hs, he⟩ := h.holds
  refine ⟨ps, ⟨hs.path_zero, ?_, ?_, ?_, ?_, hs.length⟩, pairs_eq he⟩
  · rw [pairs_eq he]
    exact h.sorted
  · intro p hp
    obtain ⟨e, -, hpe⟩ := mem_map.1 (he ▸ mem_map_of_mem hp)
    rw [← hpe]
    rfl
  · intro i hi
    have hlt : i < sl.height sl.header := by
      rw [hs.header_height]
      exact lt_of_lt_of_le hi hs.level_le
    exact hs.path_from ps.length [] sl.header ps rfl hlt le_rfl
  · intro i hi hlt
    have hh : i < sl.height sl.header := by rw [hs.header_height]; exact hlt
    exact ⟨sl.spanAt sl.header i, by rw [link_eq_ok hh, hs.fwd_header_eq_none hi]⟩

/-- The skip list is a sorted set: in every run from the empty list the pointers are well formed,
every call returns what it returns for the set, and `Contains` decides membership. The one other
outcome is that memory runs out, which takes as many calls as there are addresses. -/
theorem run_refines_sortedSet (hk : OrderedBy key ok) (ops : List (Op σ))
    (hops : ∀ op ∈ ops, op.Valid ok) :
    (∃ outs sl ps, run ops empty = .ok (outs, sl) ∧ WellFormed key sl ps ∧
      SortedSet.run (ops.map (Op.toSet key)) ∅ =
        (outs.map (Out.map (keyOf key)), keySet key (sl.pairs ps)) ∧
      ∀ score member, sl.contains score member =
        .ok (decide (keyOf key (score, member) ∈ keySet key (sl.pairs ps)))) ∨
    (run ops (empty : SkipList σ) = .error .badAlloc ∧ maxNodes ≤ ops.length) := by
  rcases run_refines hk ops hops represents_empty with
    ⟨outs, sl, es, hr, hrep, hrun⟩ | ⟨hr, hfull⟩
  · obtain ⟨ps, hwf, hpairs⟩ := hrep.wellFormed
    refine .inl ⟨outs, sl, ps, hr, hwf, ?_, fun score member => ?_⟩
    · rw [hpairs]
      exact hrun
    · rw [hpairs]
      exact contains_eq hk hrep score member
  · exact .inr ⟨hr, by simpa using hfull⟩

/-- A run with the scores 1 and 2. -/
theorem run_refines_sortedSet_double :
    ∃ outs sl ps,
      run [.insert 1 (⟨0x3FF0000000000000⟩ : Double) (bytes "a"),
        .insert 3 ⟨0x4000000000000000⟩ (bytes "b"), .popMin] empty = .ok (outs, sl) ∧
      WellFormed Double.key sl ps ∧
      ∀ score member, sl.contains score member =
        .ok (decide (keyOf Double.key (score, member) ∈ keySet Double.key (sl.pairs ps))) := by
  rcases run_refines_sortedSet Double.orderedBy
    [.insert 1 (⟨0x3FF0000000000000⟩ : Double) (bytes "a"),
      .insert 3 ⟨0x4000000000000000⟩ (bytes "b"), .popMin]
    (by decide) with
    ⟨outs, sl, ps, hr, hwf, -, hcontains⟩ | ⟨-, hfull⟩
  · exact ⟨outs, sl, ps, hr, hwf, hcontains⟩
  · exact absurd hfull (by decide)

end TinyRedis.SkipList

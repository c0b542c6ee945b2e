import Mathlib.Data.Finset.Max

/-!
# Sorted sets

A sorted set, as a finite set of elements of a linear order, and the operations on it. An
implementation that keeps the elements in a strictly increasing list finds the place of an element
by cutting the list in two (`CutAt`). The lemmas about cuts say what happens to the set when an
element is put in or taken out at the cut.
-/

namespace TinyRedis.Lib.SortedSet

open List

variable {α β : Type*} {as' bs' : List α}

/-! ## The machine -/

/-- The operations that change a sorted set. -/
inductive Op (α : Type*) where
  | insert (a : α)
  | erase (a : α)
  | popMin
  | popMax

/-- What the operations return. -/
inductive Out (α : Type*) where
  /-- Whether the set was changed. -/
  | flag (changed : Bool)
  /-- The element that was removed, if there was one. -/
  | popped (a : Option α)
  deriving DecidableEq

/-- The output with its elements mapped. -/
def Out.map (f : α → β) : Out α → Out β
  | .flag b => .flag b
  | .popped a => .popped (a.map f)

variable [LinearOrder α]

/-- Remove the least element. -/
def popMin (s : Finset α) : Option α × Finset α :=
  if h : s.Nonempty then (some (s.min' h), s.erase (s.min' h)) else (none, s)

/-- Remove the greatest element. -/
def popMax (s : Finset α) : Option α × Finset α :=
  if h : s.Nonempty then (some (s.max' h), s.erase (s.max' h)) else (none, s)

/-- One operation. -/
def step (s : Finset α) : Op α → Out α × Finset α
  | .insert a => (.flag (a ∉ s), insert a s)
  | .erase a => (.flag (a ∈ s), s.erase a)
  | .popMin => ((popMin s).map .popped id)
  | .popMax => ((popMax s).map .popped id)

/-- A sequence of operations, with what each of them returns. -/
def run : List (Op α) → Finset α → List (Out α) × Finset α
  | [], s => ([], s)
  | op :: ops, s =>
    let (out, s) := step s op
    let (outs, s) := run ops s
    (out :: outs, s)

/-! ## Increasing lists -/

variable {k : α} {as bs : List α} {l : List α}

/-- A strictly increasing list `as ++ bs` is cut at the place of `k`. -/
structure CutAt (k : α) (as bs : List α) : Prop where
  sorted : (as ++ bs).Pairwise (· < ·)
  below : ∀ a ∈ as, a < k
  above : ∀ b ∈ bs, k ≤ b

/-- A cut is determined by its two ends. -/
theorem CutAt.of_ends (hs : (as ++ bs).Pairwise (· < ·)) (ha : ∀ a ∈ as.getLast?, a < k)
    (hb : ∀ b ∈ bs.head?, k ≤ b) : CutAt k as bs := by
  obtain ⟨has, hbs, -⟩ := pairwise_append.1 hs
  refine ⟨hs, fun a hmem => ?_, fun b hmem => ?_⟩
  · rcases eq_nil_or_concat as with rfl | ⟨as, z, rfl⟩
    · exact absurd hmem (by simp)
    · have hz : z < k := ha z (by simp)
      rw [concat_eq_append] at has hmem
      rcases mem_append.1 hmem with h | h
      · exact ((pairwise_append.1 has).2.2 a h z (by simp)).trans hz
      · rwa [mem_singleton.1 h]
  · cases bs with
    | nil => exact absurd hmem (by simp)
    | cons z bs =>
      have hz : k ≤ z := hb z rfl
      rcases mem_cons.1 hmem with rfl | h
      · exact hz
      · exact hz.trans ((pairwise_cons.1 hbs).1 b h).le

/-- If `k` is in the list, it is right after the cut. -/
theorem CutAt.mem_iff (h : CutAt k as bs) : k ∈ as ++ bs ↔ bs.head? = some k := by
  constructor
  · intro hk
    rcases mem_append.1 hk with hk | hk
    · exact absurd (h.below k hk) (lt_irrefl k)
    · cases bs with
      | nil => exact absurd hk (by simp)
      | cons b bs =>
        rcases mem_cons.1 hk with rfl | hk
        · rfl
        · have hbk := (pairwise_cons.1 (pairwise_append.1 h.sorted).2.1).1 k hk
          exact absurd (h.above b (by simp)) (not_le.2 hbk)
  · intro hk
    exact mem_append_right _ (mem_of_head? hk)

/-- There is one place to cut at. -/
theorem CutAt.unique (h : CutAt k as bs) (h' : CutAt k as' bs') (he : as ++ bs = as' ++ bs') :
    as = as' ∧ bs = bs' := by
  rcases append_eq_append_iff.1 he with ⟨mid, rfl, rfl⟩ | ⟨mid, rfl, rfl⟩
  · cases mid with
    | nil => simp
    | cons m mid =>
      exact absurd (h'.below m (by simp)) (not_lt.2 (h.above m (by simp)))
  · cases mid with
    | nil => simp
    | cons m mid =>
      exact absurd (h.below m (by simp)) (not_lt.2 (h'.above m (by simp)))

/-- Before an element of the list is the place of this element. -/
theorem CutAt.of_mem (hs : (as ++ k :: bs).Pairwise (· < ·)) : CutAt k as (k :: bs) := by
  obtain ⟨-, hbs, hcross⟩ := pairwise_append.1 hs
  refine ⟨hs, fun a ha => hcross a ha k (by simp), fun b hb => ?_⟩
  rcases mem_cons.1 hb with rfl | hb
  · exact le_rfl
  · exact ((pairwise_cons.1 hbs).1 b hb).le

/-- The order of two elements is the order of their positions. -/
theorem le_iff_length_le {k' : α} (hs : (as ++ k :: bs).Pairwise (· < ·))
    (he : as ++ k :: bs = as' ++ k' :: bs') : k' ≤ k ↔ as'.length ≤ as.length := by
  rcases append_eq_append_iff.1 he with ⟨mid, rfl, hmid⟩ | ⟨mid, rfl, hmid⟩
  · cases mid with
    | nil =>
      obtain ⟨rfl, -⟩ := List.cons.inj hmid
      simp
    | cons m mid =>
      -- `k` is before `k'`.
      obtain ⟨rfl, -⟩ := List.cons.inj hmid
      rw [he] at hs
      have hlt : k < k' := (CutAt.of_mem hs).below k (by simp)
      rw [length_append, length_cons]
      exact ⟨fun h => absurd h (not_le.2 hlt), fun h => by omega⟩
  · cases mid with
    | nil =>
      obtain ⟨rfl, -⟩ := List.cons.inj hmid
      simp
    | cons m mid =>
      obtain ⟨rfl, -⟩ := List.cons.inj hmid
      have hlt : k' < k := (CutAt.of_mem hs).below k' (by simp)
      rw [length_append, length_cons]
      exact ⟨fun _ => by omega, fun _ => hlt.le⟩

/-- An element that is not in the list goes in at the cut. -/
theorem CutAt.sorted_insert (h : CutAt k as bs) (hk : k ∉ as ++ bs) :
    (as ++ k :: bs).Pairwise (· < ·) := by
  obtain ⟨has, hbs, hcross⟩ := pairwise_append.1 h.sorted
  refine pairwise_append.2 ⟨has, pairwise_cons.2 ⟨fun b hb => ?_, hbs⟩,
    fun a ha b hb => ?_⟩
  · refine lt_of_le_of_ne (h.above b hb) ?_
    rintro rfl
    exact hk (mem_append_right _ hb)
  · rcases mem_cons.1 hb with rfl | hb
    · exact h.below a ha
    · exact hcross a ha b hb

/-- What is left is in order. -/
theorem sorted_erase (hs : (as ++ k :: bs).Pairwise (· < ·)) : (as ++ bs).Pairwise (· < ·) :=
  hs.sublist ((List.Sublist.refl as).append (sublist_cons_self k bs))

/-! ## The set of a list -/

/-- The elements of a list. -/
def elems (l : List α) : Finset α := l.toFinset

/-- The elements of a list. -/
@[simp]
theorem mem_elems : k ∈ elems l ↔ k ∈ l := mem_toFinset

/-- An element is put in. -/
theorem elems_insert : elems (as ++ k :: bs) = insert k (elems (as ++ bs)) := by
  ext x
  simp only [mem_elems, mem_append, mem_cons, Finset.mem_insert]
  tauto

/-- An element is taken out. -/
theorem elems_erase (hs : (as ++ k :: bs).Pairwise (· < ·)) :
    elems (as ++ bs) = (elems (as ++ k :: bs)).erase k := by
  have hk : k ∉ elems (as ++ bs) := by
    have hnd := nodup_middle.1 (hs.imp fun h => h.ne)
    rw [mem_elems]
    exact (nodup_cons.1 hnd).1
  rw [elems_insert, Finset.erase_insert hk]

/-- An element that is there is not inserted again. -/
theorem step_insert_of_mem (hk : k ∈ l) : step (elems l) (.insert k) = (.flag false, elems l) := by
  have hk' : k ∈ elems l := mem_elems.2 hk
  rw [step, decide_eq_false (not_not.2 hk'), Finset.insert_eq_of_mem hk']

/-- A new element is inserted anywhere in the list. -/
theorem step_insert_of_notMem (hk : k ∉ as ++ bs) :
    step (elems (as ++ bs)) (.insert k) = (.flag true, elems (as ++ k :: bs)) := by
  have hk' : k ∉ elems (as ++ bs) := fun h => hk (mem_elems.1 h)
  rw [step, decide_eq_true hk', elems_insert]

/-- An element that is there is erased. -/
theorem step_erase_of_mem (hs : (as ++ k :: bs).Pairwise (· < ·)) :
    step (elems (as ++ k :: bs)) (.erase k) = (.flag true, elems (as ++ bs)) := by
  have hk : k ∈ elems (as ++ k :: bs) := mem_elems.2 (by simp)
  rw [step, decide_eq_true hk, elems_erase hs]

/-- Nothing is erased if the element is not there. -/
theorem step_erase_of_notMem (hk : k ∉ l) : step (elems l) (.erase k) = (.flag false, elems l) := by
  have hk' : k ∉ elems l := fun h => hk (mem_elems.1 h)
  rw [step, decide_eq_false hk', Finset.erase_eq_of_notMem hk']

/-- The first element is the least one. -/
theorem step_popMin_cons (hs : (k :: bs).Pairwise (· < ·)) :
    step (elems (k :: bs)) .popMin = (.popped (some k), elems bs) := by
  have hs' : ([] ++ k :: bs).Pairwise (· < ·) := hs
  have hne : (elems (k :: bs)).Nonempty := ⟨k, by simp⟩
  have hmin : (elems (k :: bs)).min' hne = k := by
    refine (Finset.min'_eq_iff _ hne k).2 ⟨by simp, fun b hb => ?_⟩
    exact (CutAt.of_mem hs').above b (mem_elems.1 hb)
  unfold step popMin
  rw [dif_pos hne, hmin]
  exact congrArg (Prod.mk _) (elems_erase hs').symm

/-- The last element is the greatest one. -/
theorem step_popMax_concat (hs : (as ++ [k]).Pairwise (· < ·)) :
    step (elems (as ++ [k])) .popMax = (.popped (some k), elems as) := by
  have hne : (elems (as ++ [k])).Nonempty := ⟨k, by simp⟩
  have hmax : (elems (as ++ [k])).max' hne = k := by
    refine (Finset.max'_eq_iff _ hne k).2 ⟨by simp, fun a ha => ?_⟩
    rcases mem_append.1 (mem_elems.1 ha) with ha | ha
    · exact ((CutAt.of_mem hs).below a ha).le
    · exact (mem_singleton.1 ha).le
  unfold step popMax
  rw [dif_pos hne, hmax]
  refine congrArg (Prod.mk _) ?_
  rw [id, ← elems_erase hs, append_nil]

end TinyRedis.Lib.SortedSet

import Mathlib.Data.List.Nodup

/-!
# Objects that are created and destroyed

Objects are kept under names. Every object that is created gets a number of its own, so a pointer,
which is a name and a number, tells an object from a later one under the same name. `Numbered` is
what creation and destruction keep, and it says that no object is destroyed twice.
-/

namespace TinyRedis.Lib

open Function

/-- The objects under their names, the numbers of those that were destroyed, and the next number. -/
structure Objects (ι : Type) where
  number : ι → Option ℕ
  freed : List ℕ
  next : ℕ

namespace Objects

variable {ι : Type} {o : Objects ι} {i j : ι} {p : ℕ}

/-- Numbers are given once. -/
structure Numbered (o : Objects ι) : Prop where
  number_lt : ∀ i p, o.number i = some p → p < o.next
  freed_lt : ∀ p ∈ o.freed, p < o.next
  unique : ∀ i j p, o.number i = some p → o.number j = some p → i = j
  notFreed : ∀ i p, o.number i = some p → p ∉ o.freed
  nodup : o.freed.Nodup

variable [DecidableEq ι]

/-- Create an object. -/
def alloc (o : Objects ι) (i : ι) : Objects ι :=
  ⟨update o.number i (some o.next), o.freed, o.next + 1⟩

/-- Destroy the object under a name. -/
def free (o : Objects ι) (i : ι) : Objects ι :=
  ⟨update o.number i none, o.freed ++ (o.number i).toList, o.next⟩

/-- A pointer stays valid if an object is created under another name. -/
theorem number_alloc (hne : j ≠ i) (hj : o.number j = some p) : (o.alloc i).number j = some p :=
  (update_of_ne hne _ _).trans hj

/-- A pointer stays valid if an object under another name is destroyed. -/
theorem number_free (hne : j ≠ i) (hj : o.number j = some p) : (o.free i).number j = some p :=
  (update_of_ne hne _ _).trans hj

/-- A pointer that is valid after a creation is the new one, or was valid before. -/
theorem number_alloc_cases (h : (o.alloc i).number j = some p) :
    (j = i ∧ p = o.next) ∨ o.number j = some p := by
  unfold alloc at h
  dsimp only at h
  by_cases hji : j = i
  · subst hji
    rw [update_self] at h
    cases h
    exact .inl ⟨rfl, rfl⟩
  · rw [update_of_ne hji] at h
    exact .inr h

/-- Creation keeps the numbers apart. -/
theorem Numbered.alloc (h : o.Numbered) (i : ι) : (o.alloc i).Numbered where
  number_lt j p hp := by
    rcases number_alloc_cases hp with ⟨-, rfl⟩ | hp
    · exact Nat.lt_succ_self _
    · exact Nat.lt_succ_of_lt (h.number_lt j p hp)
  freed_lt p hp := Nat.lt_succ_of_lt (h.freed_lt p hp)
  unique j k p hj hk := by
    rcases number_alloc_cases hj with ⟨hji, hjp⟩ | hj'
    · rcases number_alloc_cases hk with ⟨hki, -⟩ | hk'
      · exact hji.trans hki.symm
      · exact absurd (hjp ▸ h.number_lt k p hk') (Nat.lt_irrefl _)
    · rcases number_alloc_cases hk with ⟨-, hkp⟩ | hk'
      · exact absurd (hkp ▸ h.number_lt j p hj') (Nat.lt_irrefl _)
      · exact h.unique j k p hj' hk'
  notFreed j p hp hfreed := by
    rcases number_alloc_cases hp with ⟨-, rfl⟩ | hp
    · exact absurd (h.freed_lt _ hfreed) (Nat.lt_irrefl _)
    · exact h.notFreed j p hp hfreed
  nodup := h.nodup

/-- A pointer that is valid after a destruction is one to another object, and was valid before. -/
theorem of_number_free (h : (o.free i).number j = some p) : j ≠ i ∧ o.number j = some p := by
  unfold free at h
  dsimp only at h
  by_cases hji : j = i
  · subst hji
    rw [update_self] at h
    cases h
  · rw [update_of_ne hji] at h
    exact ⟨hji, h⟩

/-- One more object is destroyed. -/
theorem mem_freed_free {q : ℕ} (hi : o.number i = some p) :
    q ∈ (o.free i).freed ↔ q ∈ o.freed ∨ q = p := by
  unfold free
  rw [hi, List.mem_append, Option.toList_some, List.mem_singleton]

/-- Destruction keeps them apart. -/
theorem Numbered.free (h : o.Numbered) (hi : o.number i = some p) : (o.free i).Numbered where
  number_lt j q hq := h.number_lt j q (of_number_free hq).2
  freed_lt q hq := by
    rcases (mem_freed_free hi).1 hq with hq | rfl
    · exact h.freed_lt q hq
    · exact h.number_lt i q hi
  unique j k q hj hk := h.unique j k q (of_number_free hj).2 (of_number_free hk).2
  notFreed j q hj hfreed := by
    obtain ⟨hne, hj⟩ := of_number_free hj
    rcases (mem_freed_free hi).1 hfreed with hfreed | rfl
    · exact h.notFreed j q hj hfreed
    · exact hne (h.unique j i q hj hi)
  nodup := by
    have hnot := h.notFreed i p hi
    unfold Objects.free
    rw [hi, Option.toList_some]
    exact List.nodup_append.2 ⟨h.nodup, List.nodup_singleton p, fun a ha b hb => by
      rintro rfl
      exact hnot (List.mem_singleton.1 hb ▸ ha)⟩

end Objects

end TinyRedis.Lib

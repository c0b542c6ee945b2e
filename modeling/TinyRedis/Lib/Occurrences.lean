import Mathlib.Data.List.Basic

/-!
# Removal of occurrences

A list without the first or the last few occurrences of a value, and what this is: the list is cut
in two, and one part loses all its occurrences of the value.
-/

namespace TinyRedis.Lib

open List

variable {α : Type*} [DecidableEq α] {v x : α} {n : ℕ} {l l' : List α}

/-- A list without the first `n` occurrences of `v`. -/
def removeFirst (v : α) : ℕ → List α → List α
  | 0, l => l
  | _ + 1, [] => []
  | n + 1, x :: l => if x = v then removeFirst v n l else x :: removeFirst v (n + 1) l

/-- A list without the last `n` occurrences of `v`. -/
def removeLast (v : α) (n : ℕ) (l : List α) : List α := (removeFirst v n l.reverse).reverse

/-- No occurrence is removed. -/
@[simp]
theorem removeFirst_zero (v : α) (l : List α) : removeFirst v 0 l = l := by
  cases l <;> rfl

/-- There is no occurrence. -/
@[simp]
theorem removeFirst_nil (v : α) (n : ℕ) : removeFirst v n [] = [] := by
  cases n <;> rfl

/-- The first element is one. -/
theorem removeFirst_succ_self (v : α) (n : ℕ) (l : List α) :
    removeFirst v (n + 1) (v :: l) = removeFirst v n l := if_pos rfl

/-- The first element is none. -/
theorem removeFirst_cons_of_ne (h : x ≠ v) (n : ℕ) (l : List α) :
    removeFirst v n (x :: l) = x :: removeFirst v n l := by
  cases n with
  | zero => rw [removeFirst_zero, removeFirst_zero]
  | succ n => exact if_neg h

/-- There is no occurrence. -/
@[simp]
theorem removeLast_nil (v : α) (n : ℕ) : removeLast v n [] = [] := by
  rw [removeLast, reverse_nil, removeFirst_nil, reverse_nil]

/-- No occurrence is removed. -/
theorem removeLast_zero (v : α) (l : List α) : removeLast v 0 l = l := by
  rw [removeLast, removeFirst_zero, reverse_reverse]

/-- The last element is one. -/
theorem removeLast_concat_self (v : α) (n : ℕ) (l : List α) :
    removeLast v (n + 1) (l ++ [v]) = removeLast v n l := by
  rw [removeLast, reverse_append, reverse_singleton, singleton_append,
    removeFirst_succ_self, removeLast]

/-- The last element is none. -/
theorem removeLast_concat_of_ne (h : x ≠ v) (n : ℕ) (l : List α) :
    removeLast v n (l ++ [x]) = removeLast v n l ++ [x] := by
  rw [removeLast, reverse_append, reverse_singleton, singleton_append,
    removeFirst_cons_of_ne h, reverse_cons, removeLast]

variable [BEq α] [LawfulBEq α]

/-- The occurrences in a first part are removed, and the rest stays. -/
def RemovesFirst (v : α) (n : ℕ) (l l' : List α) : Prop :=
  ∃ l₁ l₂, l = l₁ ++ l₂ ∧ l₁.count v = n ∧ l' = l₁.filter (· ≠ v) ++ l₂

/-- The occurrences in a last part are removed, and the rest stays. -/
def RemovesLast (v : α) (n : ℕ) (l l' : List α) : Prop :=
  ∃ l₁ l₂, l = l₁ ++ l₂ ∧ l₂.count v = n ∧ l' = l₁ ++ l₂.filter (· ≠ v)

/-- `removeFirst` does what it says. -/
theorem removesFirst_removeFirst (v : α) (n : ℕ) (l : List α) :
    RemovesFirst v (min n (l.count v)) l (removeFirst v n l) := by
  induction l generalizing n with
  | nil => exact ⟨[], [], rfl, by rw [count_nil, Nat.min_zero], removeFirst_nil v n⟩
  | cons x l ih =>
    cases n with
    | zero => exact ⟨[], x :: l, rfl, by rw [count_nil, Nat.zero_min], rfl⟩
    | succ n =>
      by_cases hx : x = v
      · subst hx
        obtain ⟨l₁, l₂, rfl, hcount, hrest⟩ := ih n
        refine ⟨x :: l₁, l₂, rfl, ?_, ?_⟩
        · rw [count_cons_self, hcount, count_cons_self, Nat.succ_min_succ]
        · rw [removeFirst_succ_self, hrest, filter_cons_of_neg (by simp)]
      · obtain ⟨l₁, l₂, rfl, hcount, hrest⟩ := ih (n + 1)
        refine ⟨x :: l₁, l₂, rfl, ?_, ?_⟩
        · rw [count_cons_of_ne hx, hcount, count_cons_of_ne hx]
        · rw [removeFirst_cons_of_ne hx, hrest, filter_cons_of_pos (by simpa using hx)]
          rfl

/-- So does `removeLast`. -/
theorem removesLast_removeLast (v : α) (n : ℕ) (l : List α) :
    RemovesLast v (min n (l.count v)) l (removeLast v n l) := by
  obtain ⟨l₁, l₂, hl, hcount, hrest⟩ := removesFirst_removeFirst v n l.reverse
  refine ⟨l₂.reverse, l₁.reverse, ?_, ?_, ?_⟩
  · rw [← reverse_append, ← hl, reverse_reverse]
  · rw [count_reverse, hcount, count_reverse]
  · rw [removeLast, hrest, reverse_append, filter_reverse]

/-- All occurrences are removed. -/
theorem length_filter_ne (v : α) (l : List α) :
    (l.filter (· ≠ v)).length + l.count v = l.length := by
  have hsplit := length_eq_countP_add_countP (fun x => x == v) (l := l)
  simp only [beq_iff_eq] at hsplit
  rw [← countP_eq_length_filter, List.count]
  simp only [ne_eq]
  omega

/-- The removed occurrences are missing, and nothing else. -/
theorem RemovesFirst.length_eq (h : RemovesFirst v n l l') : l'.length + n = l.length := by
  obtain ⟨l₁, l₂, rfl, rfl, rfl⟩ := h
  have hfilter := length_filter_ne v l₁
  rw [length_append, length_append]
  omega

/-- The same from the end. -/
theorem RemovesLast.length_eq (h : RemovesLast v n l l') : l'.length + n = l.length := by
  obtain ⟨l₁, l₂, rfl, rfl, rfl⟩ := h
  have hfilter := length_filter_ne v l₂
  rw [length_append, length_append]
  omega

end TinyRedis.Lib

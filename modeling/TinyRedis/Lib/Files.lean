import Mathlib.Data.List.Basic

/-!
# Files and their names

A file is an inode, and names stand for inodes. `openTrunc` empties the file under a name, or
creates one; `rename` moves the inode to another name. A handle is an inode and a position, so
writing through it goes on after the file was renamed.
-/

namespace TinyRedis.Lib

open Function List

/-- The inodes that names stand for, what is in the inodes, and the number of the next inode. -/
structure Files (ν β : Type) where
  inode : ν → Option ℕ
  content : ℕ → List β
  next : ℕ

/-- Some bytes are written at a position. If this is after the end, the gap is filled. -/
def overwrite {β : Type} (gap : β) (l : List β) (pos : ℕ) (b : List β) : List β :=
  l.take pos ++ List.replicate (pos - l.length) gap ++ b ++ l.drop (pos + b.length)

namespace Files

variable {ν β : Type} {f f' : Files ν β} {name name' : ν} {i pos : ℕ} {b : List β} {gap : β}

/-- What is in the file under a name. -/
def read (f : Files ν β) (name : ν) : Option (List β) := (f.inode name).map f.content

/-- Every inode that has a name has one name, and was numbered. -/
structure Separate (f : Files ν β) : Prop where
  lt : ∀ name i, f.inode name = some i → i < f.next
  unique : ∀ name name' i, f.inode name = some i → f.inode name' = some i → name = name'

/-- `write`. -/
def writeAt (gap : β) (f : Files ν β) (i pos : ℕ) (b : List β) : Files ν β :=
  { f with content := update f.content i (overwrite gap (f.content i) pos b) }

/-- Writing leaves the names. -/
theorem Separate.writeAt (h : f.Separate) (gap : β) (i pos : ℕ) (b : List β) :
    (f.writeAt gap i pos b).Separate := ⟨h.lt, h.unique⟩

/-- What was written. -/
theorem content_writeAt (gap : β) (f : Files ν β) (i pos : ℕ) (b : List β) :
    (f.writeAt gap i pos b).content i = overwrite gap (f.content i) pos b :=
  update_self ..

/-- Writing to a file leaves the files under other names. -/
theorem read_writeAt (h : f.Separate) (hi : f.inode name = some i) (hne : name' ≠ name) :
    (f.writeAt gap i pos b).read name' = f.read name' := by
  unfold read
  show (f.inode name').map _ = _
  cases hj : f.inode name' with
  | none => rfl
  | some j =>
    have hji : j ≠ i := by
      rintro rfl
      exact hne (h.unique name' name j hj hi)
    exact congrArg some (update_of_ne hji _ _)

variable [DecidableEq ν]

/-- `open` with `O_CREAT` and `O_TRUNC`: the inode. -/
def openTrunc (f : Files ν β) (name : ν) : ℕ × Files ν β :=
  match f.inode name with
  | some i => (i, { f with content := update f.content i [] })
  | none => (f.next, ⟨update f.inode name (some f.next),
      update f.content f.next [], f.next + 1⟩)

/-- `rename`, for two different names. It fails if there is no such file. -/
def rename (f : Files ν β) (old new : ν) : Option (Files ν β) :=
  (f.inode old).map fun i =>
    { f with inode := update (update f.inode new (some i)) old none }

/-- A file that is created has an inode of its own. -/
theorem Separate.openTrunc (h : f.Separate) (name : ν) : (f.openTrunc name).2.Separate := by
  unfold Files.openTrunc
  cases hi : f.inode name with
  | some i => exact ⟨h.lt, h.unique⟩
  | none =>
    have hcases : ∀ n j, update f.inode name (some f.next) n = some j →
        (n = name ∧ j = f.next) ∨ f.inode n = some j := by
      intro n j hj
      by_cases hn : n = name
      · rw [hn, update_self] at hj
        exact .inl ⟨hn, (Option.some.inj hj).symm⟩
      · rw [update_of_ne hn] at hj
        exact .inr hj
    constructor
    · intro n j hj
      rcases hcases n j hj with ⟨-, rfl⟩ | hj
      · exact Nat.lt_succ_self _
      · exact Nat.lt_succ_of_lt (h.lt n j hj)
    · intro n n' j hj hj'
      rcases hcases n j hj with ⟨hn, hnext⟩ | hold
      · rcases hcases n' j hj' with ⟨hn', -⟩ | hold'
        · exact hn.trans hn'.symm
        · exact absurd (hnext ▸ h.lt n' j hold') (Nat.lt_irrefl _)
      · rcases hcases n' j hj' with ⟨-, hnext⟩ | hold'
        · exact absurd (hnext ▸ h.lt n j hold) (Nat.lt_irrefl _)
        · exact h.unique n n' j hold hold'

/-- The file that was opened is empty. -/
theorem openTrunc_spec (f : Files ν β) (name : ν) :
    (f.openTrunc name).2.inode name = some (f.openTrunc name).1 ∧
      (f.openTrunc name).2.content (f.openTrunc name).1 = [] := by
  unfold openTrunc
  cases hi : f.inode name with
  | some i => exact ⟨hi, update_self ..⟩
  | none => exact ⟨update_self .., update_self ..⟩

/-- Opening a file leaves the files under other names. -/
theorem read_openTrunc (h : f.Separate) (hne : name' ≠ name) :
    (f.openTrunc name).2.read name' = f.read name' := by
  unfold openTrunc read
  cases hi : f.inode name with
  | some i =>
    cases hj : f.inode name' with
    | none => rfl
    | some j =>
      have hji : j ≠ i := by
        rintro rfl
        exact hne (h.unique name' name j hj hi)
      exact congrArg some (update_of_ne hji _ _)
  | none =>
    dsimp only
    rw [update_of_ne hne]
    cases hj : f.inode name' with
    | none => rfl
    | some j =>
      have hji : j ≠ f.next := Nat.ne_of_lt (h.lt name' j hj)
      exact congrArg some (update_of_ne hji _ _)

/-- A file that is there can be renamed. -/
theorem rename_eq (hi : f.inode name = some i) (name' : ν) : f.rename name name' =
    some { f with
      inode := update (update f.inode name' (some i)) name none } := by
  unfold rename
  rw [hi]
  rfl

/-- The file is under its new name, and nothing is under the old one. -/
theorem read_rename (hi : f.inode name = some i) (hne : name' ≠ name)
    (hf' : f.rename name name' = some f') : f'.read name' = some (f.content i) := by
  rw [rename_eq hi] at hf'
  cases hf'
  unfold read
  dsimp only
  rw [update_of_ne hne, update_self]
  rfl

/-- A file that is renamed loses its old name. -/
theorem Separate.rename (h : f.Separate) (hf' : f.rename name name' = some f') : f'.Separate := by
  obtain ⟨i, hi, rfl⟩ := Option.map_eq_some_iff.1 hf'
  have hcases :
      ∀ n j, update (update f.inode name' (some i)) name none n = some j →
      n ≠ name ∧ ((n = name' ∧ j = i) ∨ f.inode n = some j) := by
    intro n j hj
    have hn : n ≠ name := by
      rintro rfl
      rw [update_self] at hj
      cases hj
    rw [update_of_ne hn] at hj
    refine ⟨hn, ?_⟩
    by_cases hn' : n = name'
    · rw [hn', update_self] at hj
      exact .inl ⟨hn', (Option.some.inj hj).symm⟩
    · rw [update_of_ne hn'] at hj
      exact .inr hj
  constructor
  · intro n j hj
    rcases (hcases n j hj).2 with ⟨-, rfl⟩ | hj
    · exact h.lt name j hi
    · exact h.lt n j hj
  · intro n n' j hj hj'
    obtain ⟨hn, hcase⟩ := hcases n j hj
    obtain ⟨hn', hcase'⟩ := hcases n' j hj'
    rcases hcase with ⟨rfl, rfl⟩ | hold
    · rcases hcase' with ⟨rfl, -⟩ | hold'
      · rfl
      · exact absurd (h.unique n' name j hold' hi) hn'
    · rcases hcase' with ⟨rfl, rfl⟩ | hold'
      · exact absurd (h.unique n name j hold hi) hn
      · exact h.unique n n' j hold hold'

end Files

/-- What is written piece by piece is there as far as it was written. -/
theorem overwrite_take {β : Type} (gap : β) (l : List β) {pos : ℕ} (hpos : pos ≤ l.length) (n : ℕ) :
    overwrite gap (l.take pos) pos ((l.drop pos).take n) =
      l.take (pos + ((l.drop pos).take n).length) := by
  have hlen : (l.take pos).length = pos := length_take_of_le hpos
  have hrest : (l.take pos).drop (pos + ((l.drop pos).take n).length) = [] :=
    drop_eq_nil_of_le (by rw [hlen]; exact Nat.le_add_right _ _)
  unfold overwrite
  rw [hlen, Nat.sub_self, replicate_zero, append_nil, take_take, Nat.min_self, hrest,
    append_nil, take_add, length_take]
  congr 1
  rw [take_eq_take_iff]
  omega

end TinyRedis.Lib

import Mathlib.Algebra.BigOperators.Group.List.Basic
import Mathlib.Algebra.GroupWithZero.Nat
import Mathlib.Data.List.AList

/-!
# Finite maps with weights

A finite map is an association list without duplicate keys. Its weight is the sum of the weights of
its entries, for the accounting of sizes: what an update does to the weight is the difference of the
weights of one entry.
-/

namespace TinyRedis.Lib

open List

variable {α V : Type} [DecidableEq α]

/-- A finite map. The order of the entries is the one in which they are iterated over. -/
abbrev Dict (α V : Type) := AList fun _ : α => V

namespace Dict

variable {d : Dict α V} {a : α} {b : V}

/-- The number of entries. -/
def size (d : Dict α V) : ℕ := d.entries.length

/-- The entries as pairs. -/
def toList (d : Dict α V) : List (α × V) := d.entries.map fun e => (e.1, e.2)

/-- The sum of the weights of the entries. -/
def weight (f : α → V → ℕ) (d : Dict α V) : ℕ := (d.entries.map fun e => f e.1 e.2).sum

omit [DecidableEq α] in
/-- The empty map. -/
theorem weight_empty (f : α → V → ℕ) : weight f (∅ : Dict α V) = 0 := rfl

/-- An entry can be taken out and put in front. -/
theorem entries_perm_erase (h : d.lookup a = some b) :
    d.entries.Perm (⟨a, b⟩ :: (d.erase a).entries) := by
  have hmem : a ∈ d.entries.keys := AList.mem_keys.1 (AList.lookup_isSome.1 (by rw [h]; rfl))
  obtain ⟨b', l₁, l₂, hl₁, hd, hk⟩ := exists_of_kerase hmem
  have hb : b' = b := by
    have hlook : ⟨a, b'⟩ ∈ d.entries := by rw [hd]; simp
    have := AList.mem_lookup_iff.2 hlook
    rw [h] at this
    exact (Option.some.inj this).symm
  have he : (d.erase a).entries = l₁ ++ l₂ := hk
  rw [he, hd, hb]
  exact perm_middle

/-- An entry takes its weight along. -/
theorem weight_erase (f : α → V → ℕ) (h : d.lookup a = some b) :
    f a b + weight f (d.erase a) = weight f d := by
  unfold weight
  rw [((entries_perm_erase h).map fun e => f e.1 e.2).sum_eq, map_cons, sum_cons]

/-- An entry is written over the old one. -/
theorem weight_insert (f : α → V → ℕ) (d : Dict α V) (a : α) (b : V) :
    weight f (d.insert a b) = f a b + weight f (d.erase a) := by
  unfold weight
  rw [AList.entries_insert, map_cons, sum_cons]
  rfl

/-- A key that is not there. -/
theorem erase_of_lookup_none (h : d.lookup a = none) : d.erase a = d := by
  apply AList.ext
  exact kerase_of_notMem_keys (fun hc => AList.lookup_eq_none.1 h (AList.mem_keys.2 hc))

/-- A new key adds its weight. -/
theorem weight_insert_new (f : α → V → ℕ) (b : V) (h : d.lookup a = none) :
    weight f (d.insert a b) = f a b + weight f d := by
  rw [weight_insert, erase_of_lookup_none h]

/-- Lookup after a write. -/
theorem lookup_insert_eq (d : Dict α V) (a a' : α) (b : V) :
    (d.insert a b).lookup a' = if a' = a then some b else d.lookup a' := by
  by_cases h : a' = a
  · subst h
    rw [if_pos rfl, AList.lookup_insert]
  · rw [if_neg h, AList.lookup_insert_ne h]

/-- Lookup after a deletion. -/
theorem lookup_erase_eq (d : Dict α V) (a a' : α) :
    (d.erase a).lookup a' = if a' = a then none else d.lookup a' := by
  by_cases h : a' = a
  · subst h
    rw [if_pos rfl, AList.lookup_erase]
  · rw [if_neg h, AList.lookup_erase_ne h]

/-! ## The number of entries -/

/-- A write leaves an entry. -/
theorem size_insert_pos (d : Dict α V) (a : α) (b : V) : 0 < size (d.insert a b) := by
  unfold size
  rw [AList.entries_insert]
  exact Nat.succ_pos _

omit [DecidableEq α] in
/-- A key is an entry. -/
theorem size_pos_of_mem (h : a ∈ d) : 0 < d.size := by
  have hmem : a ∈ d.entries.map Sigma.fst := AList.mem_keys.1 h
  have hpos := length_pos_of_mem hmem
  rwa [length_map] at hpos

/-- At most one entry is erased. -/
theorem size_le_size_erase (d : Dict α V) (a : α) : d.size ≤ size (d.erase a) + 1 := by
  cases h : d.lookup a with
  | none =>
    rw [erase_of_lookup_none h]
    exact Nat.le_succ _
  | some b => exact (entries_perm_erase h).length_eq.le

/-! ## The list of a map -/

omit [DecidableEq α] in
/-- The list has all entries. -/
theorem length_toList (d : Dict α V) : d.toList.length = d.size := length_map _

omit [DecidableEq α] in
/-- Every key is in the list once. -/
theorem toList_nodup (d : Dict α V) : (d.toList.map Prod.fst).Nodup := by
  unfold toList
  rw [map_map]
  exact d.nodupKeys

omit [DecidableEq α] in
/-- The keys are those of the list. -/
theorem mem_iff_mem_toList : a ∈ d ↔ a ∈ d.toList.map Prod.fst := by
  unfold toList
  rw [map_map, AList.mem_keys]
  rfl

/-- The entries are those of the list. -/
theorem lookup_eq_some_iff : d.lookup a = some b ↔ (a, b) ∈ d.toList := by
  unfold toList
  rw [← Option.mem_def, AList.mem_lookup_iff, mem_map]
  constructor
  · intro h
    exact ⟨⟨a, b⟩, h, rfl⟩
  · rintro ⟨⟨a', b'⟩, h, he⟩
    obtain ⟨rfl, rfl⟩ := Prod.mk.inj he
    exact h

/-- A key that is new goes to the front. -/
theorem toList_insert (h : a ∉ d) : toList (d.insert a b) = (a, b) :: d.toList := by
  unfold toList
  rw [AList.entries_insert_of_notMem h, map_cons]

/-- Two maps with the same entries have the same values, whatever the order. -/
theorem lookup_of_perm {d' : Dict α V} (h : d'.toList.Perm d.toList) (a : α) :
    d'.lookup a = d.lookup a := by
  refine Option.ext fun b => ?_
  rw [lookup_eq_some_iff, lookup_eq_some_iff, h.mem_iff]

/-- New keys are put in one after another. They come out in the opposite order. -/
theorem toList_foldl_add {X : Type*} {f : X → α × V} {add : Dict α V → X → Dict α V}
    (hadd : ∀ d x, (f x).1 ∉ d → add d x = d.insert (f x).1 (f x).2) (xs : List X) (d : Dict α V)
    (hnd : ((xs.map f ++ d.toList).map Prod.fst).Nodup) :
    (xs.foldl add d).toList = (xs.map f).reverse ++ d.toList := by
  induction xs generalizing d with
  | nil => rfl
  | cons x xs ih =>
    rw [map_cons, cons_append, map_cons, nodup_cons, map_append,
      mem_append, not_or, ← mem_iff_mem_toList] at hnd
    have hnew := hnd.1.2
    have hlist := toList_insert (b := (f x).2) hnew
    rw [foldl_cons, hadd d x hnew, ih, hlist, map_cons, reverse_cons, append_assoc]
    · rfl
    · rw [hlist, map_append, map_cons, nodup_middle, nodup_cons,
        mem_append, not_or, ← mem_iff_mem_toList]
      exact ⟨hnd.1, hnd.2⟩

/-! ## Parts of a map -/

section Filter

variable (p : α → V → Bool)

omit [DecidableEq α] in
/-- The keys stay distinct. -/
theorem nodupKeys_filter (d : Dict α V) : (d.entries.filter fun e => p e.1 e.2).NodupKeys :=
  d.nodupKeys.sublist filter_sublist

/-- The entries with the property `p`, in their order. -/
def filter (d : Dict α V) : Dict α V := ⟨d.entries.filter fun e => p e.1 e.2, nodupKeys_filter p d⟩

omit [DecidableEq α] in
/-- The entries that are left. -/
theorem entries_filter (d : Dict α V) :
    (filter p d).entries = d.entries.filter fun e => p e.1 e.2 := rfl

omit [DecidableEq α] in
/-- The list of them. -/
theorem toList_filter (d : Dict α V) :
    (filter p d).toList = d.toList.filter fun kv => p kv.1 kv.2 := by
  unfold toList filter
  rw [filter_map]
  rfl

/-- Lookup among them. -/
theorem lookup_filter_eq_some_iff :
    (filter p d).lookup a = some b ↔ d.lookup a = some b ∧ p a b = true := by
  rw [lookup_eq_some_iff, toList_filter, mem_filter, lookup_eq_some_iff]

/-- Without duplicate keys, the entry of a key is the only one with that key. -/
theorem kerase_eq_filter {l : List (Sigma fun _ : α => V)} (h : l.NodupKeys) (a : α) :
    l.kerase a = l.filter fun e => decide (e.1 ≠ a) := by
  induction l with
  | nil => rfl
  | cons e l ih =>
    obtain ⟨hnot, hl⟩ := nodupKeys_cons.1 h
    by_cases ha : a = e.1
    · rw [kerase_cons_eq ha, filter_cons_of_neg (by simp [ha]), eq_comm, filter_eq_self]
      intro e' he'
      refine decide_eq_true fun hc => hnot ?_
      rw [← ha, ← hc]
      exact mem_map_of_mem he'
    · rw [kerase_cons_ne ha, ih hl, filter_cons_of_pos (by simp [Ne.symm ha])]

/-- A deletion is a filter. -/
theorem entries_erase (d : Dict α V) (a : α) :
    (d.erase a).entries = d.entries.filter fun e => decide (e.1 ≠ a) :=
  kerase_eq_filter d.nodupKeys a

/-- A deletion before or after. -/
theorem filter_erase (d : Dict α V) (a : α) : filter p (d.erase a) = (filter p d).erase a := by
  refine AList.ext ?_
  rw [entries_filter, entries_erase, entries_erase, entries_filter, filter_filter, filter_filter]
  exact filter_congr fun e _ => Bool.and_comm _ _

/-- A write before or after. -/
theorem filter_insert (d : Dict α V) (a : α) (b : V) :
    filter p (d.insert a b) =
      if p a b then (filter p d).insert a b else (filter p d).erase a := by
  have herase : (d.entries.kerase a).filter (fun e => p e.1 e.2) =
      (d.entries.filter fun e => p e.1 e.2).kerase a :=
    congrArg AList.entries (filter_erase p d a)
  refine AList.ext ?_
  rw [entries_filter, AList.entries_insert]
  split_ifs with h
  · rw [filter_cons_of_pos (by simpa using h), AList.entries_insert, entries_filter, herase]
  · rw [filter_cons_of_neg (by simpa using h), herase]
    rfl

/-- An entry without the property can go. -/
theorem filter_erase_of_lookup (h : d.lookup a = some b) (hp : p a b = false) :
    filter p (d.erase a) = filter p d := by
  rw [filter_erase]
  refine erase_of_lookup_none (Option.eq_none_iff_forall_ne_some.2 fun b' hb' => ?_)
  obtain ⟨hlook, hp'⟩ := (lookup_filter_eq_some_iff p).1 hb'
  cases h.symm.trans hlook
  rw [hp] at hp'
  cases hp'

omit [DecidableEq α] in
/-- A stronger property has the last word. -/
theorem filter_filter_of_imp {q : α → V → Bool} (h : ∀ a b, q a b = true → p a b = true)
    (d : Dict α V) : filter q (filter p d) = filter q d := by
  refine AList.ext ?_
  rw [entries_filter, entries_filter, entries_filter, filter_filter]
  refine filter_congr fun e _ => ?_
  cases hq : q e.1 e.2 with
  | false => rfl
  | true => exact h _ _ hq

end Filter

end Dict

end TinyRedis.Lib

import Mathlib.Tactic.Abel

/-!
# Links of a skip list

A skip list is a sequence of nodes, each with a height, and a link at every level below its height.
This file is about that structure alone: nodes are the elements of any type `P`, a link leads to the
next node of the sequence that is high enough, and its span counts how many places it advances, in
any group `W` with a one (the natural numbers modulo `2^64`, say). Nothing is assumed about the
order of the nodes.

`LinkAt` says what one link is, and `Linked` that all links of a sequence are right. `Splits` names
the node that a search leaves at a level: the last one of a prefix that is high enough. Then
`Linked.insert` and `Linked.erase` say which links and spans change when a node enters or leaves the
sequence: exactly those of the nodes that `Splits` names.
-/

namespace TinyRedis.Lib

open List

variable {P W : Type*} {p q n : P} {a b l mid rest' rest pre tail before after : List P}

section Links

variable [AddCommGroupWithOne W] (ht : P → ℕ) (fwd : P → ℕ → Option P) (span : P → ℕ → W)

/-- The link of `p` at level `i`, when `rest` are the nodes after `p`: it leads to the first node of
`rest` above level `i`, over as many places as its span says, or nowhere when there is none. -/
def LinkAt (i : ℕ) (p : P) (rest : List P) : Prop :=
  (fwd p i = none ∧ ∀ r ∈ rest, ht r ≤ i) ∨
    ∃ mid q rest', rest = mid ++ q :: rest' ∧ (∀ r ∈ mid, ht r ≤ i) ∧ i < ht q ∧
      fwd p i = some q ∧ span p i = ((mid.length + 1 : ℕ) : W)

/-- Every node of the sequence has the right link at every level below its height. -/
def Linked (l : List P) : Prop :=
  ∀ pre p rest, l = pre ++ p :: rest → ∀ i < ht p, LinkAt ht fwd span i p rest

/-- `p` is the last node above level `i` of the sequence `l`, and `tail` are the nodes after it. -/
def Splits (i : ℕ) (l : List P) (p : P) (tail : List P) : Prop :=
  (∃ pre, l = pre ++ p :: tail) ∧ i < ht p ∧ ∀ r ∈ tail, ht r ≤ i

end Links

variable {ht ht' : P → ℕ} {fwd fwd' : P → ℕ → Option P} {i : ℕ} {c : List P}

/-- The last node above a level, and what follows it, are unique. -/
theorem Splits.unique {s t : List P} (hp : Splits ht i l p s) (hq : Splits ht i l q t) :
    p = q ∧ s = t := by
  obtain ⟨⟨a, ha⟩, hpi, hs⟩ := hp
  obtain ⟨⟨b, hb⟩, hqi, ht'⟩ := hq
  rw [ha] at hb
  -- If one split came first, the node of the other would be among the low ones after it.
  rcases append_eq_append_iff.1 hb with ⟨c, hc, hc'⟩ | ⟨c, hc, hc'⟩
  · cases c with
    | nil => simpa using hc'
    | cons x c =>
      rw [cons_append, List.cons.injEq] at hc'
      have := hs q (by rw [hc'.2]; simp)
      omega
  · cases c with
    | nil => simpa [eq_comm] using hc'
    | cons x c =>
      rw [cons_append, List.cons.injEq] at hc'
      have := ht' p (by rw [hc'.2]; simp)
      omega

/-- A node occurs once in a sequence without duplicates. -/
theorem tail_unique {d : List P} (hnd : (a ++ p :: b).Nodup) (h : a ++ p :: b = c ++ p :: d) :
    b = d := by
  have hp : ∀ {x y : List P}, (x ++ p :: y).Nodup → p ∉ x ∧ p ∉ y := fun hxy => by
    rw [nodup_append] at hxy
    exact ⟨fun hx => hxy.2.2 p hx p (by simp) rfl, (nodup_cons.1 hxy.2.1).1⟩
  rcases append_eq_append_iff.1 h with ⟨e, rfl, he⟩ | ⟨e, rfl, he⟩
  · cases e with
    | nil => simpa using he
    | cons x e =>
      rw [cons_append, List.cons.injEq] at he
      exact absurd (by rw [he.2]; simp) (hp hnd).2
  · cases e with
    | nil => simpa [eq_comm] using he
    | cons x e =>
      rw [cons_append, List.cons.injEq] at he
      exact absurd (by rw [he.1]; simp) (hp hnd).1

/-- A node above the level is the last such one, or there is another after it. -/
theorem splits_or_exists (ht : P → ℕ) (i : ℕ) (hnd : l.Nodup) (hl : l = pre ++ p :: tail)
    (hp : i < ht p) :
    Splits ht i l p tail ∨ (∃ r ∈ tail, i < ht r) ∧ ∀ t, ¬Splits ht i l p t := by
  by_cases h : ∃ r ∈ tail, i < ht r
  · refine .inr ⟨h, fun t hs => ?_⟩
    obtain ⟨⟨a, ha⟩, -, hlow⟩ := hs
    obtain ⟨r, hr, hri⟩ := h
    subst hl
    have := hlow r (tail_unique hnd ha ▸ hr)
    omega
  · push Not at h
    exact .inl ⟨⟨pre, hl⟩, hp, h⟩

/-- The first node above a level, in a sequence that has one. -/
theorem exists_first (h : ∃ r ∈ l, i < ht r) :
    ∃ mid q rest, l = mid ++ q :: rest ∧ (∀ r ∈ mid, ht r ≤ i) ∧ i < ht q := by
  induction l with
  | nil => simp at h
  | cons x l ih =>
    by_cases hx : i < ht x
    · exact ⟨[], x, l, rfl, by simp, hx⟩
    · obtain ⟨r, hr, hri⟩ := h
      rcases mem_cons.1 hr with rfl | hr
      · exact absurd hri hx
      · obtain ⟨mid, q, rest, rfl, hmid, hq⟩ := ih ⟨r, hr, hri⟩
        refine ⟨x :: mid, q, rest, rfl, fun s hs => ?_, hq⟩
        rcases mem_cons.1 hs with rfl | hs
        · omega
        · exact hmid s hs

/-- Low nodes up to the first high one: a prefix that holds a high node holds the first one. -/
theorem exists_append_of_mem (h : mid ++ q :: rest' = a ++ b) (hmid : ∀ r ∈ mid, ht r ≤ i)
    (ha : ∃ r ∈ a, i < ht r) : ∃ a', a = mid ++ q :: a' ∧ rest' = a' ++ b := by
  obtain ⟨r, hr, hri⟩ := ha
  rcases append_eq_append_iff.1 h with ⟨c, hc, hc'⟩ | ⟨c, hc, hc'⟩
  · cases c with
    | nil =>
      rw [append_nil] at hc
      have := hmid r (hc ▸ hr)
      omega
    | cons x c =>
      rw [cons_append, List.cons.injEq] at hc'
      exact ⟨c, by rw [hc, hc'.1], hc'.2⟩
  · have := hmid r (by rw [hc]; exact mem_append_left _ hr)
    omega

/-- Low nodes up to the first high one: a prefix without a high node ends before the first one. -/
theorem exists_append_of_notMem (h : mid ++ q :: rest' = a ++ b) (hq : i < ht q)
    (ha : ∀ r ∈ a, ht r ≤ i) : ∃ b', mid = a ++ b' ∧ b = b' ++ q :: rest' := by
  rcases append_eq_append_iff.1 h with ⟨c, hc, hc'⟩ | ⟨c, hc, hc'⟩
  · cases c with
    | nil => exact ⟨[], by simpa using hc.symm, by simpa using hc'.symm⟩
    | cons x c =>
      rw [cons_append, List.cons.injEq] at hc'
      have := ha q (by rw [hc, hc'.1]; simp)
      omega
  · exact ⟨c, hc, hc'⟩

/-- The first node above a level is unique. -/
theorem first_unique {mid' : List P} {q' : P} (h : mid ++ q :: rest = mid' ++ q' :: rest')
    (hmid : ∀ r ∈ mid, ht r ≤ i) (hq : i < ht q) (hmid' : ∀ r ∈ mid', ht r ≤ i) (hq' : i < ht q') :
    q = q' ∧ rest = rest' := by
  obtain ⟨b', rfl, hb⟩ := exists_append_of_notMem h hq hmid'
  cases b' with
  | nil => simpa [eq_comm] using hb
  | cons x b' =>
    rw [cons_append, List.cons.injEq] at hb
    have := hmid q' (by rw [hb.1]; simp)
    omega

/-- Where a node of `a ++ b` stands. -/
theorem mem_split_append (h : a ++ b = pre ++ p :: rest) :
    (∃ c, b = c ++ p :: rest ∧ pre = a ++ c) ∨ ∃ c, a = pre ++ p :: c ∧ rest = c ++ b := by
  rcases append_eq_append_iff.1 h with ⟨c, hc, hc'⟩ | ⟨c, hc, hc'⟩
  · exact .inl ⟨c, hc', hc⟩
  · cases c with
    | nil => exact .inl ⟨[], by simpa using hc'.symm, by simpa using hc.symm⟩
    | cons x c =>
      rw [cons_append, List.cons.injEq] at hc'
      exact .inr ⟨c, by rw [hc, hc'.1], hc'.2⟩

section Update

variable [AddCommGroupWithOne W] {span span' : P → ℕ → W}

/-- A link does not depend on the heights, links, and spans of other nodes. -/
theorem LinkAt.congr (h : LinkAt ht fwd span i p rest) (hht : ∀ r ∈ rest, ht' r = ht r)
    (hf : fwd' p i = fwd p i) (hs : span' p i = span p i) : LinkAt ht' fwd' span' i p rest := by
  rcases h with ⟨h1, h2⟩ | ⟨mid, q, rest', rfl, hmid, hq, h1, h2⟩
  · exact .inl ⟨hf.trans h1, fun r hr => by rw [hht r hr]; exact h2 r hr⟩
  · refine .inr ⟨mid, q, rest', rfl, fun r hr => ?_, ?_, hf.trans h1, hs.trans h2⟩
    · rw [hht r (mem_append_left _ hr)]; exact hmid r hr
    · rw [hht q (by simp)]; exact hq

/-- Low nodes in front of the rest are passed over, and the span counts them. -/
theorem linkAt_append_low (hc : ∀ r ∈ c, ht r ≤ i) (hf : fwd p i = fwd' q i)
    (hs : fwd p i ≠ none → span p i = span' q i + c.length) :
    LinkAt ht fwd span i p (c ++ rest) ↔ LinkAt ht fwd' span' i q rest := by
  constructor
  · rintro (⟨h1, h2⟩ | ⟨mid, x, rest', hr, hmid, hx, h1, h2⟩)
    · exact .inl ⟨hf.symm.trans h1, fun r hr => h2 r (mem_append_right _ hr)⟩
    · obtain ⟨b', rfl, rfl⟩ := exists_append_of_notMem hr.symm hx hc
      refine .inr ⟨b', x, rest', rfl, fun r hr => hmid r (mem_append_right _ hr), hx,
        hf.symm.trans h1, ?_⟩
      rw [← add_left_inj (c.length : W), ← hs (by rw [h1]; simp), h2, length_append]
      push_cast
      abel
  · rintro (⟨h1, h2⟩ | ⟨mid, x, rest', rfl, hmid, hx, h1, h2⟩)
    · exact .inl ⟨hf.trans h1, fun r hr => (mem_append.1 hr).elim (hc r) (h2 r)⟩
    · refine .inr ⟨c ++ mid, x, rest', (append_assoc _ _ _).symm,
        fun r hr => (mem_append.1 hr).elim (hc r) (hmid r), hx, hf.trans h1, ?_⟩
      rw [hs (by rw [hf, h1]; simp), h2, length_append]
      push_cast
      abel

/-- What comes after a high node makes no difference. -/
theorem LinkAt.append_high (h : LinkAt ht fwd span i p (c ++ rest)) (hc : ∃ r ∈ c, i < ht r) :
    LinkAt ht fwd span i p (c ++ rest') := by
  rcases h with ⟨-, h2⟩ | ⟨mid, x, rest₁, hr, hmid, hx, h1, h2⟩
  · obtain ⟨r, hr, hri⟩ := hc
    exact absurd (h2 r (mem_append_left _ hr)) (Nat.not_le_of_lt hri)
  · obtain ⟨a', rfl, -⟩ := exists_append_of_mem hr.symm hmid hc
    exact .inr ⟨mid, x, a' ++ rest', by simp, hmid, hx, h1, h2⟩

/-- The heights of other nodes make no difference. -/
theorem Linked.congr_height (h : Linked ht fwd span l) (hht : ∀ p ∈ l, ht' p = ht p) :
    Linked ht' fwd span l := by
  intro pre p rest hl i hi
  rw [hht p (by rw [hl]; simp)] at hi
  exact (h pre p rest hl i hi).congr (fun r hr => hht r (by rw [hl]; simp [hr])) rfl rfl

/-- Only the heights of the nodes count. -/
theorem splits_congr (hht : ∀ p ∈ l, ht' p = ht p) :
    Splits ht' i l p tail ↔ Splits ht i l p tail := by
  refine and_congr_right fun ⟨pre, hpre⟩ => and_congr (by rw [hht p (by rw [hpre]; simp)])
    (forall₂_congr fun r hr => by rw [hht r (by rw [hpre]; simp [hr])])

/-- A node of the second part is not the last high one of the first. -/
theorem not_splits_of_mem (hnd : (a ++ b).Nodup) (hp : p ∈ b) (tail : List P) :
    ¬Splits ht i a p tail := by
  rintro ⟨⟨c, rfl⟩, -, -⟩
  exact (nodup_append.1 hnd).2.2 p (by simp) p hp rfl

/-- **Insertion.** A node `n` of height `lvl` enters the sequence between `before` and `after`. At
each level the last node of `before` that is high enough is linked to `n` if `n` is high enough
too, and its span is counted up by one otherwise; `n` takes over its link. All other links stay. -/
theorem Linked.insert {before after : List P} {n : P} {lvl : ℕ}
    (h : Linked ht fwd span (before ++ after))
    (hht : ∀ p ∈ before ++ after, ht' p = ht p) (hn : ht' n = lvl)
    (hnd : (before ++ after).Nodup)
    (hkeep : ∀ i, ∀ p ∈ before ++ after, i < ht p → (∀ tail, ¬Splits ht i before p tail) →
      fwd' p i = fwd p i ∧ span' p i = span p i)
    (hlow : ∀ i p tail, Splits ht i before p tail → i < lvl →
      fwd' p i = some n ∧ span' p i = ((tail.length + 1 : ℕ) : W) ∧
        fwd' n i = fwd p i ∧ (fwd p i ≠ none → span' n i = span p i - (tail.length : W)))
    (hhigh : ∀ i p tail, Splits ht i before p tail → lvl ≤ i →
      fwd' p i = fwd p i ∧ (fwd p i ≠ none → span' p i = span p i + 1))
    (htop : ∀ i < lvl, ∃ p tail, Splits ht i before p tail) :
    Linked ht' fwd' span' (before ++ n :: after) := by
  have h' := h.congr_height hht
  have hbefore : ∀ r ∈ before, ht' r = ht r := fun r hr => hht r (mem_append_left _ hr)
  simp only [← splits_congr hbefore] at hkeep hlow hhigh htop
  intro pre p rest hl i hi
  rcases mem_split_append hl with ⟨c, hc, -⟩ | ⟨c, hc, rfl⟩
  · cases c with
    | nil =>
      -- The new node takes over the link of the last high node before it.
      rw [nil_append, List.cons.injEq] at hc
      obtain ⟨rfl, rfl⟩ := hc
      rw [hn] at hi
      obtain ⟨u, tail, hu⟩ := htop i hi
      obtain ⟨-, -, hf, hs⟩ := hlow i u tail hu hi
      obtain ⟨⟨a, ha⟩, hui, htail⟩ := hu
      refine (linkAt_append_low htail hf.symm fun hne => ?_).1
        (h' a u (tail ++ after) (by rw [ha]; simp) i hui)
      rw [hs hne, sub_add_cancel]
    | cons x c =>
      -- A node after the new one keeps its links.
      rw [cons_append, List.cons.injEq] at hc
      have hp : p ∈ after := by rw [hc.2]; simp
      obtain ⟨hf, hs⟩ := hkeep i p (mem_append_right _ hp)
        (hht p (mem_append_right _ hp) ▸ hi) (not_splits_of_mem hnd hp)
      exact (h' (before ++ c) p rest (by rw [hc.2]; simp) i hi).congr (fun _ _ => rfl) hf hs
  · -- A node before the new one, which is the last high one or not.
    have hlink := h' pre p (c ++ after) (by rw [hc]; simp) i hi
    rcases splits_or_exists ht' i (nodup_append.1 hnd).1 hc hi with hu | ⟨htall, hnone⟩
    · rcases lt_or_ge i lvl with hlt | hge
      · obtain ⟨hf, hs, -, -⟩ := hlow i p c hu hlt
        exact .inr ⟨c, n, after, rfl, hu.2.2, hn ▸ hlt, hf, hs⟩
      · obtain ⟨hf, hs⟩ := hhigh i p c hu hge
        have hcn : ∀ r ∈ c ++ [n], ht' r ≤ i := by
          simpa [or_imp, forall_and, hn, hge] using hu.2.2
        have hrest : LinkAt ht' fwd (fun q j => span q j - c.length) i p after :=
          (linkAt_append_low hu.2.2 rfl fun _ => (sub_add_cancel _ _).symm).1 hlink
        rw [append_cons c n after]
        refine (linkAt_append_low hcn hf fun hne => ?_).2 hrest
        rw [hs (hf ▸ hne), length_append, length_singleton]
        push_cast
        abel
    · obtain ⟨hf, hs⟩ := hkeep i p (by rw [hc]; simp) (hht p (by rw [hc]; simp) ▸ hi) hnone
      exact (hlink.append_high htall).congr (fun _ _ => rfl) hf hs

/-- **Removal.** The node `n` leaves the sequence between `before` and `after`. At each level the
last high node before `n` takes over the link of `n` if it was linked to `n`, with the sum of the
spans less one, and its span is counted down by one otherwise. All other links stay. -/
theorem Linked.erase {before after : List P} {n : P}
    (h : Linked ht fwd span (before ++ n :: after))
    (hht : ∀ p ∈ before ++ after, ht' p = ht p)
    (hnd : (before ++ after).Nodup)
    (hkeep : ∀ i, ∀ p ∈ before ++ after, i < ht p → (∀ tail, ¬Splits ht i before p tail) →
      fwd' p i = fwd p i ∧ span' p i = span p i)
    (hlow : ∀ i p tail, Splits ht i before p tail → i < ht n →
      fwd' p i = fwd n i ∧ (fwd n i ≠ none → span' p i = span p i + (span n i - 1)))
    (hhigh : ∀ i p tail, Splits ht i before p tail → ht n ≤ i →
      fwd' p i = fwd p i ∧ (fwd p i ≠ none → span' p i = span p i - 1)) :
    Linked ht' fwd' span' (before ++ after) := by
  suffices hsame : Linked ht fwd' span' (before ++ after) from hsame.congr_height hht
  intro pre p rest hl i hi
  rcases mem_split_append hl with ⟨c, hc, -⟩ | ⟨c, hc, rfl⟩
  · -- A node after the removed one keeps its links.
    have hp : p ∈ after := by rw [hc]; simp
    obtain ⟨hf, hs⟩ := hkeep i p (mem_append_right _ hp) hi (not_splits_of_mem hnd hp)
    exact (h (before ++ n :: c) p rest (by rw [hc]; simp) i hi).congr (fun _ _ => rfl) hf hs
  · have hlink := h pre p (c ++ n :: after) (by rw [hc]; simp) i hi
    rcases splits_or_exists ht i (nodup_append.1 hnd).1 hc hi with hu | ⟨htall, hnone⟩
    · rcases lt_or_ge i (ht n) with hlt | hge
      · -- The link led to `n`, and now leads where the link of `n` did.
        obtain ⟨hf, hs⟩ := hlow i p c hu hlt
        have hspan : span p i = c.length + 1 := by
          rcases hlink with ⟨-, h2⟩ | ⟨mid, q, rest', hr, hmid, hq, -, h2⟩
          · have := h2 n (by simp)
            omega
          · obtain ⟨b', rfl, hb⟩ := exists_append_of_notMem hr.symm hq hu.2.2
            cases b' with
            | nil => simpa using h2
            | cons x b' =>
              rw [cons_append, List.cons.injEq] at hb
              have := hmid n (by rw [hb.1]; simp)
              omega
        refine (linkAt_append_low hu.2.2 hf fun hne => ?_).2 (h before n after rfl i hlt)
        rw [hs (hf ▸ hne), hspan]
        abel
      · -- The link led past `n`, or nowhere.
        obtain ⟨hf, hs⟩ := hhigh i p c hu hge
        have hcn : ∀ r ∈ c ++ [n], ht r ≤ i := by
          simpa [or_imp, forall_and, hge] using hu.2.2
        rw [append_cons c n after] at hlink
        have hrest : LinkAt ht fwd (fun q j => span q j - (c ++ [n]).length) i p after :=
          (linkAt_append_low hcn rfl fun _ => (sub_add_cancel _ _).symm).1 hlink
        refine (linkAt_append_low hu.2.2 hf fun hne => ?_).2 hrest
        rw [hs (hf ▸ hne), length_append, length_singleton]
        push_cast
        abel
    · -- There is a high node between `p` and `n`, to which the link leads.
      obtain ⟨hf, hs⟩ := hkeep i p (by rw [hc]; simp) hi hnone
      exact (hlink.append_high htall).congr (fun _ _ => rfl) hf hs

end Update

end TinyRedis.Lib

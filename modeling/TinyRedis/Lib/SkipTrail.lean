import Mathlib.Data.Nat.Init

/-!
# Searches in a skip list

A search goes down the levels, and along each of them as long as the next node passes a test
(`Trail`). Nothing is assumed about the order of the nodes. Where a search ends is determined by the
links (`Trail.unique`), and a new node that is linked in where its own search has ended does not
lead other searches astray: not when it stops them (`Trail.insert_stop`), and not when they pass it
(`Trail.insert_pass`).
-/

namespace TinyRedis.Lib

variable {P : Type*} {fwd fwd' : P → ℕ → Option P} {pass passN L : P → Prop} {i n : ℕ} {x y z : P}
  {u : ℕ → P}

/-- Along level `i`, over nodes that pass. -/
inductive Along (fwd : P → ℕ → Option P) (pass : P → Prop) (i : ℕ) : P → P → Prop
  | refl (x : P) : Along fwd pass i x x
  | step {x y z : P} (hlink : fwd x i = some y) (hpass : pass y) (h : Along fwd pass i y z) :
    Along fwd pass i x z

/-- A search over the levels below `n`: `u n` is where it starts, and `u i` is where it leaves level
`i`. -/
structure Trail (fwd : P → ℕ → Option P) (pass : P → Prop) (n : ℕ) (u : ℕ → P) : Prop where
  along : ∀ i < n, Along fwd pass i (u (i + 1)) (u i)
  stop : ∀ i < n, ∀ y, fwd (u i) i = some y → ¬pass y

/-- One walk after another. -/
theorem Along.trans (h : Along fwd pass i x y) (h' : Along fwd pass i y z) :
    Along fwd pass i x z := by
  induction h with
  | refl => exact h'
  | step hlink hpass _ ih => exact .step hlink hpass (ih h')

/-- A walk stays, or takes a step. -/
theorem Along.eq_or_step (h : Along fwd pass i x z) :
    x = z ∨ ∃ y, fwd x i = some y ∧ pass y ∧ Along fwd pass i y z := by
  cases h with
  | refl => exact .inl rfl
  | step hlink hpass h => exact .inr ⟨_, hlink, hpass, h⟩

/-- Two ways along one level do not part before one of them ends. -/
theorem Along.through (h : Along fwd pass i x y) (h' : Along fwd pass i x z)
    (hstop : ∀ w, fwd z i = some w → ¬pass w) : Along fwd pass i y z := by
  induction h with
  | refl => exact h'
  | step hlink hpass _ ih =>
    cases h' with
    | refl => exact absurd hpass (hstop _ hlink)
    | step hlink' _ h' =>
      rw [hlink] at hlink'
      cases hlink'
      exact ih h'

/-- A walk that passes more. -/
theorem Along.mono (h : Along fwd passN i x y) (himp : ∀ w, passN w → pass w) :
    Along fwd pass i x y := by
  induction h with
  | refl => exact .refl _
  | step hlink hpass _ ih => exact .step hlink (himp _ hpass) ih

/-- A search that has ended at a level does not go on there. -/
theorem Along.eq_of_stop (h : Along fwd pass i x y) (hstop : ∀ w, fwd x i = some w → ¬pass w) :
    x = y := by
  cases h with
  | refl => rfl
  | step hlink hpass _ => exact absurd hpass (hstop _ hlink)

/-- A search ends at one place only. -/
theorem Trail.unique {v : ℕ → P} (hu : Trail fwd pass n u) (hv : Trail fwd pass n v)
    (hstart : u n = v n) : ∀ i ≤ n, u i = v i := by
  have hdown : ∀ k ≤ n, u (n - k) = v (n - k) := by
    intro k
    induction k with
    | zero => exact fun _ => hstart
    | succ k ih =>
      intro hk
      have hlt : n - (k + 1) < n := by omega
      have hsucc : n - (k + 1) + 1 = n - k := by omega
      have hau := hu.along _ hlt
      have hav := hv.along _ hlt
      rw [hsucc, ih (by omega)] at hau
      rw [hsucc] at hav
      exact (hau.through hav (hv.stop _ hlt)).eq_of_stop (hu.stop _ hlt)
  intro i hi
  have h := hdown (n - i) (by omega)
  rwa [Nat.sub_sub_self hi] at h

/-- Searches stay among the nodes of a set that no link leaves. -/
theorem Trail.mem (hu : Trail fwd pass n u) (hclosed : ∀ p i q, L p → fwd p i = some q → L q)
    (hstart : L (u n)) : ∀ i ≤ n, L (u i) := by
  have halong : ∀ {i x y}, Along fwd pass i x y → L x → L y := by
    intro i x y h
    induction h with
    | refl => exact id
    | step hlink _ _ ih => exact fun hx => ih (hclosed _ _ _ hx hlink)
  have hdown : ∀ k ≤ n, L (u (n - k)) := by
    intro k
    induction k with
    | zero => exact fun _ => hstart
    | succ k ih =>
      intro hk
      have hstep := hu.along (n - (k + 1)) (by omega)
      rw [show n - (k + 1) + 1 = n - k by omega] at hstep
      exact halong hstep (ih (by omega))
  intro i hi
  have h := hdown (n - i) (by omega)
  rwa [Nat.sub_sub_self hi] at h

/-- Only the tests on the way matter. -/
theorem Trail.congr (hu : Trail fwd pass n u) (hclosed : ∀ p i q, L p → fwd p i = some q → L q)
    (hstart : L (u n)) {pass' : P → Prop} (hpass : ∀ w, L w → (pass' w ↔ pass w)) :
    Trail fwd pass' n u := by
  have hmem := hu.mem hclosed hstart
  have halong : ∀ {i x y}, Along fwd pass i x y → L x → Along fwd pass' i x y := by
    intro i x y h
    induction h with
    | refl => exact fun _ => .refl _
    | step hlink hp _ ih =>
      intro hx
      have hy := hclosed _ _ _ hx hlink
      exact .step hlink ((hpass _ hy).2 hp) (ih hy)
  constructor
  · intro i hi
    exact halong (hu.along i hi) (hmem (i + 1) hi)
  · intro i hi y hy hp
    have hL := hclosed _ _ _ (hmem i (Nat.le_of_lt hi)) hy
    exact hu.stop i hi y hy ((hpass y hL).1 hp)

/-! ## A new node -/

section Insert

/-- A node `c` of height `h` is linked in behind the nodes `v i`. `L` are the nodes that were there
before. -/
structure LinkedIn (fwd fwd' : P → ℕ → Option P) (L : P → Prop) (v : ℕ → P) (h : ℕ) (c : P) :
    Prop where
  closed : ∀ p i q, L p → fwd p i = some q → L q
  new : ¬L c
  link : ∀ i < h, fwd' (v i) i = some c ∧ fwd' c i = fwd (v i) i
  keep : ∀ p i, L p → ¬(p = v i ∧ i < h) → fwd' p i = fwd p i

variable {L : P → Prop} {u v : ℕ → P} {h : ℕ} {c : P}

/-- A search that the new node stops, and that goes no further than the search for the new node,
goes the same way as before. -/
theorem Trail.insert_stop (hin : LinkedIn fwd fwd' L v h c) (hu : Trail fwd pass n u)
    (hstart : L (u n)) (hv : Trail fwd passN n v) (hpass : ∀ w, L w → pass w → passN w)
    (hc : ¬pass c) : Trail fwd' pass n u := by
  have hmem := hu.mem hin.closed hstart
  have halong : ∀ {i x y}, i < n → Along fwd pass i x y → L x → Along fwd' pass i x y := by
    intro i x y hi ha
    induction ha with
    | refl => exact fun _ => .refl _
    | @step x y z hlink hp _ ih =>
      intro hx
      have hy := hin.closed _ _ _ hx hlink
      refine .step ?_ hp (ih hy)
      rw [hin.keep x i hx, hlink]
      -- The search for the new node would not have ended at `x`.
      rintro ⟨rfl, -⟩
      exact absurd (hpass y hy hp) (hv.stop i hi y hlink)
  constructor
  · intro i hi
    exact halong hi (hu.along i hi) (hmem (i + 1) hi)
  · intro i hi y hy hp
    by_cases hlow : u i = v i ∧ i < h
    · rw [hlow.1, (hin.link i hlow.2).1, Option.some.injEq] at hy
      exact hc (hy ▸ hp)
    · rw [hin.keep (u i) i (hmem i (Nat.le_of_lt hi)) hlow] at hy
      exact hu.stop i hi y hy hp

/-- A search that passes the new node, and that goes at least as far as the search for the new node,
goes on from the new node where that search had ended. -/
theorem Trail.insert_pass (hin : LinkedIn fwd fwd' L v h c) (hu : Trail fwd pass n u)
    (hstart : L (u n)) (hv : Trail fwd passN n v) (hsame : u n = v n)
    (hpass : ∀ w, passN w → pass w) (hc : pass c) (hn : h ≤ n) :
    ∃ u', Trail fwd' pass n u' ∧ u' n = u n ∧
      ∀ i < n, (u i = v i ∧ i < h → u' i = c) ∧ (¬(u i = v i ∧ i < h) → u' i = u i) := by
  classical
  have hmem := hu.mem hin.closed hstart
  -- A way along a level is still there, over the new node if it comes by its place.
  have halong : ∀ {i x y}, Along fwd pass i x y → L x → Along fwd' pass i x y := by
    intro i x y ha
    induction ha with
    | refl => exact fun _ => .refl _
    | @step x y z hlink hp _ ih =>
      intro hx
      have hy := hin.closed _ _ _ hx hlink
      by_cases hlow : x = v i ∧ i < h
      · obtain ⟨rfl, hlt⟩ := hlow
        obtain ⟨h1, h2⟩ := hin.link i hlt
        exact .step h1 hc (.step (h2.trans hlink) hp (ih hy))
      · refine .step ?_ hp (ih hy)
        rw [hin.keep x i hx hlow, hlink]
  refine ⟨fun i => if u i = v i ∧ i < h then c else u i, ⟨?_, ?_⟩, ?_, ?_⟩
  · intro i hi
    have hold := halong (hu.along i hi) (hmem (i + 1) hi)
    by_cases hnext : u (i + 1) = v (i + 1) ∧ i + 1 < h
    · -- The search now starts at the new node, and the one for it had passed here too.
      have hlt : i < h := by omega
      obtain ⟨h1, h2⟩ := hin.link i hlt
      have hthrough : Along fwd pass i (v i) (u i) := by
        have hN := (hv.along i hi).mono hpass
        rw [← hnext.1] at hN
        exact hN.through (hu.along i hi) (hu.stop i hi)
      rw [if_pos hnext]
      by_cases hhere : u i = v i
      · rw [if_pos ⟨hhere, hlt⟩]
        exact .refl _
      · rw [if_neg fun hc => hhere hc.1]
        rcases hthrough.eq_or_step with he | ⟨y, hlink, hp, ha⟩
        · exact absurd he.symm hhere
        · refine .step (h2.trans hlink) hp (halong ha ?_)
          have hv' := hv.mem hin.closed (hsame ▸ hstart) i (Nat.le_of_lt hi)
          exact hin.closed _ _ _ hv' hlink
    · rw [if_neg hnext]
      by_cases hhere : u i = v i ∧ i < h
      · rw [if_pos hhere]
        obtain ⟨h1, -⟩ := hin.link i hhere.2
        rw [hhere.1] at hold
        exact hold.trans (.step h1 hc (.refl _))
      · rw [if_neg hhere]
        exact hold
  · intro i hi y hy
    by_cases hhere : u i = v i ∧ i < h
    · rw [if_pos hhere, (hin.link i hhere.2).2, ← hhere.1] at hy
      exact hu.stop i hi y hy
    · rw [if_neg hhere, hin.keep (u i) i (hmem i (Nat.le_of_lt hi)) hhere] at hy
      exact hu.stop i hi y hy
  · dsimp only
    rw [if_neg fun hc => by omega]
  · intro i _
    exact ⟨fun h => if_pos h, fun h => if_neg h⟩

end Insert

end TinyRedis.Lib

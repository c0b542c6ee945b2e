import Mathlib.Data.Nat.Notation

/-!
# Processes

A process goes from state to state by a step that may fail. `run` is what it comes to after some
steps, and `meets` tests every state from which it takes a step. What every step keeps under the
test holds after any number of steps (`run_keeps`), and a failure that no step meets is not met at
all (`run_ne_error`).
-/

namespace TinyRedis.Lib.Process

variable {σ ε : Type}

/-- The state after `n` steps. -/
def run (step : σ → Except ε σ) : ℕ → σ → Except ε σ
  | 0, s => .ok s
  | n + 1, s => step s >>= run step n

/-- Each state from which one of the first `n` steps is taken passes the test `K`. -/
def meets (step : σ → Except ε σ) (K : σ → Bool) : ℕ → σ → Bool
  | 0, _ => true
  | n + 1, s =>
    K s &&
      match step s with
      | .ok s => meets step K n s
      | .error _ => true

variable {step : σ → Except ε σ} {K : σ → Bool} {I : σ → Prop} {n : ℕ} {s s' : σ}

/-- What every step keeps, every run keeps. -/
theorem run_keeps (hstep : ∀ s s', I s → K s = true → step s = .ok s' → I s') (hs : I s)
    (hmeets : meets step K n s = true) (hrun : run step n s = .ok s') : I s' := by
  induction n generalizing s with
  | zero =>
    cases hrun
    exact hs
  | succ n ih =>
    unfold run at hrun
    unfold meets at hmeets
    rw [Bool.and_eq_true] at hmeets
    cases hone : step s with
    | error e =>
      rw [hone] at hrun
      cases hrun
    | ok s₁ =>
      rw [hone] at hrun hmeets
      exact ih (hstep s s₁ hs hmeets.1 hone) hmeets.2 hrun

/-- A failure that no step meets, no run meets. -/
theorem run_ne_error {e : ε} (hstep : ∀ s s', I s → K s = true → step s = .ok s' → I s')
    (hsafe : ∀ s, I s → K s = true → step s ≠ .error e) (hs : I s)
    (hmeets : meets step K n s = true) : run step n s ≠ .error e := by
  induction n generalizing s with
  | zero => exact fun h => by cases h
  | succ n ih =>
    unfold run
    unfold meets at hmeets
    rw [Bool.and_eq_true] at hmeets
    have hfirst := hsafe s hs hmeets.1
    cases hone : step s with
    | error e' =>
      intro hc
      cases hc
      exact hfirst hone
    | ok s₁ =>
      rw [hone] at hmeets
      exact ih (hstep s s₁ hs hmeets.1 hone) hmeets.2

/-- A run that passes two tests passes both at once. -/
theorem meets_and {K' : σ → Bool} (h : meets step K n s = true) (h' : meets step K' n s = true) :
    meets step (fun s => K s && K' s) n s = true := by
  induction n generalizing s with
  | zero => rfl
  | succ n ih =>
    unfold meets at h h' ⊢
    rw [Bool.and_eq_true] at h h'
    rw [h.1, h'.1]
    cases hone : step s with
    | error e => rfl
    | ok s₁ =>
      rw [hone] at h h'
      exact ih h.2 h'.2

/-- Every run passes a test that is always passed. -/
theorem meets_true (n : ℕ) (s : σ) : meets step (fun _ => true) n s = true := by
  induction n generalizing s with
  | zero => rfl
  | succ n ih =>
    unfold meets
    cases step s with
    | error e => rfl
    | ok s₁ => exact ih s₁

end TinyRedis.Lib.Process

import Mathlib.Logic.Basic

/-!
# Programs that keep an invariant

A program over a state may end with an error. `Triple pre E m post` says that from every state with
`pre`, the program `m` ends with a value and a state that `post` relates, or with an error that `E`
allows. `Safe I E m P` is the case of an invariant: `m` ends in a state with `I` again, and returns
a value with the property `P`. What a program is put together from, the proof that it is safe is put
together from in the same way.
-/

namespace TinyRedis.Lib

variable {σ ε α β : Type} {I pre' : σ → Prop} {E : ε → Prop} {s : σ} {a : α} {c : Prop}

/-- From `pre`, the program ends with `post`, or with an error that `E` allows. -/
@[irreducible]
def Triple (pre : σ → Prop) (E : ε → Prop) (m : StateT σ (Except ε) α) (post : α → σ → Prop) :
    Prop :=
  ∀ s, pre s → match m s with
    | .ok (a, s') => post a s'
    | .error e => E e

namespace Triple

variable {pre : σ → Prop} {m m' : StateT σ (Except ε) α} {post : α → σ → Prop}
  {f : α → StateT σ (Except ε) β} {last : β → σ → Prop} {post' : α → σ → Prop}

/-- The definition, as a rule. -/
theorem intro (h : ∀ s, pre s → match m s with
    | .ok (a, s') => post a s'
    | .error e => E e) : Triple pre E m post := by
  unfold Triple
  exact h

/-- The outcome of a program. -/
theorem outcome (hm : Triple pre E m post) (hs : pre s) : match m s with
    | .ok (a, s') => post a s'
    | .error e => E e := by
  unfold Triple at hm
  exact hm s hs

/-- What holds when the program returns. -/
theorem of_ok (hm : Triple pre E m post) {s' : σ} (hs : pre s) (hr : m s = .ok (a, s')) :
    post a s' := by
  have h := hm.outcome hs
  rw [hr] at h
  exact h

/-- What holds when it fails. -/
theorem of_error (hm : Triple pre E m post) {e : ε} (hs : pre s) (hr : m s = .error e) : E e := by
  have h := hm.outcome hs
  rw [hr] at h
  exact h

/-- One program after another. -/
theorem bind (hm : Triple pre E m post) (hf : ∀ a, Triple (post a) E (f a) last) :
    Triple pre E (m >>= f) last := by
  refine intro fun s hs => ?_
  show match (m s >>= fun p => f p.1 p.2) with
    | .ok (b, s') => last b s'
    | .error e => E e
  cases hr : m s with
  | error e => exact hm.of_error hs hr
  | ok r => exact (hf r.1).outcome (hm.of_ok hs hr)

/-- The rule of consequence. -/
theorem imp (hm : Triple pre E m post) (hpre : ∀ s, pre' s → pre s)
    (hpost : ∀ a s, post a s → post' a s) : Triple pre' E m post' := by
  refine intro fun s hs => ?_
  cases hr : m s with
  | error e => exact hm.of_error (hpre s hs) hr
  | ok r => exact hpost _ _ (hm.of_ok (hpre s hs) hr)

/-- A stronger precondition. -/
theorem weaken (hm : Triple pre E m post) (hpre : ∀ s, pre' s → pre s) : Triple pre' E m post :=
  hm.imp hpre fun _ _ hs => hs

/-- A weaker postcondition. -/
theorem relax (hm : Triple pre E m post) (hpost : ∀ a s, post a s → post' a s) :
    Triple pre E m post' :=
  hm.imp (fun _ hs => hs) hpost

/-- The states of the precondition one by one. -/
theorem of_each (hm : ∀ s, pre s → Triple (fun t => t = s) E m post) : Triple pre E m post :=
  intro fun s hs => (hm s hs).outcome rfl

/-- Two properties of the outcome. -/
theorem and (hm : Triple pre E m post) (hm' : Triple pre E m post') :
    Triple pre E m fun a s => post a s ∧ post' a s := by
  refine intro fun s hs => ?_
  cases hr : m s with
  | error e => exact hm.of_error hs hr
  | ok r => exact ⟨hm.of_ok hs hr, hm'.of_ok hs hr⟩

/-- A case split. -/
theorem ite [Decidable c] (ht : c → Triple pre E m post) (he : ¬c → Triple pre E m' post) :
    Triple pre E (if c then m else m') post := by
  by_cases hc : c
  · rw [if_pos hc]
    exact ht hc
  · rw [if_neg hc]
    exact he hc

end Triple

/-- `m` keeps `I` and returns a value with `P`, or ends with an error that `E` allows. -/
@[irreducible]
def Safe (I : σ → Prop) (E : ε → Prop) (m : StateT σ (Except ε) α) (P : α → Prop) : Prop :=
  Triple I E m fun a s => I s ∧ P a

namespace Safe

variable {m : StateT σ (Except ε) α} {f : α → StateT σ (Except ε) β} {P : α → Prop} {Q : β → Prop}

/-- A safe program as a triple. -/
theorem triple (hm : Safe I E m P) : Triple I E m fun a s => I s ∧ P a := by
  unfold Safe at hm
  exact hm

/-- A triple as a safe program. -/
theorem of_triple (hm : Triple I E m fun a s => I s ∧ P a) : Safe I E m P := by
  unfold Safe
  exact hm

/-- The same for an invariant. -/
theorem intro (h : ∀ s, I s → match m s with
    | .ok (a, s') => I s' ∧ P a
    | .error e => E e) : Safe I E m P :=
  of_triple (.intro h)

/-- A value is returned. -/
theorem pure (h : P a) : Safe I E (Pure.pure a : StateT σ (Except ε) α) P :=
  intro fun _ hs => ⟨hs, h⟩

/-- The rest of a program, after a part that keeps the invariant. -/
theorem triple_bind {post : β → σ → Prop} (hm : Safe I E m P)
    (hf : ∀ a, P a → Triple I E (f a) post) : Triple I E (m >>= f) post :=
  hm.triple.bind fun a => .intro fun _ hs => (hf a hs.2).outcome hs.1

/-- The rest is safe as well. -/
theorem bind (hm : Safe I E m P) (hf : ∀ a, P a → Safe I E (f a) Q) : Safe I E (m >>= f) Q :=
  of_triple (hm.triple_bind fun a ha => (hf a ha).triple)

/-- A case split. -/
theorem ite [Decidable c] {m' : StateT σ (Except ε) α} (ht : c → Safe I E m P)
    (he : ¬c → Safe I E m' P) : Safe I E (if c then m else m') P :=
  of_triple (.ite (fun hc => (ht hc).triple) fun hc => (he hc).triple)

/-- A write to the state. -/
theorem modify {g : σ → σ} (h : ∀ s, I s → I (g s)) :
    Safe I E (modify g : StateT σ (Except ε) Unit) fun _ => True :=
  intro fun s hs => ⟨h s hs, trivial⟩

end Safe

end TinyRedis.Lib

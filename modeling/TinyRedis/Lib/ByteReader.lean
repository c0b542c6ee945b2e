import Mathlib.Data.List.Basic

/-!
# Reading what was written

A writer appends to an output (`Appends`), so that a loop of writes appends the encodings one after
another.

A reader is a state monad whose state still has some input ahead, or has failed (`view`). `Reads`
says that a reader takes exactly `bs` from the input, wherever it stands, and returns a value with a
property. What a reader is put together from, its input is put together from in the same way.

`Takes` is for the way back, from any input: how a reader can end, and what it has taken from the
input if it has not failed.
-/

namespace TinyRedis.Lib.ByteReader

open List

variable {β S ε α γ : Type} {view : S → Option (List β)} {a c : α} {m : StateT S (Except ε) α}
  {P : α → Prop} {f : α → StateT S (Except ε) γ} {R : List β → α → Prop} {bs : List β}
  {Q : γ → Prop} {X : Type} {xs : List X} {step : X → α → α → Prop}

/-! ## Writing -/

/-- What is written does not depend on what was written before. -/
def Appends (f : List β → α → List β) : Prop := ∀ out a, f out a = out ++ f [] a

/-- Two writers, one after the other. -/
theorem Appends.comp {f : List β → α → List β} {g : List β → γ → List β} (hf : Appends f)
    (hg : Appends g) (p : X → α) (q : X → γ) : Appends fun out x => g (f out (p x)) (q x) := by
  intro out x
  show g (f out (p x)) (q x) = out ++ g (f [] (p x)) (q x)
  rw [hg, hf out, hg (f [] (p x)), append_assoc]

/-- A loop of writes. -/
theorem foldl_appends {f : List β → α → List β} (hf : Appends f) (l : List α) (out : List β) :
    l.foldl f out = out ++ l.flatMap (f []) := by
  induction l generalizing out with
  | nil => simp
  | cons a l ih => rw [foldl_cons, ih, hf out a, flatMap_cons, append_assoc]

/-! ## Reading -/

/-- The reader `m` takes `bs` from the input and returns a value with the property `P`. -/
def Reads (view : S → Option (List β)) (m : StateT S (Except ε) α) (bs : List β) (P : α → Prop) :
    Prop :=
  ∀ s rest, view s = some (bs ++ rest) → ∃ a s', m s = .ok (a, s') ∧ P a ∧ view s' = some rest

/-- Nothing is read. -/
theorem Reads.pure (h : P a) : Reads view (Pure.pure a : StateT S (Except ε) α) [] P :=
  fun s _ hs => ⟨a, s, rfl, h, hs⟩

/-- Two readers, one after the other. -/
theorem Reads.bind {cs : List β} (hm : Reads view m bs P) (hf : ∀ a, P a → Reads view (f a) cs Q) :
    Reads view (m >>= f) (bs ++ cs) Q := by
  intro s rest hs
  rw [append_assoc] at hs
  obtain ⟨a, s₁, h1, ha, hs₁⟩ := hm s (cs ++ rest) hs
  obtain ⟨c, s₂, h2, hc, hs₂⟩ := hf a ha s₁ rest hs₁
  refine ⟨c, s₂, ?_, hc, hs₂⟩
  show (m s >>= fun p => f p.1 p.2) = _
  rw [h1]
  exact h2

/-- A weaker property. -/
theorem Reads.imp {Q : α → Prop} (hm : Reads view m bs P) (h : ∀ a, P a → Q a) :
    Reads view m bs Q := by
  intro s rest hs
  obtain ⟨a, s', h1, h2, h3⟩ := hm s rest hs
  exact ⟨a, s', h1, h a h2, h3⟩

/-- A reader that takes nothing may look at the state. -/
theorem Reads.bind_nil {cs : List β} (hm : Reads view m [] P)
    (hf : ∀ a, P a → Reads view (f a) cs Q) : Reads view (m >>= f) cs Q :=
  hm.bind hf

/-- What comes after the last reader takes nothing. -/
theorem Reads.bind_last (hm : Reads view m bs P) (hf : ∀ a, P a → Reads view (f a) [] Q) :
    Reads view (m >>= f) bs Q := by
  have h := hm.bind hf
  rwa [append_nil] at h

/-- What a list of steps makes of a value. -/
def Steps {X : Type} (step : X → α → α → Prop) : List X → α → α → Prop
  | [], a, b => a = b
  | x :: xs, a, c => ∃ b, step x a b ∧ Steps step xs b c

/-- Steps that are a function. -/
theorem steps_eq_foldl {f : α → X → α} :
    Steps (fun x a b => b = f a x) xs a c ↔ c = xs.foldl f a := by
  induction xs generalizing a with
  | nil => exact eq_comm
  | cons x xs ih =>
    constructor
    · rintro ⟨b, rfl, h⟩
      exact ih.1 h
    · intro h
      exact ⟨_, rfl, ih.2 h⟩

/-- First some steps, then others. -/
theorem steps_append {ys : List X} :
    Steps step (xs ++ ys) a c ↔ ∃ b, Steps step xs a b ∧ Steps step ys b c := by
  induction xs generalizing a with
  | nil => exact ⟨fun h => ⟨a, rfl, h⟩, fun ⟨_, hb, h⟩ => hb ▸ h⟩
  | cons x xs ih =>
    constructor
    · rintro ⟨b, hb, h⟩
      obtain ⟨d, hd, h'⟩ := ih.1 h
      exact ⟨d, ⟨b, hb, hd⟩, h'⟩
    · rintro ⟨d, ⟨b, hb, hd⟩, h'⟩
      exact ⟨b, hb, ih.2 ⟨d, hd, h'⟩⟩

/-- What every step keeps. -/
theorem Steps.keeps {I : α → Prop} (h : Steps step xs a c) (ha : I a)
    (hstep : ∀ x ∈ xs, ∀ a b, step x a b → I a → I b) : I c := by
  induction xs generalizing a with
  | nil => exact h ▸ ha
  | cons x xs ih =>
    obtain ⟨b, hb, h⟩ := h
    exact ih h (hstep x mem_cons_self a b hb ha) fun y hy =>
      hstep y (mem_cons_of_mem _ hy)

/-- Steps with other names. -/
theorem steps_map {Y : Type} {f : Y → X} {ys : List Y} :
    Steps step (ys.map f) a c ↔ Steps (fun y => step (f y)) ys a c := by
  induction ys generalizing a with
  | nil => exact Iff.rfl
  | cons y ys ih => exact exists_congr fun b => and_congr_right fun _ => ih

/-- Steps that are lists of steps. -/
theorem steps_flatMap {Y : Type} {f : Y → List X} {ys : List Y} :
    Steps step (ys.flatMap f) a c ↔ Steps (fun y => Steps step (f y)) ys a c := by
  induction ys generalizing a with
  | nil => exact Iff.rfl
  | cons y ys ih =>
    rw [flatMap_cons, steps_append]
    exact exists_congr fun b => and_congr_right fun _ => ih

/-- A loop reads some elements one after another. `I` is kept by its rounds, and says how many more
of them there can be. -/
theorem Reads.loop {loop : ℕ → α → StateT S (Except ε) α} {enc : X → List β} (I : ℕ → α → Prop)
    (hzero : ∀ a, loop 0 a = Pure.pure a) (hsucc : ∀ n x a cs Q, I (n + 1) a →
      (∀ b, step x a b → I n b → Reads view (loop n b) cs Q) →
      Reads view (loop (n + 1) a) (enc x ++ cs) Q) (xs : List X) (a : α) (h : I xs.length a) :
    Reads view (loop xs.length a) (xs.flatMap enc) (Steps step xs a) := by
  induction xs generalizing a with
  | nil =>
    rw [length_nil, hzero]
    exact Reads.pure rfl
  | cons x xs ih =>
    refine hsucc xs.length x a _ _ h fun b hb hI => ?_
    exact (ih b hI).imp fun c hc => ⟨b, hb, hc⟩

/-! ## What was read -/

/-- When the reader `m` ends without having failed, what it has taken from the input is related by
`R` to the value that it returns. -/
def Takes (view : S → Option (List β)) (m : StateT S (Except ε) α) (R : List β → α → Prop) : Prop :=
  ∀ s a s' rest, m s = .ok (a, s') → view s' = some rest →
    ∃ bs, view s = some (bs ++ rest) ∧ R bs a

/-- Nothing is taken. -/
theorem Takes.pure (h : R [] a) : Takes view (Pure.pure a : StateT S (Except ε) α) R := by
  intro s a' s' rest hr hs
  cases hr
  exact ⟨[], hs, h⟩

/-- Two readers, one after the other. -/
theorem Takes.bind {R' : List β → γ → Prop} (hm : Takes view m R)
    (hf : ∀ a, Takes view (f a) fun ys c => ∀ xs, R xs a → R' (xs ++ ys) c) :
    Takes view (m >>= f) R' := by
  intro s c s' rest hr hs
  change (m s >>= fun p => f p.1 p.2) = .ok (c, s') at hr
  cases hm' : m s with
  | error e => rw [hm'] at hr; cases hr
  | ok p =>
    rw [hm'] at hr
    obtain ⟨ys, hys, hR'⟩ := hf p.1 p.2 c s' rest hr hs
    obtain ⟨xs, hxs, hR⟩ := hm s p.1 p.2 _ hm' hys
    exact ⟨xs ++ ys, by rw [hxs, append_assoc], hR' xs hR⟩

/-- A weaker relation. -/
theorem Takes.imp {R' : List β → α → Prop} (hm : Takes view m R) (h : ∀ bs a, R bs a → R' bs a) :
    Takes view m R' := by
  intro s a s' rest hr hs
  obtain ⟨bs, hbs, hR⟩ := hm s a s' rest hr hs
  exact ⟨bs, hbs, h bs a hR⟩

/-- A reader that gives up. -/
theorem Takes.error {e : ε} : Takes view (fun _ => .error e : StateT S (Except ε) α) R :=
  fun _ _ _ _ hr => nomatch hr

/-- A loop of `n` rounds has taken the encodings of `n` elements. -/
theorem Takes.loop {loop : ℕ → α → StateT S (Except ε) α} {enc : X → List β}
    (hzero : ∀ a, loop 0 a = Pure.pure a)
    (hsucc : ∀ n a (R : List β → α → Prop), (∀ b, Takes view (loop n b) fun ys c =>
        ∀ x, step x a b → R (enc x ++ ys) c) → Takes view (loop (n + 1) a) R) (n : ℕ) (a : α) :
    Takes view (loop n a) fun bs c =>
      ∃ xs, xs.length = n ∧ bs = xs.flatMap enc ∧ Steps step xs a c := by
  induction n generalizing a with
  | zero =>
    rw [hzero]
    exact Takes.pure ⟨[], rfl, rfl, rfl⟩
  | succ n ih =>
    refine hsucc n a _ fun b => (ih b).imp ?_
    rintro ys c ⟨xs, hlen, rfl, hxs⟩ x hx
    exact ⟨x :: xs, by rw [length_cons, hlen], rfl, b, hx, hxs⟩

end TinyRedis.Lib.ByteReader

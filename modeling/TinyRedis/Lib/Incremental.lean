import Mathlib.Data.List.Basic

/-!
# Incremental decoding

A decoder takes one item at a time from the head of a buffer, and says when it needs more. A reader
feeds it a stream in chunks (`feed`). When what the decoder says of a buffer still holds after more
input (`Committed`), it does not matter how the stream is cut into chunks (`feedAll_flatten`).
-/

namespace TinyRedis.Lib.Incremental

variable {β α γ ε : Type*} {rest : List β}

/-- What a decoder says of a buffer. -/
inductive Outcome (β α ε : Type*) where
  /-- An item, and the rest of the buffer. -/
  | done (a : α) (rest : List β)
  /-- The buffer ends before the item does. -/
  | incomplete
  /-- The buffer does not start with an item. -/
  | error (e : ε)

namespace Outcome

/-- Go on with the rest of the buffer. -/
def bind : Outcome β α ε → (α → List β → Outcome β γ ε) → Outcome β γ ε
  | done a rest, f => f a rest
  | incomplete, _ => incomplete
  | error e, _ => error e

/-- An item is passed on. -/
@[simp]
theorem bind_done (a : α) (rest : List β) (f : α → List β → Outcome β γ ε) :
    (done a rest).bind f = f a rest := rfl

/-- What is incomplete stays so. -/
@[simp]
theorem bind_incomplete (f : α → List β → Outcome β γ ε) : incomplete.bind f = incomplete := rfl

/-- So does an error. -/
@[simp]
theorem bind_error (e : ε) (f : α → List β → Outcome β γ ε) : (error e).bind f = error e := rfl

/-- Both parts have found an item. -/
theorem bind_eq_done {o : Outcome β α ε} {f : α → List β → Outcome β γ ε} {c : γ} :
    o.bind f = done c rest ↔ ∃ a r, o = done a r ∧ f a r = done c rest := by
  cases o <;> simp

/-- One of the parts has failed. -/
theorem bind_eq_error {o : Outcome β α ε} {f : α → List β → Outcome β γ ε} {e : ε} :
    o.bind f = error e ↔ o = error e ∨ ∃ a r, o = done a r ∧ f a r = error e := by
  cases o <;> simp

/-- `o'` is what `o` comes to with more input. -/
def Extends (more : List β) (o o' : Outcome β α ε) : Prop :=
  match o with
  | done a rest => o' = done a (rest ++ more)
  | incomplete => True
  | error e => o' = error e

/-- More input to the first part, and to the second. -/
theorem Extends.bind {more : List β} {o o' : Outcome β α ε} {f : α → List β → Outcome β γ ε}
    (h : Extends more o o')
    (hf : ∀ a rest, o = done a rest → Extends more (f a rest) (f a (rest ++ more))) :
    Extends more (o.bind f) (o'.bind f) := by
  cases o with
  | done a rest =>
    have ho : o' = done a (rest ++ more) := h
    rw [ho]
    exact hf a rest rfl
  | incomplete => trivial
  | error e =>
    have ho : o' = error e := h
    rw [ho]
    rfl

end Outcome

variable (dec : List β → Outcome β α ε)

/-- Decode items from a buffer as long as there are any: the items, the rest of the buffer, and the
error if there is one. -/
def drain : ℕ → List β → List α × List β × Option ε
  | 0, buf => ([], buf, none)
  | fuel + 1, buf =>
    match dec buf with
    | .done a rest => (a :: (drain fuel rest).1, (drain fuel rest).2)
    | .incomplete => ([], buf, none)
    | .error e => ([], buf, some e)

/-- The items of a whole buffer: no more than it is long. -/
def drainAll (buf : List β) : List α × List β × Option ε := drain dec (buf.length + 1) buf

/-- Feed one chunk to a reader, which has a rest of the buffer or an error. -/
def feed (s : List β × Option ε) (chunk : List β) : List α × List β × Option ε :=
  match s.2 with
  | some e => ([], s.1, some e)
  | none => drainAll dec (s.1 ++ chunk)

/-- Feed some chunks, one after another. -/
def feedAll : List (List β) → List β × Option ε → List α × List β × Option ε
  | [], s => ([], s)
  | chunk :: chunks, s =>
    let r := feed dec s chunk
    let rs := feedAll chunks r.2
    (r.1 ++ rs.1, rs.2)

/-- Items are not empty. -/
def Shrinks : Prop := ∀ buf a rest, dec buf = .done a rest → rest.length < buf.length

/-- What the decoder says of a part of a stream is right for the whole, if the stream is `ok`, and
so is what is left of it. -/
structure Committed (ok : List β → Prop) : Prop where
  shrinks : Shrinks dec
  extends_more : ∀ buf more, ok (buf ++ more) → (dec buf).Extends more (dec (buf ++ more))
  ok_rest : ∀ buf a rest, ok buf → dec buf = .done a rest → ok rest

variable {dec} {ok : List β → Prop} {buf : List β}

/-- More fuel than the buffer is long makes no difference. -/
theorem drain_fuel (h : Shrinks dec) {n m : ℕ} (hn : buf.length < n) (hm : buf.length < m) :
    drain dec n buf = drain dec m buf := by
  induction n generalizing m buf with
  | zero => omega
  | succ n ih =>
    cases m with
    | zero => omega
    | succ m =>
      unfold drain
      cases hd : dec buf with
      | done a rest =>
        have hlt := h buf a rest hd
        simp only [ih (m := m) (show rest.length < n by omega) (by omega)]
      | incomplete => rfl
      | error e => rfl

/-- An item is taken. -/
theorem drainAll_done (h : Shrinks dec) {a : α} (hd : dec buf = .done a rest) :
    drainAll dec buf = (a :: (drainAll dec rest).1, (drainAll dec rest).2) := by
  have hlt := h buf a rest hd
  unfold drainAll
  rw [drain, hd]
  simp only [drain_fuel h (show rest.length < buf.length by omega)
    (show rest.length < rest.length + 1 by omega)]

/-- No item is there yet. -/
theorem drainAll_incomplete (hd : dec buf = .incomplete) : drainAll dec buf = ([], buf, none) := by
  unfold drainAll
  rw [drain, hd]

/-- The next item is an error. -/
theorem drainAll_error {e : ε} (hd : dec buf = .error e) :
    drainAll dec buf = ([], buf, some e) := by
  unfold drainAll
  rw [drain, hd]

/-- What is left without an error is the beginning of an item. -/
theorem drainAll_rest (h : Shrinks dec) {as : List α} (hd : drainAll dec buf = (as, rest, none)) :
    dec rest = .incomplete := by
  induction hn : buf.length using Nat.strongRecOn generalizing buf as with
  | ind n ih =>
    cases hdec : dec buf with
    | done a buf' =>
      have hlt := h buf a buf' hdec
      rw [drainAll_done h hdec, Prod.mk.injEq] at hd
      exact ih buf'.length (by omega) (Prod.ext rfl hd.2) rfl
    | incomplete =>
      rw [drainAll_incomplete hdec, Prod.mk.injEq, Prod.mk.injEq] at hd
      rw [← hd.2.1, hdec]
    | error e =>
      rw [drainAll_error hdec, Prod.mk.injEq, Prod.mk.injEq] at hd
      exact absurd hd.2.2 (by simp)

/-- Decoding a buffer and then going on with more input is decoding them together. -/
theorem drainAll_append (h : Committed dec ok) (buf more : List β) (hok : ok (buf ++ more)) :
    (∃ as rest e, drainAll dec buf = (as, rest, some e) ∧
      drainAll dec (buf ++ more) = (as, rest ++ more, some e)) ∨
    (∃ as rest, drainAll dec buf = (as, rest, none) ∧ ok (rest ++ more) ∧
      drainAll dec (buf ++ more) =
        (as ++ (drainAll dec (rest ++ more)).1, (drainAll dec (rest ++ more)).2)) := by
  -- The induction is on the length of the buffer, which every item makes shorter.
  induction hn : buf.length using Nat.strongRecOn generalizing buf with
  | ind n ih =>
    have hext := h.extends_more buf more hok
    cases hd : dec buf with
    | done a rest =>
      rw [hd] at hext
      have hd' : dec (buf ++ more) = .done a (rest ++ more) := hext
      have hok' := h.ok_rest _ _ _ hok hd'
      have hlt := h.shrinks buf a rest hd
      rw [drainAll_done h.shrinks hd, drainAll_done h.shrinks hd']
      rcases ih rest.length (by omega) rest hok' rfl with
        ⟨as, rest', e, h1, h2⟩ | ⟨as, rest', h1, h2, h3⟩
      · exact .inl ⟨a :: as, rest', e, by rw [h1], by rw [h2]⟩
      · exact .inr ⟨a :: as, rest', by rw [h1], h2, by rw [h3, List.cons_append]⟩
    | incomplete =>
      exact .inr ⟨[], buf, drainAll_incomplete hd, hok, by simp⟩
    | error e =>
      rw [hd] at hext
      exact .inl ⟨[], buf, e, drainAll_error hd, drainAll_error hext⟩

/-- A reader that has an error stays as it is. -/
theorem feedAll_error (chunks : List (List β)) (buf : List β) (e : ε) :
    feedAll dec chunks (buf, some e) = (([] : List α), buf, some e) := by
  induction chunks with
  | nil => rfl
  | cons chunk chunks ih =>
    unfold feedAll feed
    simp only [ih]
    rfl

/-- Feeding chunks one after another gives the items and the error of feeding them as one, and the
same rest if there is no error. -/
theorem feedAll_flatten (h : Committed dec ok) (chunks : List (List β)) (buf : List β)
    (hok : ok (buf ++ chunks.flatten)) (hbuf : dec buf = .incomplete) :
    (feedAll dec chunks (buf, none)).1 = (drainAll dec (buf ++ chunks.flatten)).1 ∧
      (feedAll dec chunks (buf, none)).2.2 = (drainAll dec (buf ++ chunks.flatten)).2.2 ∧
      ((feedAll dec chunks (buf, none)).2.2 = none →
        (feedAll dec chunks (buf, none)).2.1 = (drainAll dec (buf ++ chunks.flatten)).2.1) := by
  induction chunks generalizing buf with
  | nil =>
    rw [List.flatten_nil, List.append_nil, drainAll_incomplete hbuf]
    exact ⟨rfl, rfl, fun _ => rfl⟩
  | cons chunk chunks ih =>
    rw [List.flatten_cons, ← List.append_assoc] at hok ⊢
    unfold feedAll feed
    rcases drainAll_append h (buf ++ chunk) chunks.flatten hok with
      ⟨as, rest, e, h1, h2⟩ | ⟨as, rest, h1, h2, h3⟩
    · simp only [h1, h2, feedAll_error]
      simp
    · have hrest : dec rest = .incomplete := drainAll_rest h.shrinks h1
      obtain ⟨h4, h5, h6⟩ := ih rest h2 hrest
      simp only [h1, h3, h4, h5] at h6 ⊢
      exact ⟨trivial, trivial, h6⟩

end TinyRedis.Lib.Incremental

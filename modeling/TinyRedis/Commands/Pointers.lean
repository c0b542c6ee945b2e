import TinyRedis.Commands.OneEntry

/-!
# Reading through pointers

What a handler knows of the value under a key (`At`), from its lookup on, as long as the handler
writes nothing to it. A lookup of another key leaves it as it is, and a second one of the same key
may find that it has expired. The rules are for handlers that end, or meet any fault.
-/

namespace TinyRedis.Commands

open Lib

variable {T α β : Type} {k : Kind T} {P Q : T → Prop} {env : Env} {argv : Args} {key : Bytes}
  {w : World} {post : β → World → Prop} {pre : World → Prop}

/-- The value under the key has the property `P`. -/
def At (k : Kind T) (key : Bytes) (P : T → Prop) (w : World) : Prop :=
  ∃ e t, (w.db.table w.cs.dbIndex).lookup key = some e ∧ k.get e.value = some t ∧ P t

/-- The value that a lookup of the key finds, if it is of the type. -/
def typedAt (env : Env) (k : Kind T) (key : Bytes) (w : World) : Option T :=
  (live env key w).bind fun e => k.get e.value

/-- From `pre`, a handler ends with `post`, or with a fault. -/
abbrev Leads (pre : World → Prop) (m : M α) (post : α → World → Prop) : Prop :=
  Triple pre (fun _ : CommandFault => True) m post

/-! ## The value under a key -/

/-- A weaker property holds where a stronger one does. -/
theorem At.imp (h : At k key P w) (hPQ : ∀ t, P t → Q t) : At k key Q w := by
  obtain ⟨e, t, hentry, hvalue, ht⟩ := h
  exact ⟨e, t, hentry, hvalue, hPQ t ht⟩

/-- A lookup of another key. -/
theorem At.afterLookup_of_ne (env : Env) {key' : Bytes} (h : At k key P w) (hne : key ≠ key') :
    At k key P (afterLookup env key' w) := by
  obtain ⟨e, t, hentry, ht⟩ := h
  refine ⟨e, t, ?_, ht⟩
  rw [← hentry]
  exact Database.lookup_of_ne _ fun hkey => hne hkey.2

/-- The value that is found is the one under the key afterwards. -/
theorem at_of_typedAt {t : T} (h : typedAt env k key w = some t) :
    At k key (· = t) (afterLookup env key w) := by
  obtain ⟨e, hlive, hvalue⟩ := Option.bind_eq_some_iff.1 h
  obtain ⟨hentry, hdb⟩ := lookup_of_live hlive
  refine ⟨e, t, ?_, hvalue, rfl⟩
  rw [hdb]
  exact hentry

/-- A lookup that finds the type points at a value. -/
theorem exists_typedAt (h : probe env k.type key w = .found) :
    ∃ t, typedAt env k key w = some t := by
  unfold probe at h
  unfold typedAt
  cases hlive : live env key w with
  | none =>
    rw [hlive] at h
    cases h
  | some e =>
    rw [hlive] at h
    dsimp only at h
    split_ifs at h with htype
    cases hget : k.get e.value with
    | none => exact absurd htype ((k.get_eq_none _).1 hget)
    | some t => exact ⟨t, hget⟩

/-! ## Typed lookups -/

/-- A lookup points at a value exactly when it finds it. -/
theorem typedAt_eq_some : typedAt env k key w = some t ↔ ∃ e, Finds env k key e t w := by
  unfold typedAt
  rw [Option.bind_eq_some_iff]
  exact exists_congr fun e => ⟨fun h => ⟨h.1, h.2⟩, fun h => ⟨h.live, h.value⟩⟩

/-- A lookup that finds the type finds an entry with a value of it. -/
theorem exists_finds (h : probe env k.type key w = .found) : ∃ e t, Finds env k key e t w := by
  obtain ⟨t, ht⟩ := exists_typedAt h
  obtain ⟨e, he⟩ := typedAt_eq_some.1 ht
  exact ⟨e, t, he⟩

/-- A lookup that does not find the type points at nothing. -/
theorem typedAt_of_not_found (h : probe env k.type key w ≠ .found) :
    typedAt env k key w = none := by
  unfold probe at h
  unfold typedAt
  cases hlive : live env key w with
  | none => rfl
  | some e =>
    rw [hlive] at h
    exact (k.get_eq_none _).2 fun htype => h (if_pos htype)

/-- A missing key runs the body with a null handle. -/
theorem withTyped_of_missing (h : live env key w = none) (body : LookupResult → Handle → M Unit) :
    withTyped env k key body w = body .missing none (afterLookup env key w) := by
  have hprobe : probe env k.type key w = .missing := by
    unfold probe
    rw [h]
  rw [withTyped_eq, hprobe]
  rfl

/-- A key of another type is only looked up and answered with an error. -/
theorem withTyped_of_wrongType (h : probe env k.type key w = .wrongType)
    (body : LookupResult → Handle → M Unit) :
    ∃ w', withTyped env k key body w = .ok ((), w') ∧ w'.db = (afterLookup env key w).db := by
  rw [withTyped_eq, h]
  exact ⟨_, replyError_eq _ _, rfl⟩

/-! ## A clock that stands still -/

/-- The clock stands still from the world `w` on. -/
def Still (env : Env) (w : World) : Prop := ∀ t, w.tick ≤ t → env.nowMs t = env.nowMs w.tick

/-- A lookup finds what is under the key and has not expired. -/
theorem live_eq_filter (env : Env) (key : Bytes) (w : World) : live env key w =
    ((w.db.table w.cs.dbIndex).lookup key).filter fun e =>
      !Database.expired e (env.nowMs w.tick) := by
  unfold live Database.lookup
  cases (w.db.table w.cs.dbIndex).lookup key with
  | none => rfl
  | some e =>
    dsimp only
    rw [Option.filter_some]
    cases Database.expired e (env.nowMs w.tick) <;> rfl

namespace Still

/-- A still clock is still later on. -/
theorem reads {w' : World} (h : Still env w) (htick : w.tick ≤ w'.tick) : Still env w' := by
  intro t ht
  rw [h t (htick.trans ht), h _ htick]

/-- A lookup leaves a still clock still. -/
theorem afterLookup (h : Still env w) (key : Bytes) : Still env (afterLookup env key w) :=
  h.reads (Nat.le_succ _)

/-- What a lookup finds does not depend on the lookups before it. -/
theorem live_afterLookup (h : Still env w) (key key' : Bytes) :
    live env key' (Commands.afterLookup env key w) = live env key' w := by
  have hnow : env.nowMs (w.tick + 1) = env.nowMs w.tick := h _ (Nat.le_succ _)
  cases hlive : live env key w with
  | some e =>
    rw [live_eq_filter, live_eq_filter, (lookup_of_live hlive).2]
    show Option.filter (fun e => !Database.expired e (env.nowMs (w.tick + 1))) _ = _
    rw [hnow]
    rfl
  | none =>
    by_cases hkey : key' = key
    · -- It is gone now, and was not found before.
      subst hkey
      rw [hlive, live_eq_filter]
      show Option.filter _
        (((Commands.afterLookup env key' w).db.table w.cs.dbIndex).lookup key') = _
      rw [show ((Commands.afterLookup env key' w).db.table w.cs.dbIndex).lookup key' = none from
        lookup_of_not_live hlive]
      rfl
    · have hother : ((Commands.afterLookup env key w).db.table w.cs.dbIndex).lookup key' =
          (w.db.table w.cs.dbIndex).lookup key' :=
        Database.lookup_of_ne _ fun hne => hkey hne.2
      rw [live_eq_filter, live_eq_filter]
      show Option.filter (fun e => !Database.expired e (env.nowMs (w.tick + 1)))
        (((Commands.afterLookup env key w).db.table w.cs.dbIndex).lookup key') = _
      rw [hother, hnow]

end Still

/-! ## Rules -/

/-- What does not depend on the world can be taken out of what is known of it. -/
theorem leads_and {C : Prop} {m : M β} (h : C → Leads pre m post) :
    Leads (fun w => pre w ∧ C) m post :=
  Triple.intro fun _ hw => (h hw.2).outcome hw.1

/-- A read through the pointer. -/
theorem leads_deref_at {f : T → M β} (hpre : ∀ w, pre w → At k key P w)
    (hf : ∀ t, P t → Leads (fun w => pre w ∧ At k key (· = t) w) (f t) post) :
    Leads pre (deref k (some key) >>= f) post := by
  refine Triple.intro fun w hw => ?_
  obtain ⟨e, t, hentry, hvalue, ht⟩ := hpre w hw
  have hstores : Stores k key e t w := ⟨hentry, hvalue⟩
  rw [hstores.deref_bind]
  exact (hf t ht).outcome ⟨hw, e, t, hentry, hvalue, rfl⟩

/-- The pointer to a key that is gone dangles. -/
theorem deref_of_absent (k : Kind T) (h : Absent key w) :
    deref k (some key) w = .error .danglingHandle := by
  have hentry : entry key w = .error .danglingHandle := by
    unfold entry
    rw [h]
  unfold deref
  dsimp only
  rw [bind_apply, hentry]
  rfl

/-- A read of an argument, which is a fault if there is none. -/
theorem leads_arg {i : ℕ} {f : Bytes → M β}
    (hf : i < argv.length → Leads pre (f (argv.getD i [])) post) :
    Leads pre (arg argv i >>= f) post := by
  by_cases hi : i < argv.length
  · rw [arg_bind hi]
    exact hf hi
  · unfold arg
    rw [List.getElem?_eq_none (Nat.le_of_not_lt hi)]
    exact Triple.intro fun _ _ => trivial

/-! ## Loops over the arguments -/

/-- How a step of a loop ends: it goes on with `J`, or stops with `S`. -/
def Step.After (J : ℕ → α → World → Prop) (S : β → World → Prop) (r : Step α β) (w : World) :
    Prop :=
  match r with
  | .next i a => J i a w
  | .stop b => S b w

/-- A loop whose steps go on at a higher index ends at the end of the arguments, or stops before. -/
theorem leads_argLoop {body : ℕ → α → M (Step α β)} {J : ℕ → α → World → Prop}
    {S : β → World → Prop}
    (hbody : ∀ i a, i < argv.length →
      Leads (J i a) (body i a) (Step.After (fun j a w => i < j ∧ J j a w) S))
    (n i : ℕ) (a : α) (hn : argv.length ≤ n + i) :
    Leads (J i a) (argLoop argv body n i a)
      (Step.After (fun j a w => argv.length ≤ j ∧ J j a w) S) := by
  induction n generalizing i a with
  | zero => exact Triple.intro fun w hw => ⟨by omega, hw⟩
  | succ n ih =>
    unfold argLoop
    refine Triple.ite (fun hi => ?_) fun hi => Triple.intro fun w hw => ⟨by omega, hw⟩
    refine (hbody i a hi).bind fun r => ?_
    cases r with
    | next j a =>
      refine Triple.intro fun w hw => ?_
      obtain ⟨hlt, hw⟩ := hw
      exact (ih j a (by omega)).outcome hw
    | stop b => exact Triple.intro fun w hw => hw

end TinyRedis.Commands

import TinyRedis.Commands.Dispatch
import TinyRedis.Db.Accounting
import TinyRedis.Lib.Safe
import TinyRedis.SkipList.Insert

/-!
# Invariants of the database under the primitives

`Stable V I E` says that `I` is an invariant of the database under everything that a handler does
to whole entries: lookups, which drop expired keys, `Set` of values with the property `V`, `Delete`,
and new deadlines. `Assigns V I` says that it is one under writes into a value as well. `E` allows
all faults but those for an index into `argv` and for a null pointer.

The primitives are then safe, with no fault for an index in range and for a pointer that is not
null. What a handler does depends on what its first lookup finds, which is a property of the state
before: `probe`.
-/

namespace TinyRedis.Commands

open Lib

variable {V : Value → Prop} {I : Database → Prop} {E : CommandFault → Prop} {J : World → Prop}
  {α β T : Type} {P : α → Prop} {env : Env} {argv : Args} {key : Bytes} {w : World} {i stride : ℕ}
  {k : Kind T} {empty t : T} {A : LookupResult → Prop} {e : Entry} {v : Value}
  {body : LookupResult → Handle → M Unit} {m : M α} {Q : β → Prop} {p : Handle}

/-- Neither an index into `argv` out of range, nor a null pointer. -/
def Benign : CommandFault → Prop
  | .argvIndex _ => False
  | .nullHandle => False
  | .recursion => False
  | _ => True

/-- `I` is kept by operations on whole entries, with values that satisfy `V`. -/
structure Stable (V : Value → Prop) (I : Database → Prop) (E : CommandFault → Prop) : Prop where
  value : ∀ db i key e, I db → (db.table i).lookup key = some e → V e.value
  lookup : ∀ db i key now, I db → I (db.lookup i key now).2
  set : ∀ db i key v exp, I db → V v → I (db.set i key v exp)
  delete : ∀ db i key, I db → I (db.delete i key).2
  flushDb : ∀ db i, I db → I (db.flushDb i)
  maxMemory : ∀ db n, I db → I { db with maxMemory := n }
  deadline : ∀ db i key e exp, I db → (db.table i).lookup key = some e →
    I (db.assign i key { e with expiresAtMs := exp })
  emptyString : V (.rawString [])
  benign : ∀ f, Benign f → E f

/-- The strings that a command with the arguments `argv` makes satisfy `V`: its arguments, numbers,
and strings into which `SETRANGE` writes an argument. -/
structure Strings (V : Value → Prop) (argv : Args) : Prop where
  argument : ∀ s ∈ argv, V (.rawString s)
  number : ∀ s, s.length < 128 → V (.rawString s)
  overwrite : ∀ s v (offset : ℕ), v ∈ argv → V (.rawString s) →
    offset + v.length ≤ 512 * 1024 * 1024 → V (.rawString (overwrite s offset v))

/-- If all strings do. -/
theorem strings_of_all (h : ∀ s, V (.rawString s)) : Strings V argv :=
  ⟨fun s _ => h s, fun s _ => h s, fun _ _ _ _ _ _ => h _⟩

/-- The values of the other types satisfy `V` as well, but that of a sorted set this is known only
of an empty one. -/
structure Invariant (V : Value → Prop) (I : Database → Prop) (E : CommandFault → Prop) : Prop
    extends Stable V I E where
  hash : ∀ h, V (.hash h)
  list : ∀ l, V (.list l)
  members : ∀ s, V (.set s)
  emptyZSet : V (.zset ⟨SkipList.empty, ∅⟩)

/-- Nothing is asked of the database. -/
theorem invariant_true {E : CommandFault → Prop} (hE : ∀ f, Benign f → E f) :
    Invariant (fun _ => True) (fun _ => True) E :=
  ⟨⟨fun _ _ _ _ _ _ => trivial, fun _ _ _ _ _ => trivial, fun _ _ _ _ _ _ _ => trivial,
    fun _ _ _ _ => trivial, fun _ _ _ => trivial, fun _ _ _ => trivial,
    fun _ _ _ _ _ _ _ => trivial, trivial, hE⟩, fun _ => trivial, fun _ => trivial,
    fun _ => trivial, trivial⟩

/-- A value that was moved from is an empty one of the same type. -/
theorem Invariant.movedFrom_value (h : Invariant V I E) (v : Value) : V (movedFrom v) := by
  cases v with
  | rawString s => exact h.emptyString
  | hash d => exact h.hash _
  | list l => exact h.list _
  | set s => exact h.members _
  | zset z => exact h.emptyZSet

/-- `I` is kept by writes into a value. -/
def Assigns (V : Value → Prop) (I : Database → Prop) : Prop :=
  ∀ db i key e v, I db → (db.table i).lookup key = some e → V v →
    I (db.assign i key { e with value := v })

/-- A handler, or a part of one, keeps `I` and returns a value with `P`. -/
abbrev Keeps (I : Database → Prop) (E : CommandFault → Prop) (m : M α) (P : α → Prop) : Prop :=
  Safe (fun w : World => I w.db) E m P

/-- A handler keeps `I`. -/
abbrev Runs (I : Database → Prop) (E : CommandFault → Prop) (m : M α) : Prop :=
  Keeps I E m fun _ => True

/-- A handler keeps `I`, from the states with `J`. -/
abbrev RunsIf (J : World → Prop) (I : Database → Prop) (E : CommandFault → Prop) (m : M α) : Prop :=
  Triple (fun w => I w.db ∧ J w) E m fun _ w => I w.db

/-- From all states. -/
theorem runsIf_of_runs (hm : Runs I E m) : RunsIf J I E m :=
  hm.triple.imp (fun _ hw => hw.1) fun _ _ hw => hw.1

/-- From all states, if nothing is asked of them. -/
theorem runs_of_runsIf (hm : RunsIf (fun _ => True) I E m) : Runs I E m :=
  .of_triple (hm.imp (fun _ hw => ⟨hw, trivial⟩) fun _ _ hw => ⟨hw, trivial⟩)

/-! ## Primitives without a database -/

/-- A fault that is allowed. -/
theorem keeps_fault {f : CommandFault} (h : E f) : Safe J E (fault f : M α) P :=
  Safe.intro fun _ _ => h

/-- Nothing comes after an access through a null pointer. -/
theorem keeps_null_bind (k : Kind T) (hnull : E .nullHandle) {f : T → M β} :
    Safe J E (deref k none >>= f) Q :=
  Safe.bind (P := fun _ => False) (keeps_fault hnull) fun _ hf => hf.elim

/-- Reading the clock. -/
theorem keeps_tick : Runs I E tick :=
  Safe.intro fun _ hw => ⟨hw, trivial⟩

/-- A reply. -/
theorem keeps_emit (f : Bytes → Bytes) : Runs I E (emit f) :=
  Safe.intro fun _ hw => ⟨hw, trivial⟩

/-- The text of `ErrWrongArgs`. -/
def wrongArgsText (cmdLower : Bytes) : Bytes :=
  bytes "ERR wrong number of arguments for '" ++ cmdLower ++ bytes "' command"

/-- Taking the table. -/
theorem keeps_table : Runs I E table :=
  Safe.intro fun _ hw => ⟨hw, trivial⟩

/-- A sequence, from a state. -/
theorem bind_apply (m : M α) (f : α → M β) (w : World) :
    (m >>= f) w = (m w >>= fun p => f p.1 p.2) := rfl

/-- The two parts of a sequence that returns. -/
theorem exists_of_bind {f : α → M β} {w : World} {r : β × World} (h : (m >>= f) w = .ok r) :
    ∃ a w₁, m w = .ok (a, w₁) ∧ f a w₁ = .ok r := by
  obtain ⟨p, hp, h⟩ := bind_eq_ok (x := m w) h
  exact ⟨p.1, p.2, hp, h⟩

/-- A value, from a state. -/
theorem pure_apply (a : α) (w : World) : (pure a : M α) w = .ok (a, w) := rfl

/-- Looking at the state. -/
theorem get_bind_apply (f : World → M α) (w : World) : (get >>= f) w = f w w := rfl

/-- An argument that is there. -/
theorem argv_getElem? (hi : i < argv.length) : argv[i]? = some (argv.getD i []) := by
  rw [List.getD_eq_getElem?_getD, List.getElem?_eq_getElem hi]
  rfl

/-- The arguments from one that is there on. -/
theorem drop_eq_cons (hi : i < argv.length) :
    argv.drop i = argv.getD i [] :: argv.drop (i + 1) := by
  rw [List.drop_eq_getElem_cons hi, List.getD_eq_getElem?_getD, List.getElem?_eq_getElem hi]
  rfl

/-- Such an argument is read. -/
theorem arg_eq (hi : i < argv.length) : arg argv i = pure (argv.getD i []) := by
  unfold arg
  rw [argv_getElem? hi]

/-- What comes after it. -/
theorem arg_bind (hi : i < argv.length) (f : Bytes → M β) :
    arg argv i >>= f = f (argv.getD i []) := by
  rw [arg_eq hi, pure_bind]

/-- An argument that is there, or whose fault is allowed. -/
theorem keeps_arg_or (hi : argv.length ≤ i → E (.argvIndex i)) :
    Safe J E (arg argv i) fun _ => True := by
  unfold arg
  cases ha : argv[i]? with
  | some s => exact Safe.pure trivial
  | none => exact keeps_fault (hi (List.getElem?_eq_none_iff.1 ha))

/-- An argument that is there. -/
theorem keeps_arg (hi : i < argv.length) : Safe J E (arg argv i) fun _ => True :=
  keeps_arg_or fun hc => absurd hi (by omega)

/-- A write to the other parts of the world. -/
theorem keeps_modify {f : World → World} (hf : ∀ w, (f w).db = w.db) :
    Runs I E (modify f : M Unit) :=
  Safe.modify fun w hw => by rw [hf w]; exact hw

/-- A random number. -/
theorem keeps_randomBelow {n : ℕ} : Runs I E (randomBelow env n) :=
  keeps_tick.bind fun _ _ => Safe.pure trivial

/-- A traversal. -/
theorem keeps_iterate {l : List α} : Runs I E (iterate env l) :=
  keeps_tick.bind fun _ _ => Safe.pure trivial

/-! ## Loops -/

/-- What holds of the outcome of a step: `P` if the loop goes on, and `Q` if it is left. -/
def Step.All (P : ℕ → α → Prop) (Q : β → Prop) : Step α β → Prop
  | .next i a => P i a
  | .stop b => Q b

/-- What a step keeps, the loop keeps. -/
theorem keeps_argLoop {body : ℕ → α → M (Step α β)} {P : ℕ → α → Prop} {Q : β → Prop}
    (hbody : ∀ i a, i < argv.length → P i a → Safe J E (body i a) (Step.All P Q))
    (n i : ℕ) (a : α) (h : P i a) : Safe J E (argLoop argv body n i a) (Step.All P Q) := by
  induction n generalizing i a with
  | zero => exact Safe.pure h
  | succ n ih =>
    unfold argLoop
    refine Safe.ite (fun hi => ?_) fun _ => Safe.pure h
    refine (hbody i a hi h).bind fun r hr => ?_
    cases r with
    | next i a => exact ih i a hr
    | stop b => exact Safe.pure hr

/-- The loop that is never left. -/
theorem keeps_forArgs {stride : ℕ} {body : ℕ → α → M α} (P : ℕ → α → Prop)
    (hbody : ∀ i a, i < argv.length → P i a → Safe J E (body i a) (P (i + stride)))
    (i : ℕ) (a : α) (h : P i a) : Safe J E (forArgs argv stride body i a) fun _ => True := by
  unfold forArgs
  refine (keeps_argLoop (Q := fun _ => True) (fun i a hi ha => ?_) argv.length i a h).bind
    fun r _ => ?_
  · exact (hbody i a hi ha).bind fun a' ha' => Safe.pure ha'
  · cases r with
    | next i a => exact Safe.pure trivial
    | stop b => exact b.elim

/-- A loop whose step needs nothing but that its index is in range. -/
theorem keeps_forArgs_true {body : ℕ → α → M α}
    (hbody : ∀ i a, i < argv.length → Safe J E (body i a) fun _ => True) (i : ℕ) (a : α) :
    Safe J E (forArgs argv stride body i a) fun _ => True :=
  keeps_forArgs (fun _ _ => True) (fun i a hi _ => hbody i a hi) i a trivial

/-! ## What a lookup finds -/

/-- The entry that a lookup finds: one that is in the table, and whose deadline has not come. -/
def live (env : Env) (key : Bytes) (w : World) : Option Entry :=
  (w.db.lookup w.cs.dbIndex key (env.nowMs w.tick)).1

/-- What a lookup of a key finds for a type of values. -/
def probe (env : Env) (t : ValueType) (key : Bytes) (w : World) : LookupResult :=
  match live env key w with
  | none => .missing
  | some e => if typeOf e.value = t then .found else .wrongType

/-- A key is not in the table. -/
def Absent (key : Bytes) (w : World) : Prop := (w.db.table w.cs.dbIndex).lookup key = none

/-- The state after a lookup. -/
def afterLookup (env : Env) (key : Bytes) (w : World) : World :=
  { w with db := (w.db.lookup w.cs.dbIndex key (env.nowMs w.tick)).2, tick := w.tick + 1 }

/-- The pointer that belongs to the result of a typed lookup. -/
def LookupResult.handle (key : Bytes) : LookupResult → Handle
  | .found => some key
  | _ => none

/-- A lookup, in these terms. -/
theorem lookup_eq (key : Bytes) (w : World) :
    lookup env key w = .ok (live env key w, afterLookup env key w) := rfl

/-- What comes after it. -/
theorem lookup_bind (key : Bytes) (f : Option Entry → M β) (w : World) :
    (lookup env key >>= f) w = f (live env key w) (afterLookup env key w) := rfl

/-- What is found is in the table, and stays there. -/
theorem lookup_of_live (hl : live env key w = some e) :
    (w.db.table w.cs.dbIndex).lookup key = some e ∧ (afterLookup env key w).db = w.db :=
  Database.lookup_of_some hl

/-- The lookup of what is found counts as a reading of the clock, and changes nothing else. -/
theorem afterLookup_of_live (hl : live env key w = some e) :
    afterLookup env key w = { w with tick := w.tick + 1 } := by
  have hdb := (lookup_of_live hl).2
  unfold afterLookup at hdb ⊢
  dsimp only at hdb
  rw [hdb]

/-- What is not found is not in the table afterwards. -/
theorem lookup_of_not_live (hl : live env key w = none) : Absent key (afterLookup env key w) :=
  Database.lookup_of_none hl

/-- What is missing is not found. -/
theorem live_of_probe {t : ValueType} (h : probe env t key w = .missing) :
    live env key w = none := by
  unfold probe at h
  cases hl : live env key w with
  | none => rfl
  | some e =>
    rw [hl] at h
    dsimp only at h
    split_ifs at h

/-- What is not in the table is missing. -/
theorem probe_of_absent (h : Absent key w) (t : ValueType) : probe env t key w = .missing := by
  unfold Absent at h
  unfold probe live Database.lookup
  rw [h]

/-- A value of a kind has its type. -/
theorem Kind.type_of_get (k : Kind T) (h : k.get v = some t) : typeOf v = k.type := by
  refine not_not.1 fun hc => ?_
  rw [(k.get_eq_none v).2 hc] at h
  cases h

/-- A typed lookup, in these terms. -/
theorem getTyped_eq (k : Kind T) (key : Bytes) (w : World) :
    getTyped env k key w = .ok ((probe env k.type key w, (probe env k.type key w).handle key),
      afterLookup env key w) := by
  rw [getTyped, bind_apply, lookup_eq, ok_bind]
  unfold probe
  cases live env key w with
  | none => rfl
  | some e =>
    dsimp only
    cases hk : k.get e.value with
    | none =>
      rw [if_neg ((k.get_eq_none _).1 hk)]
      rfl
    | some t =>
      rw [if_pos (k.type_of_get hk)]
      rfl

/-- A typed lookup goes by what it finds. -/
theorem withTyped_eq (k : Kind T) (key : Bytes) (body : LookupResult → Handle → M Unit)
    (w : World) :
    withTyped env k key body w =
      (match probe env k.type key w with
        | .wrongType => errWrongType
        | r => body r (r.handle key)) (afterLookup env key w) := by
  unfold withTyped
  show (getTyped env k key w >>= fun r => (match r.1.1 with
      | .wrongType => errWrongType
      | st => body st r.1.2) r.2) = _
  rw [getTyped_eq]
  cases probe env k.type key w <;> rfl

/-- A key that was just set is found: it has no deadline. -/
theorem setAndLookup_eq (key : Bytes) (v : Value) (w : World) :
    setAndLookup env key v w =
      .ok (⟨v, 0⟩, { w with db := w.db.set w.cs.dbIndex key v 0, tick := w.tick + 1 }) := by
  have hset : ((w.db.set w.cs.dbIndex key v 0).table w.cs.dbIndex).lookup key = some ⟨v, 0⟩ := by
    rw [Database.table_set, if_pos rfl, AList.lookup_insert]
  have hlookup : (w.db.set w.cs.dbIndex key v 0).lookup w.cs.dbIndex key (env.nowMs w.tick) =
      (some ⟨v, 0⟩, w.db.set w.cs.dbIndex key v 0) := by
    unfold Database.lookup Database.expired
    rw [hset]
    rfl
  have hset' : set key v 0 w = .ok ((), { w with db := w.db.set w.cs.dbIndex key v 0 }) := rfl
  rw [setAndLookup, bind_apply, hset', ok_bind, bind_apply, lookup_eq, ok_bind]
  unfold live afterLookup
  dsimp only
  rw [hlookup]
  rfl

/-- A key that is found keeps its value. -/
theorem findOrCreate_of_live (hl : live env key w = some e) : findOrCreate env k empty key w =
      .ok ((if typeOf e.value = k.type then some key else none), afterLookup env key w) := by
  unfold findOrCreate
  simp only [bind_apply, lookup_eq, ok_bind, hl, pure_apply]
  cases hk : k.get e.value with
  | none =>
    rw [if_neg ((k.get_eq_none _).1 hk)]
    rfl
  | some t =>
    rw [if_pos (k.type_of_get hk)]
    rfl

/-- A key that is not found gets an empty value. -/
theorem findOrCreate_of_not_live (hl : live env key w = none) : findOrCreate env k empty key w =
      .ok (some key, { afterLookup env key w with
        db := (afterLookup env key w).db.set w.cs.dbIndex key (k.put empty) 0,
        tick := w.tick + 2 }) := by
  unfold findOrCreate
  simp only [bind_apply, lookup_eq, ok_bind, hl, setAndLookup_eq, k.get_put, pure_apply]
  rfl

/-! ## The database -/

namespace Stable

variable (h : Stable V I E)
include h

/-- A number that fits. -/
theorem keeps_checked_eq {n : ℤ} : Safe J E (checked n) fun m => m = n :=
  Safe.ite (fun _ => Safe.pure rfl) fun _ => keeps_fault (h.benign _ trivial)

/-- A call of a function of the skip list. -/
theorem keeps_liftSkipList (x : Except Fault α) : Safe J E (liftSkipList x) fun a => x = .ok a := by
  cases x with
  | ok a => exact Safe.pure rfl
  | error f => exact keeps_fault (h.benign _ trivial)

/-- Deleting a key. -/
theorem keeps_delete (key : Bytes) : Runs I E (Commands.delete key) :=
  Safe.intro fun _ hw => ⟨h.delete _ _ _ hw, trivial⟩

/-- The entry under a key. -/
theorem keeps_entry (hJ : ∀ w, J w → I w.db) (key : Bytes) :
    Safe J E (entry key) fun e => V e.value := by
  refine Safe.intro fun w hw => ?_
  unfold entry
  cases ht : (w.db.table w.cs.dbIndex).lookup key with
  | none => exact h.benign _ trivial
  | some e => exact ⟨hw, h.value _ _ _ _ (hJ w hw) ht⟩

/-! ## Typed values -/

/-- A read through a pointer changes nothing, so it keeps more than `I`. -/
theorem keeps_deref_of (hJ : ∀ w, J w → I w.db) (k : Kind T) (hp : p = none → E .nullHandle) :
    Safe J E (deref k p) fun t => V (k.put t) := by
  cases p with
  | none => exact keeps_fault (hp rfl)
  | some key =>
    unfold deref
    refine (h.keeps_entry hJ key).bind fun e he => ?_
    cases hk : k.get e.value with
    | none => exact keeps_fault (h.benign _ trivial)
    | some t =>
      refine Safe.pure ?_
      rw [k.put_of_get _ _ hk]
      exact he

/-- A read keeps `I`. -/
theorem keeps_deref (k : Kind T) (hp : p = none → E .nullHandle) :
    Keeps I E (deref k p) fun t => V (k.put t) :=
  h.keeps_deref_of (fun _ hw => hw) k hp

/-- A pointer that is not null. -/
theorem keeps_deref_some (k : Kind T) (key : Bytes) :
    Keeps I E (deref k (some key)) fun t => V (k.put t) :=
  h.keeps_deref k nofun

/-- A typed lookup that finds what `A` allows. A key that is missing is not in the table. -/
theorem runsIf_withTyped_absent
    (hmissing : A .missing → RunsIf (Absent key) I E (body .missing none))
    (hfound : A .found → Runs I E (body .found (some key))) :
    RunsIf (fun w => A (probe env k.type key w)) I E (withTyped env k key body) := by
  refine Triple.intro fun w hw => ?_
  rw [withTyped_eq]
  have hafter : I (afterLookup env key w).db := h.lookup _ _ _ _ hw.1
  obtain ⟨-, hA⟩ := hw
  cases hr : probe env k.type key w with
  | missing =>
    rw [hr] at hA
    exact (hmissing hA).outcome ⟨hafter, lookup_of_not_live (live_of_probe hr)⟩
  | found =>
    rw [hr] at hA
    exact (runsIf_of_runs (J := fun _ => True) (hfound hA)).outcome ⟨hafter, trivial⟩
  | wrongType => exact hafter

/-- A typed lookup, whatever it finds. -/
theorem keeps_withTyped (hmissing : Runs I E (body .missing none))
    (hfound : Runs I E (body .found (some key))) : Runs I E (withTyped env k key body) :=
  runs_of_runsIf (h.runsIf_withTyped_absent (A := fun _ => True)
    (fun _ => runsIf_of_runs hmissing) fun _ => hfound)

/-- A value that is set, and looked up. -/
theorem keeps_setAndLookup (hv : V v) (key : Bytes) :
    Keeps I E (setAndLookup env key v) fun e => e = ⟨v, 0⟩ := by
  refine Safe.intro fun w hw => ?_
  rw [setAndLookup_eq]
  exact ⟨h.set _ _ _ _ _ hw hv, rfl⟩

/-- The pointer is null if and only if there is a value of another type. -/
theorem findOrCreate_spec (hv : V (k.put empty)) (key : Bytes) :
    Triple (fun w => I w.db ∧ A (probe env k.type key w)) E (findOrCreate env k empty key)
      fun p w => I w.db ∧
        (p = none ∧ A .wrongType ∨ p = some key ∧ ∃ r, A r ∧ r ≠ .wrongType) := by
  refine Triple.intro fun w hw => ?_
  have hafter : I (afterLookup env key w).db := h.lookup _ _ _ _ hw.1
  obtain ⟨-, hA⟩ := hw
  unfold probe at hA
  cases hl : live env key w with
  | none =>
    rw [hl] at hA
    rw [findOrCreate_of_not_live hl]
    exact ⟨h.set _ _ _ _ _ hafter hv, .inr ⟨rfl, .missing, hA, nofun⟩⟩
  | some e =>
    rw [hl] at hA
    rw [findOrCreate_of_live hl]
    dsimp only at hA ⊢
    split_ifs at hA ⊢
    · exact ⟨hafter, .inr ⟨rfl, .found, hA, nofun⟩⟩
    · exact ⟨hafter, .inl ⟨rfl, hA⟩⟩

/-- A handler that goes on with what it found or created. -/
theorem runsIf_findOrCreate (k : Kind T) {body : Handle → M Unit} (hv : V (k.put empty))
    (key : Bytes) (hnone : A .wrongType → Runs I E (body none))
    (hsome : ∀ r, A r → r ≠ .wrongType → Runs I E (body (some key))) :
    RunsIf (fun w => A (probe env k.type key w)) I E (findOrCreate env k empty key >>= body) := by
  refine (h.findOrCreate_spec hv key).bind fun p => Triple.intro fun w hw => ?_
  rcases hw with ⟨hw, ⟨rfl, hA⟩ | ⟨rfl, r, hA, hr⟩⟩
  · exact (runsIf_of_runs (J := fun _ => True) (hnone hA)).outcome ⟨hw, trivial⟩
  · exact (runsIf_of_runs (J := fun _ => True) (hsome r hA hr)).outcome ⟨hw, trivial⟩

end Stable

/-- A write through a pointer that is not null. -/
theorem Stable.keeps_store (h : Stable V I E) (ha : Assigns V I) (k : Kind T) (key : Bytes)
    (ht : V (k.put t)) : Runs I E (store k (some key) t) := by
  refine Safe.intro fun w hw => ?_
  unfold store
  dsimp only
  unfold assignValue modifyEntry
  cases hl : (w.db.table w.cs.dbIndex).lookup key with
  | none => exact h.benign _ trivial
  | some e => exact ⟨ha _ _ _ _ _ hw hl ht, trivial⟩

end TinyRedis.Commands

import TinyRedis.Commands.Invariant
import TinyRedis.Resp.Reply

/-!
# The rules of handlers

All handlers are put together from the same few operations: they look keys up, write entries, and
append to the reply. What they do to the database and to the reply follows from the order in which
they do so, and `Obeys r p m Q` says that the program `m` keeps to the order: it starts in the phase
`p`, and ends in a phase that `Q` allows. A phase says which entries were looked up, whether one was
written, and how much of the reply is there. Keys are looked up only while nothing was written, and
an error, in general, is replied only then.

The rules `r` are the keys that a handler may touch, the texts of its errors, the values that it may
write, the faults that it may meet, and what else it may do. They may say what the first lookup
finds: whether a handler writes through a pointer, or meets a null pointer, depends on this. Each
handler is shown to obey them once; what follows for the database, for invariants and faults, for
the reply, or for two runs side by side is shown once for each rule.
-/

namespace TinyRedis.Commands

open Lib Resp List

variable {n i : ℕ} {m : M Unit} {v : Value} {c N : Prop} {key' s : Bytes}

/-- How much of the reply there is. -/
inductive Answer where
  /-- Nothing. -/
  | none
  /-- A value that is not an error, but for its last `n` elements. -/
  | left (n : ℕ)
  /-- An error. -/
  | failed

/-- What was done to the database. -/
inductive Stage where
  /-- Nothing, and no key was looked up. -/
  | fresh
  /-- Nothing was written. -/
  | clean
  /-- Entries were written. -/
  | dirty
  /-- Nothing was written, but another key space was selected. -/
  | moved
  deriving DecidableEq

/-- A point in the execution of a handler. -/
structure Phase where
  /-- The keys that were looked up and found. -/
  held : Set Bytes
  /-- A key that was just created, and the value that it was given. -/
  created : Option (Bytes × Value)
  stage : Stage
  answer : Answer

namespace Phase

/-- Before the first step. -/
def start : Phase := ⟨∅, none, .clean, .none⟩

/-- Before the first lookup. -/
def fresh : Phase := ⟨∅, none, .fresh, .none⟩

/-- A key was looked up. -/
def looked (p : Phase) : Phase := { p with stage := .clean }

/-- A key was found. -/
def hold (p : Phase) (key : Bytes) : Phase := { p with held := insert key p.held }

/-- An entry was written. -/
def write (p : Phase) : Phase := { p with created := none, stage := .dirty }

/-- An entry was written, and may be gone. -/
def drop (p : Phase) (key : Bytes) : Phase := { p.write with held := p.held \ {key} }

/-- A key was created. -/
def create (p : Phase) (key : Bytes) (v : Value) : Phase :=
  { p with held := insert key p.held, created := some (key, v), stage := .dirty }

/-- Some of the reply is there. -/
def reply (p : Phase) (a : Answer) : Phase := { p with answer := a }

end Phase

/-- What a handler may do. -/
structure Rules where
  env : Env
  /-- The keys it may look up and write. -/
  keys : Set Bytes
  /-- The texts of its errors. -/
  text : Set Bytes
  /-- Whether it may write entries. -/
  writes : Bool
  /-- Whether it may reply an error after it has written. -/
  lax : Bool
  /-- Whether it may delete a key that it has not looked up. -/
  blind : Bool
  /-- Whether it may read more than the entries that it looks up. -/
  whole : Bool
  /-- Whether it may go over a table as a whole, and write to it. -/
  loose : Bool
  /-- Whether it may select another key space. -/
  moves : Bool
  /-- Whether it may ask to close the connection. -/
  quits : Bool
  /-- The values it may write. -/
  values : Value → Prop
  /-- What holds of the database all along. -/
  keeps : Database → Prop
  /-- The faults it may meet. -/
  faults : CommandFault → Prop
  /-- What its first lookup may find. -/
  finds : Bytes → Option Entry → Prop
  /-- Whether it may write into a value through a pointer. -/
  stores : Prop
  stable : Stable values keeps faults
  assigns : stores → Assigns values keeps

/-- The rules say nothing of faults and of the database. -/
structure Rules.Free (r : Rules) : Prop where
  values : ∀ v, r.values v
  keeps : ∀ db, r.keeps db
  faults : ∀ f, r.faults f
  finds : ∀ key o, r.finds key o
  stores : r.stores

/-- Nothing happened to the entries from the reading `i` of the clock to the reading `j`, but that
some whose deadline had come were dropped. -/
def Aged (env : Env) (i j : ℕ) (db db' : Database) : Prop :=
  ∀ d key, (db'.table d).lookup key = (db.table d).lookup key ∨
    ∃ e n, (db.table d).lookup key = some e ∧ i ≤ n ∧ n < j ∧
      Database.expired e (env.nowMs n) = true ∧ (db'.table d).lookup key = none

/-- A step that changes nothing but the database. -/
def OnlyDb {α : Type} (m : M α) : Prop :=
  ∀ w a w', m w = .ok (a, w') → w'.out = w.out ∧ w'.cs = w.cs ∧ w.tick ≤ w'.tick

/-- A step that only drops entries whose deadline has come. -/
def Sweeps {α : Type} (env : Env) (m : M α) : Prop :=
  OnlyDb m ∧ ∀ w a w', m w = .ok (a, w') → Aged env w.tick w'.tick w.db w'.db

/-- A change to what is neither an entry, nor the session, nor the reply. What it makes of the
memory limit and of the time of the last snapshot depends on nothing else. -/
structure Aside (g : World → World) : Prop where
  db : ∀ w, (g w).db = { w.db with maxMemory := (g w).db.maxMemory }
  apart : ∀ w, (g w).cs = w.cs ∧ (g w).out = w.out ∧ (g w).tick = w.tick
  stats : ∀ w, (g w).stats.startTimeUs = w.stats.startTimeUs ∧
    (g w).stats.expiredKeys = w.stats.expiredKeys
  steady : ∀ w w', w.db.maxMemory = w'.db.maxMemory → w.lastSave = w'.lastSave →
    (g w).db.maxMemory = (g w').db.maxMemory ∧ (g w).lastSave = (g w').lastSave

/-- A write is allowed. -/
structure Phase.MayWrite (r : Rules) (p : Phase) : Prop where
  writes : r.writes = true
  settled : p.stage ≠ .fresh
  stage : p.stage ≠ .moved
  answer : p.answer ≠ .failed

namespace Phase

variable {r : Rules} {p : Phase} {key : Bytes}

/-- At the start a write is allowed. -/
theorem mayWrite_start (hw : r.writes = true) : start.MayWrite r :=
  ⟨hw, fun hc => (by cases hc), fun hc => (by cases hc), fun hc => by cases hc⟩

namespace MayWrite

variable (h : p.MayWrite r)
include h

/-- It still is when a key was found. -/
theorem hold : (p.hold key).MayWrite r :=
  ⟨h.writes, h.settled, h.stage, h.answer⟩

/-- It still is when a key was looked up. -/
theorem looked : p.looked.MayWrite r :=
  ⟨h.writes, fun hc => (by cases hc), fun hc => (by cases hc), h.answer⟩

/-- It still is when something was replied. -/
theorem reply : (p.reply (.left n)).MayWrite r :=
  ⟨h.writes, h.settled, h.stage, fun hc => by cases hc⟩

/-- It still is after a write. -/
theorem write : p.write.MayWrite r :=
  ⟨h.writes, fun hc => (by cases hc), fun hc => (by cases hc), h.answer⟩

/-- It still is after a deletion. -/
theorem drop : (p.drop key).MayWrite r :=
  ⟨h.writes, fun hc => (by cases hc), fun hc => (by cases hc), h.answer⟩

/-- It still is when a key was created. -/
theorem create : (p.create key v).MayWrite r :=
  ⟨h.writes, fun hc => (by cases hc), fun hc => (by cases hc), h.answer⟩

end MayWrite

/-- The result and the pointer of a typed lookup that found no value of another type, with what is
known if the key is missing. -/
def Points (p : Phase) (N : Prop) (st : LookupResult) (h : Handle) : Prop :=
  (N ∧ st = .missing ∧ h = none) ∨ ∃ key ∈ p.held, st = .found ∧ h = some key

/-- A key that was found is held. -/
theorem mem_hold : key ∈ (p.hold key).held := Set.mem_insert _ _

/-- So is one that was created. -/
theorem mem_create : key ∈ (p.create key v).held := Set.mem_insert _ _

/-- In the other stages, the key space is the one that the program started in. -/
theorem stage_ne_moved (h : p.stage = .clean) : p.stage ≠ .moved := by
  rw [h]
  exact fun hc => by cases hc

/-- The first lookup is over. -/
theorem settled (h : p.stage = .clean) : p.stage ≠ .fresh := by
  rw [h]
  exact fun hc => by cases hc

/-- A command may write as long as it has changed nothing and replied no error. -/
theorem mayWrite_of_clean (hw : r.writes = true) (hp : p.stage = .clean)
    (ha : p.answer = .none ∨ p.answer = .left 0) : p.MayWrite r := by
  refine ⟨hw, settled hp, stage_ne_moved hp, fun hc => ?_⟩
  rcases ha with ha | ha
  · rw [ha] at hc
    cases hc
  · rw [ha] at hc
    cases hc

end Phase

/-- The program `m` obeys the rules `r` from the phase `p`, and ends in a phase with `Q`. -/
inductive Obeys (r : Rules) : {α : Type} → Phase → M α → (α → Phase → Prop) → Prop
  | pure {α : Type} {p : Phase} {a : α} {Q : α → Phase → Prop} : Q a p → Obeys r p (pure a) Q
  | bind {α β : Type} {p : Phase} {m : M α} {f : α → M β} {Q : α → Phase → Prop}
      {R : β → Phase → Prop} :
      Obeys r p m Q → (∀ a p', Q a p' → Obeys r p' (f a) R) → Obeys r p (m >>= f) R
  | imp {α : Type} {p : Phase} {m : M α} {Q R : α → Phase → Prop} :
      Obeys r p m Q → (∀ a p', Q a p' → R a p') → Obeys r p m R
  | forget {α : Type} {p p' : Phase} {m : M α} {Q : α → Phase → Prop} :
      Obeys r p m Q → p.held ⊆ p'.held → p.created = none ∨ p.created = p'.created →
      p.stage = p'.stage ∨ (p.stage = .clean ∧ p'.stage = .fresh) → p.answer = p'.answer →
      Obeys r p' m Q
  | fault {α : Type} {p : Phase} {f : CommandFault} {Q : α → Phase → Prop} :
      r.faults f → Obeys r p (fault f) Q
  | tick {p : Phase} {Q : ℕ → Phase → Prop} :
      p.stage ≠ .fresh → (∀ n, Q n p) → Obeys r p tick Q
  | lookup {p : Phase} {key : Bytes} {Q : Option Entry → Phase → Prop} :
      key ∈ r.keys → p.stage = .clean ∨ p.stage = .fresh →
      ((p.stage = .fresh → r.finds key none) → Q none p.looked) →
      (∀ e, r.values e.value → (p.stage = .fresh → r.finds key (some e)) →
        Q (some e) (p.looked.hold key)) →
      Obeys r p (lookup r.env key) Q
  | entry {p : Phase} {key : Bytes} {Q : Entry → Phase → Prop} :
      key ∈ p.held → (∀ e, r.values e.value → Q e p) → Obeys r p (entry key) Q
  | entryCreated {p : Phase} {key : Bytes} {v : Value} {Q : Entry → Phase → Prop} :
      key ∈ p.held → p.created = some (key, v) → (∀ t, Q ⟨v, t⟩ p) → Obeys r p (entry key) Q
  | assignValue {p : Phase} {key : Bytes} {v : Value} {Q : Unit → Phase → Prop} :
      key ∈ p.held → p.MayWrite r → r.stores → r.values v → Q () p.write →
      Obeys r p (assignValue key v) Q
  | assignDeadline {p : Phase} {key : Bytes} {t : Int64} {Q : Unit → Phase → Prop} :
      key ∈ p.held → p.MayWrite r → Q () (p.drop key) → Obeys r p (assignDeadline key t) Q
  | set {p : Phase} {key : Bytes} {v : Value} {t : Int64} {Q : Unit → Phase → Prop} :
      key ∈ r.keys → p.MayWrite r → r.values v → Q () (p.drop key) → Obeys r p (set key v t) Q
  | setAndLookup {p : Phase} {key : Bytes} {v : Value} {Q : Entry → Phase → Prop} :
      key ∈ r.keys → p.MayWrite r → r.values v → Q ⟨v, 0⟩ (p.create key v) →
      Obeys r p (setAndLookup r.env key v) Q
  | delete {p : Phase} {key : Bytes} {Q : Bool → Phase → Prop} :
      key ∈ r.keys → key ∈ p.held ∨ r.blind = true → p.MayWrite r → (∀ b, Q b (p.drop key)) →
      Obeys r p (delete key) Q
  | first {p : Phase} {f : Bytes → Bytes} {v : Reply} {Q : Unit → Phase → Prop} :
      (∀ out, f out = out ++ v.encode) → v.WellFormed → v.isError = false → p.answer = .none →
      Q () (p.reply (.left 0)) → Obeys r p (emit f) Q
  | header {p : Phase} {f : Bytes → Bytes} {n : ℕ} {Q : Unit → Phase → Prop} :
      (∀ out, f out = out ++ Reply.header n) → p.answer = .none →
      Q () (p.reply (.left n)) → Obeys r p (emit f) Q
  | values {p : Phase} {f : Bytes → Bytes} {vs : List Reply} {n : ℕ} {Q : Unit → Phase → Prop} :
      (∀ out, f out = out ++ Reply.encodeAll vs) → Reply.AllWellFormed vs →
      p.answer = .left (n + vs.length) → Q () (p.reply (.left n)) → Obeys r p (emit f) Q
  | inner {p : Phase} {f : Bytes → Bytes} {n k : ℕ} {Q : Unit → Phase → Prop} :
      (∀ out, f out = out ++ Reply.header k) → p.answer = .left (n + 1) →
      Q () (p.reply (.left (n + k))) → Obeys r p (emit f) Q
  | error {p : Phase} {s : Bytes} {Q : Unit → Phase → Prop} :
      s ∈ r.text → p.stage = .clean ∨ r.lax = true → p.answer = .none →
      Q () (p.reply .failed) → Obeys r p (replyError s) Q
  | session {p : Phase} {g : Session → Session} {Q : Unit → Phase → Prop} :
      (∀ s, (g s).dbIndex = s.dbIndex) →
      r.quits = true ∨ (∀ s, (g s).quitRequested = s.quitRequested) → Q () p →
      Obeys r p (modify fun w => { w with cs := g w.cs }) Q
  | select {p : Phase} {i : DbIndex} {Q : Unit → Phase → Prop} :
      r.moves = true → p.stage = .clean → p.answer = .none →
      Q () { p with held := ∅, stage := .moved } →
      Obeys r p (modify fun w => { w with cs := { w.cs with dbIndex := i } }) Q
  | aside {p : Phase} {g : World → World} {Q : Unit → Phase → Prop} :
      Aside g → Q () p → Obeys r p (modify g) Q
  | get {p : Phase} {Q : World → Phase → Prop} :
      r.whole = true → (∀ w, Q w p) → Obeys r p get Q
  | table {p : Phase} {Q : Table → Phase → Prop} :
      r.whole = true → (∀ t, Q t p) → Obeys r p table Q
  | sweep {α : Type} {p : Phase} {m : M α} {Q : α → Phase → Prop} :
      r.loose = true → Sweeps r.env m → Runs r.keeps r.faults m → p.stage ≠ .fresh →
      (∀ a, Q a ⟨∅, none, p.stage, p.answer⟩) → Obeys r p m Q
  | loose {α : Type} {p : Phase} {m : M α} {Q : α → Phase → Prop} :
      r.loose = true → OnlyDb m → Runs r.keeps r.faults m → p.MayWrite r →
      (∀ a, Q a ⟨∅, none, .dirty, p.answer⟩) → Obeys r p m Q

/-- The reply is complete. -/
def Finished (_ : Unit) (p : Phase) : Prop := p.answer = .failed ∨ p.answer = .left 0

variable {r : Rules} {p : Phase} {α β T : Type} {argv : Args} {k : Kind T} {empty : T}

/-! ## Steps that only compute -/

/-- A program that reads the environment, and does nothing else. It returns a value with `P`. -/
def Idle (m : M α) (P : α → Prop) : Prop :=
  ∀ (r : Rules) (p : Phase) (Q : α → Phase → Prop), p.stage ≠ .fresh → (∀ a, P a → Q a p) →
    Obeys r p m Q

namespace Idle

variable {P : α → Prop} {P' : β → Prop}

/-- A value. -/
theorem pure {a : α} (ha : P a) : Idle (pure a : M α) P := fun _ _ _ _ h => .pure (h a ha)

/-- A fault that all rules allow. -/
theorem fault {f : CommandFault} (hf : Benign f) : Idle (fault f : M α) P :=
  fun r _ _ _ _ => .fault (r.stable.benign f hf)

/-- A reading of the clock. -/
theorem tick : Idle tick fun _ => True := fun _ _ _ hp h => .tick hp fun n => h n trivial

/-- Less is said of the value. -/
theorem forget {m : M α} (hm : Idle m P) : Idle m fun _ => True :=
  fun r p Q hp h => hm r p Q hp fun a _ => h a trivial

/-- One computation after another. -/
theorem bind {m : M α} {f : α → M β} (hm : Idle m P) (hf : ∀ a, P a → Idle (f a) P') :
    Idle (m >>= f) P' := by
  intro r p Q hp h
  refine (hm r p (fun a p' => P a ∧ p' = p) hp fun _ ha => ⟨ha, rfl⟩).bind fun a p' ha => ?_
  obtain ⟨ha, rfl⟩ := ha
  exact hf a ha r p' Q hp h

/-- Either of two computations. -/
theorem ite [Decidable c] {m m' : M α} (hm : c → Idle m P) (hm' : ¬c → Idle m' P) :
    Idle (if c then m else m') P := by
  split_ifs with hc
  · exact hm hc
  · exact hm' hc

/-- A reading of the clock, or of another source of the environment. -/
theorem reading {f : ℕ → α} (hf : ∀ n, P (f n)) :
    Idle (Commands.tick >>= fun n => Pure.pure (f n)) P :=
  bind tick fun n _ => pure (hf n)

end Idle

namespace Obeys

variable {Q : β → Phase → Prop}

/-- A program that only computes, and then the rest. -/
theorem idle {m : M α} {f : α → M β} {P : α → Prop} (hm : Idle m P) (hp : p.stage ≠ .fresh)
    (hf : ∀ a, P a → Obeys r p (f a) Q) : Obeys r p (m >>= f) Q := by
  refine (hm r p (fun a p' => P a ∧ p' = p) hp fun _ ha => ⟨ha, rfl⟩).bind fun a p' ha => ?_
  obtain ⟨ha, rfl⟩ := ha
  exact hf a ha

/-- Nothing comes after a fault. -/
theorem fault_bind {e : CommandFault} {f : α → M β} (he : r.faults e) :
    Obeys r p (Commands.fault e >>= f) Q :=
  (Obeys.fault he).bind fun _ _ (h : False) => h.elim

/-- A handler that needs no lookup to go by. -/
theorem settle {m : M β} (h : Obeys r .start m Q) : Obeys r .fresh m Q :=
  h.forget (le_refl _) (.inl rfl) (.inr ⟨rfl, rfl⟩) rfl

/-- Either of two programs. -/
theorem ite [Decidable c] {m m' : M β} (hm : c → Obeys r p m Q) (hm' : ¬c → Obeys r p m' Q) :
    Obeys r p (if c then m else m') Q := by
  split_ifs with h
  · exact hm h
  · exact hm' h

/-- `argv[i]`. -/
theorem arg {f : Bytes → M β} (hi : argv.length ≤ i → r.faults (.argvIndex i))
    (hf : ∀ s, argv[i]? = some s → Obeys r p (f s) Q) : Obeys r p (arg argv i >>= f) Q := by
  unfold Commands.arg
  cases hs : argv[i]? with
  | none => exact fault_bind (hi (getElem?_eq_none_iff.1 hs))
  | some s =>
    rw [pure_bind]
    exact hf s hs

/-- `argv[i]`, with an index in range. -/
theorem argLt {f : Bytes → M β} (hi : i < argv.length)
    (hf : ∀ s, argv[i]? = some s → Obeys r p (f s) Q) : Obeys r p (Commands.arg argv i >>= f) Q :=
  arg (fun hc => absurd hi (Nat.not_lt.2 hc)) hf

/-- An argument that is read only if it is there. -/
theorem argIf [Decidable c] {f : Option Bytes → M β} (hi : c → i < argv.length)
    (hf : ∀ o, Obeys r p (f o) Q) : Obeys r p (argIf c argv i >>= f) Q := by
  unfold Commands.argIf
  split_ifs with hc
  · rw [bind_assoc]
    refine argLt (hi hc) fun s _ => ?_
    rw [pure_bind]
    exact hf _
  · exact hf none

/-- A step that may find nothing, and changes nothing, and then an error or the rest. -/
theorem option {x : M (Option α)} {f : Option α → M β} (hx : Obeys r p x fun _ p' => p' = p)
    (hnone : Obeys r p (f none) Q) (hsome : ∀ a, Obeys r p (f (some a)) Q) :
    Obeys r p (x >>= f) Q := by
  refine hx.bind ?_
  rintro o p rfl
  cases o with
  | none => exact hnone
  | some a => exact hsome a

/-- A sum or a product that is computed without overflow. -/
theorem checked {n : ℤ} {f : ℤ → M β} (hf : Obeys r p (f n) Q) : Obeys r p (checked n >>= f) Q := by
  unfold Commands.checked
  split_ifs
  · exact hf
  · exact fault_bind (r.stable.benign _ trivial)

end Obeys

/-- Arithmetic either overflows or yields its result. -/
theorem idle_checked (n : ℤ) : Idle (checked n) fun m => m = n :=
  .ite (fun _ => .pure rfl) fun _ => .fault trivial

/-- A step on a skip list either faults or returns. -/
theorem idle_liftSkipList (x : Except Fault α) : Idle (liftSkipList x) fun a => x = .ok a := by
  cases x with
  | ok a => exact .pure rfl
  | error f => exact .fault trivial

/-- The clock. -/
theorem idle_nowMs (env : Env) : Idle (nowMs env) fun _ => True := .reading fun _ => trivial

/-- The clock in microseconds. -/
theorem idle_nowUs (env : Env) : Idle (nowUs env) fun _ => True := .reading fun _ => trivial

/-- A random number. -/
theorem idle_randomBelow (env : Env) (n : ℕ) : Idle (randomBelow env n) fun _ => True :=
  .reading fun _ => trivial

/-- The order of iteration. -/
theorem idle_iterate (env : Env) (l : List α) : Idle (iterate env l) fun _ => True :=
  .reading fun _ => trivial

/-- A random level is in range. -/
theorem idle_randomLevel (env : Env) :
    Idle (randomLevel env) fun level => 0 < level ∧ level ≤ kMaxLevel :=
  .reading fun _ => SkipList.randomLevel_bounds _

/-! ## Typed values -/

/-- What a typed lookup makes of what it finds. -/
def LookupResult.ofEntry (t : ValueType) : Option Entry → LookupResult
  | none => .missing
  | some e => if typeOf e.value = t then .found else .wrongType

/-- The lookup of a key in the phase `p` may have this result, if it is the first one. -/
def Rules.Meets (r : Rules) (p : Phase) (t : ValueType) (key : Bytes) (res : LookupResult) : Prop :=
  p.stage = .fresh → ∃ o, r.finds key o ∧ .ofEntry t o = res

namespace Obeys

variable {Q : β → Phase → Prop} {key : Bytes} {f : Unit → M β}

/-- What is known of a phase can be forgotten. -/
theorem of_hold {m : M β} (h : Obeys r p m Q) : Obeys r (p.hold key) m Q :=
  h.forget (Set.subset_insert _ _) (.inr rfl) (.inl rfl) rfl

/-- `Lookup`, and then the rest. -/
theorem lookup_bind {f : Option Entry → M β} (hkey : key ∈ r.keys)
    (hp : p.stage = .clean ∨ p.stage = .fresh)
    (hnone : (p.stage = .fresh → r.finds key none) → Obeys r p.looked (f none) Q)
    (hsome : ∀ e, r.values e.value → (p.stage = .fresh → r.finds key (some e)) →
      Obeys r (p.looked.hold key) (f (some e)) Q) :
    Obeys r p (Commands.lookup r.env key >>= f) Q := by
  have hlook : Obeys r p (Commands.lookup r.env key) fun o p' => Obeys r p' (f o) Q :=
    .lookup hkey hp hnone hsome
  exact hlook.bind fun _ _ h => h

/-- The value that a typed pointer points to. -/
theorem deref {f : T → M β} (hkey : key ∈ p.held)
    (hf : ∀ t, r.values (k.put t) → Obeys r p (f t) Q) :
    Obeys r p (deref k (some key) >>= f) Q := by
  have hread : Obeys r p (Commands.deref k (some key)) fun t p' => Obeys r p' (f t) Q := by
    refine (Obeys.entry (Q := fun e p' => r.values e.value ∧ p' = p) hkey
      fun _ he => ⟨he, rfl⟩).bind fun e p' he => ?_
    obtain ⟨he, rfl⟩ := he
    cases hk : k.get e.value with
    | none => exact .fault (r.stable.benign _ trivial)
    | some t =>
      refine .pure (hf t ?_)
      rw [k.put_of_get _ _ hk]
      exact he
  exact hread.bind fun _ _ h => h

/-- The value of a key that was just created. -/
theorem deref_created {f : T → M β} {t : T} (hkey : key ∈ p.held)
    (hp : p.created = some (key, k.put t)) (hf : Obeys r p (f t) Q) :
    Obeys r p (Commands.deref k (some key) >>= f) Q := by
  have hread : Obeys r p (Commands.deref k (some key)) fun t' p' => t' = t ∧ p' = p := by
    refine (Obeys.entryCreated (Q := fun e p' => e.value = k.put t ∧ p' = p) hkey hp
      fun _ => ⟨rfl, rfl⟩).bind fun e p' hp' => ?_
    obtain ⟨he, rfl⟩ := hp'
    rw [he, k.get_put]
    exact .pure ⟨rfl, rfl⟩
  refine hread.bind fun t' p' hp' => ?_
  obtain ⟨rfl, rfl⟩ := hp'
  exact hf

/-- A null pointer. -/
theorem deref_null {f : T → M β} (hnull : r.faults .nullHandle) :
    Obeys r p (Commands.deref k none >>= f) Q := fault_bind hnull

/-- The value that was found, or a default. -/
theorem derefOr {d : T} {st : LookupResult} {h : Handle} {f : T → M β}
    (hst : p.Points N st h) (hf : ∀ t, (st = .missing → t = d) → Obeys r p (f t) Q) :
    Obeys r p (derefOr k d st h >>= f) Q := by
  rcases hst with ⟨-, rfl, rfl⟩ | ⟨key, hkey, rfl, rfl⟩
  · exact hf d fun _ => rfl
  · exact deref hkey fun t _ => hf t fun hc => by cases hc

/-- `Set`, and then the rest. -/
theorem set_bind {t : Int64} (hkey : key ∈ r.keys) (hp : p.MayWrite r) (hv : r.values v)
    (hf : Obeys r (p.drop key) (f ()) Q) : Obeys r p (Commands.set key v t >>= f) Q := by
  have hset : Obeys r p (Commands.set key v t) fun _ p' => Obeys r p' (f ()) Q :=
    .set hkey hp hv hf
  exact hset.bind fun _ _ h => h

/-- `Delete`, and then the rest. -/
theorem delete_bind {f : Bool → M β} (hkey : key ∈ r.keys) (hheld : key ∈ p.held ∨ r.blind = true)
    (hp : p.MayWrite r) (hf : ∀ b, Obeys r (p.drop key) (f b) Q) :
    Obeys r p (Commands.delete key >>= f) Q := by
  refine (Obeys.delete (Q := fun _ p' => p' = p.drop key) hkey hheld hp fun _ => rfl).bind
    fun b p' hp' => ?_
  subst hp'
  exact hf b

/-- The state of the server is read, and then the rest. -/
theorem get_bind {f : World → M β} (h : r.whole = true) (hf : ∀ w, Obeys r p (f w) Q) :
    Obeys r p (Bind.bind MonadState.get f) Q :=
  (Obeys.get (Q := fun w p' => Obeys r p' (f w) Q) h hf).bind fun _ _ h => h

/-- The table is read, and then the rest. -/
theorem table_bind {f : Table → M β} (h : r.whole = true) (hf : ∀ t, Obeys r p (f t) Q) :
    Obeys r p (Commands.table >>= f) Q :=
  (Obeys.table (Q := fun t p' => Obeys r p' (f t) Q) h hf).bind fun _ _ h => h

/-- A new deadline, and then the rest. -/
theorem assignDeadline_bind {t : Int64} (hkey : key ∈ p.held) (hp : p.MayWrite r)
    (hf : Obeys r (p.drop key) (f ()) Q) : Obeys r p (Commands.assignDeadline key t >>= f) Q := by
  refine (Obeys.assignDeadline (Q := fun _ p' => p' = p.drop key) hkey hp rfl).bind
    fun _ p' hp' => ?_
  subst hp'
  exact hf

/-- A write through a typed pointer. -/
theorem store_last {t : T} {Q : Unit → Phase → Prop} (hkey : key ∈ p.held)
    (hp : p.MayWrite r) (hst : r.stores) (ht : r.values (k.put t)) (hQ : Q () p.write) :
    Obeys r p (Commands.store k (some key) t) Q :=
  .assignValue hkey hp hst ht hQ

/-- A write through a typed pointer, and then the rest. -/
theorem store {t : T} (hkey : key ∈ p.held) (hp : p.MayWrite r) (hst : r.stores)
    (ht : r.values (k.put t)) (hf : Obeys r p.write (f ()) Q) :
    Obeys r p (Commands.store k (some key) t >>= f) Q :=
  (store_last (Q := fun _ p' => Obeys r p' (f ()) Q) hkey hp hst ht hf).bind fun _ _ h => h

/-- `GetTyped`. -/
theorem getTyped {f : LookupResult × Handle → M β} (hkey : key ∈ r.keys)
    (hp : p.stage = .clean ∨ p.stage = .fresh)
    (hmissing : r.Meets p k.type key .missing → Obeys r p.looked (f (.missing, none)) Q)
    (hwrong : Obeys r p.looked (f (.wrongType, none)) Q)
    (hfound : r.Meets p k.type key .found →
      Obeys r (p.looked.hold key) (f (.found, some key)) Q) :
    Obeys r p (getTyped r.env k key >>= f) Q := by
  unfold Commands.getTyped
  rw [bind_assoc]
  refine lookup_bind hkey hp (fun hfinds => ?_) fun e _ hfinds => ?_
  · dsimp only
    rw [pure_bind]
    exact hmissing fun hfresh => ⟨none, hfinds hfresh, rfl⟩
  · dsimp only
    cases hk : k.get e.value with
    | none =>
      rw [pure_bind]
      exact hwrong.of_hold
    | some t =>
      rw [pure_bind]
      exact hfound fun hfresh => ⟨some e, hfinds hfresh, if_pos (k.type_of_get hk)⟩

/-- Look a key up, and create it if it is missing. -/
theorem findOrCreate {f : Handle → M β} (hkey : key ∈ r.keys)
    (hp : p.stage = .clean ∨ p.stage = .fresh) (hmay : p.looked.MayWrite r)
    (hempty : r.values (k.put empty)) (hwrong : Obeys r p.looked (f none) Q)
    (hfound : r.Meets p k.type key .found → Obeys r (p.looked.hold key) (f (some key)) Q)
    (hnew : r.Meets p k.type key .missing →
      Obeys r (p.looked.create key (k.put empty)) (f (some key)) Q) :
    Obeys r p (findOrCreate r.env k empty key >>= f) Q := by
  unfold Commands.findOrCreate
  rw [bind_assoc]
  refine lookup_bind hkey hp (fun hfinds => ?_) fun e _ hfinds => ?_
  · dsimp only
    rw [bind_assoc]
    have hset : Obeys r p.looked (Commands.setAndLookup r.env key (k.put empty)) fun e p' =>
        e = ⟨k.put empty, 0⟩ ∧ p' = p.looked.create key (k.put empty) :=
      .setAndLookup hkey hmay hempty ⟨rfl, rfl⟩
    refine hset.bind fun e p' hp' => ?_
    obtain ⟨rfl, rfl⟩ := hp'
    dsimp only
    rw [k.get_put, pure_bind]
    exact hnew fun hfresh => ⟨none, hfinds hfresh, rfl⟩
  · dsimp only
    rw [pure_bind]
    cases hk : k.get e.value with
    | none =>
      rw [pure_bind]
      exact hwrong.of_hold
    | some t =>
      rw [pure_bind]
      exact hfound fun hfresh => ⟨some e, hfinds hfresh, if_pos (k.type_of_get hk)⟩

end Obeys

/-! ## Replies -/

/-- A program that appends one value, which is not an error. -/
structure Utters (m : M Unit) : Prop where
  intro ::
  emits : ∃ f v, m = emit f ∧ (∀ out, f out = out ++ Reply.encode v) ∧ v.WellFormed ∧
    v.isError = false

/-- A simple string. -/
theorem utters_replySimple (hs : OneLine s) : Utters (replySimple s) :=
  ⟨_, .simple s, rfl, fun out => append_assoc out _ _, hs, rfl⟩

/-- An integer. -/
theorem utters_replyInt (n : ℤ) : Utters (replyInt n) :=
  ⟨_, .int n, rfl, fun out => append_assoc out _ _, trivial, rfl⟩

/-- A bulk string. -/
theorem utters_replyBulk (s : Bytes) : Utters (replyBulk s) := by
  refine ⟨_, .bulk s, rfl, fun out => ?_, trivial, rfl⟩
  simp only [appendBulkReply, Reply.encode, append_assoc, cons_append]

/-- A null. -/
theorem utters_replyNullBulk : Utters replyNullBulk :=
  ⟨_, .nullBulk, rfl, fun out => append_assoc out _ _, trivial, rfl⟩

/-- An empty array. -/
theorem utters_replyEmptyArray : Utters replyEmptyArray :=
  ⟨_, .array [], rfl, fun out => append_assoc out _ _, trivial, rfl⟩

/-- An array of bulk strings. -/
theorem utters_replyBulkArray (items : List Bytes) : Utters (replyBulkArray items) :=
  ⟨_, .array (items.map .bulk), rfl, Reply.appendBulkArray_eq_encode items,
    Reply.allWellFormed_bulks items, rfl⟩

/-- A program that replies an error. -/
def Fails (m : M Unit) : Prop := ∃ s, m = replyError s ∧ OneLine s

/-- A value of the wrong type. -/
theorem fails_errWrongType : Fails errWrongType := ⟨_, rfl, by decide⟩

/-- A syntax error. -/
theorem fails_errSyntax : Fails errSyntax := ⟨_, rfl, by decide⟩

/-- An argument that is no integer. -/
theorem fails_errNotInt : Fails errNotInt := ⟨_, rfl, by decide⟩

/-- An argument that is no float. -/
theorem fails_errNotFloat : Fails errNotFloat := ⟨_, rfl, by decide⟩

/-- A field that is no integer. -/
theorem fails_errHashNotInt : Fails errHashNotInt := ⟨_, rfl, by decide⟩

/-- A sum that is not finite. -/
theorem fails_errIncrOverflow : Fails errIncrOverflow := ⟨_, rfl, by decide⟩

/-- A field that is no float. -/
theorem fails_errHashNotFloat : Fails errHashNotFloat := ⟨_, rfl, by decide⟩

namespace Obeys

variable {Q : β → Phase → Prop}

/-- The whole reply. -/
theorem whole {Q : Unit → Phase → Prop} (hm : Utters m) (ha : p.answer = .none)
    (hQ : Q () (p.reply (.left 0))) : Obeys r p m Q := by
  obtain ⟨g, v, rfl, hg, hv, he⟩ := hm
  exact .first hg hv he ha hQ

/-- The whole reply, and then the rest. -/
theorem utter (hm : Utters m) (ha : p.answer = .none) (hf : Obeys r (p.reply (.left 0)) (f ()) Q) :
    Obeys r p (m >>= f) Q := by
  refine (whole (Q := fun _ p' => p' = p.reply (.left 0)) hm ha rfl).bind fun _ p' hp' => ?_
  subst hp'
  exact hf

/-- The whole reply, at the end. -/
theorem finish (hm : Utters m) (ha : p.answer = .none) : Obeys r p m Finished :=
  whole hm ha (.inr rfl)

/-- The same, where it is seen from the phase that nothing was replied. -/
theorem done (hm : Utters m) : Obeys r ⟨held, created, stage, .none⟩ m Finished := finish hm rfl

/-- One of the missing elements. -/
theorem element {Q : Unit → Phase → Prop} (hm : Utters m) (ha : p.answer = .left (n + 1))
    (hQ : Q () (p.reply (.left n))) : Obeys r p m Q := by
  obtain ⟨g, v, rfl, hg, hv, -⟩ := hm
  have hone : ∀ out, g out = out ++ Reply.encodeAll [v] := by
    intro out
    rw [hg, Reply.encodeAll, Reply.encodeAll, append_nil]
  exact .values hone ⟨hv, trivial⟩ ha hQ

/-- One of the missing elements, and then the rest. -/
theorem element_bind (hm : Utters m) (ha : p.answer = .left (n + 1))
    (hf : Obeys r (p.reply (.left n)) (f ()) Q) : Obeys r p (m >>= f) Q := by
  refine (element (Q := fun _ p' => p' = p.reply (.left n)) hm ha rfl).bind fun _ p' hp' => ?_
  subst hp'
  exact hf

/-- The header of an array, and then its elements. -/
theorem replyArray (ha : p.answer = .none) (hf : Obeys r (p.reply (.left n)) (f ()) Q) :
    Obeys r p (replyArray n >>= f) Q := by
  refine (Obeys.header (n := n) (Q := fun _ p' => p' = p.reply (.left n))
    (fun out => append_assoc out _ _) ha rfl).bind fun _ p' hp' => ?_
  subst hp'
  exact hf

/-- Some elements that are bulk strings. -/
theorem replyBulks {items : List Bytes} (ha : p.answer = .left items.length) :
    Obeys r p (replyBulks items) Finished := by
  have hleft : p.answer = .left (0 + (items.map Reply.bulk).length) := by
    rw [length_map, Nat.zero_add]
    exact ha
  exact .values (Reply.foldl_appendBulkReply items) (Reply.allWellFormed_bulks items) hleft
    (.inr rfl)

/-- An error, and then the rest. -/
theorem fails (hm : Fails m) (hlines : ∀ s, OneLine s → s ∈ r.text)
    (hp : p.stage = .clean ∨ r.lax = true) (ha : p.answer = .none)
    (hf : Obeys r (p.reply .failed) (f ()) Q) : Obeys r p (m >>= f) Q := by
  obtain ⟨s, rfl, hs⟩ := hm
  refine (Obeys.error (Q := fun _ p' => p' = p.reply .failed) (hlines s hs) hp ha rfl).bind
    fun _ p' hp' => ?_
  subst hp'
  exact hf

/-- An error at the end. -/
theorem fail (hm : Fails m) (hlines : ∀ s, OneLine s → s ∈ r.text)
    (hp : p.stage = .clean ∨ r.lax = true) (ha : p.answer = .none) : Obeys r p m Finished := by
  obtain ⟨s, rfl, hs⟩ := hm
  exact .error (hlines s hs) hp ha (.inl rfl)

/-- A typed lookup, with an error for a value of another type. -/
theorem withTyped {key : Bytes} {body : LookupResult → Handle → M Unit}
    (hlines : ∀ s, OneLine s → s ∈ r.text) (hkey : key ∈ r.keys)
    (hp : p.stage = .clean ∨ p.stage = .fresh) (ha : p.answer = .none)
    (hmissing : r.Meets p k.type key .missing → Obeys r p.looked (body .missing none) Finished)
    (hfound : r.Meets p k.type key .found →
      Obeys r (p.looked.hold key) (body .found (some key)) Finished) :
    Obeys r p (withTyped r.env k key body) Finished := by
  exact getTyped hkey hp hmissing (fail fails_errWrongType hlines (.inl rfl) ha) hfound

end Obeys

/-! ## Loops -/

/-- Where a step of a loop leads. -/
def Step.Ends (N : ℕ → α → Phase → Prop) (S : β → Phase → Prop) : Step α β → Phase → Prop
  | .next i a, p => N i a p
  | .stop b, p => S b p

namespace Obeys

variable {I : ℕ → α → Phase → Prop} {S : β → Phase → Prop}

/-- A loop over `argv`, with the invariant `I`, and with `S` where it is left. -/
theorem argLoop {body : ℕ → α → M (Step α β)}
    (hbody : ∀ i a p, i < argv.length → I i a p →
      Obeys r p (body i a) (Step.Ends (fun j a p => i < j ∧ I j a p) S))
    (n i : ℕ) (a : α) (hn : argv.length ≤ i + n) (hI : I i a p) :
    Obeys r p (argLoop argv body n i a) (Step.Ends (fun j a p => argv.length ≤ j ∧ I j a p) S) := by
  induction n generalizing i a p with
  | zero => exact .pure ⟨hn, hI⟩
  | succ n ih =>
    rw [Commands.argLoop]
    refine ite (fun hi => ?_) fun hi => .pure ⟨Nat.le_of_not_lt hi, hI⟩
    refine (hbody i a p hi hI).bind fun s p' hs => ?_
    cases s with
    | next j a' => exact ih j a' (by have := hs.1; omega) hs.2
    | stop b => exact .pure hs

/-- A loop over `argv` without a way out. -/
theorem forArgs {stride : ℕ} {body : ℕ → α → M α} (hstride : 0 < stride)
    (hbody : ∀ i a p, i < argv.length → I i a p → Obeys r p (body i a) (I (i + stride))) (i : ℕ)
    (a : α) (hI : I i a p) :
    Obeys r p (forArgs argv stride body i a) fun a p => ∃ j, argv.length ≤ j ∧ I j a p := by
  have hloop : Obeys r p (Commands.argLoop argv (fun i a => do
      let a ← body i a
      Pure.pure (Step.next (β := Empty) (i + stride) a)) argv.length i a)
      (Step.Ends (fun j a p => argv.length ≤ j ∧ I j a p) fun _ _ => False) := by
    refine argLoop (fun i a p hi hI => ?_) argv.length i a (by omega) hI
    exact (hbody i a p hi hI).bind fun a' p' h => .pure ⟨by omega, h⟩
  refine hloop.bind fun s p' hs => ?_
  cases s with
  | next j a' => exact .pure ⟨j, hs⟩
  | stop b => exact hs.elim

/-- The options at the end of a command, from the argument `k` on, and then what they are for. -/
theorem options {body : ℕ → α → M (Step α Unit)} {k : ℕ} {o : α} {f : Step α Unit → M Unit}
    (hbody : ∀ i o, i < argv.length → Obeys r p (body i o)
      (Step.Ends (fun j _ p' => i < j ∧ p' = p) fun _ p' => p'.answer = .failed))
    (hstop : f (.stop ()) = Pure.pure ()) (hnext : ∀ i o, Obeys r p (f (.next i o)) Finished) :
    Obeys r p (Commands.argLoop argv body argv.length k o >>= f) Finished := by
  refine (argLoop (I := fun _ _ p' => p' = p) (S := fun _ p' => p'.answer = .failed)
    (fun i o p' hi hp' => hp' ▸ hbody i o hi) argv.length k _ (by omega) rfl).bind
    fun s p' hs => ?_
  cases s with
  | stop _ =>
    rw [hstop]
    exact .pure (.inl hs)
  | next i o =>
    obtain ⟨-, rfl⟩ := hs
    exact hnext i o

end Obeys

/-- The rules are made for the arguments `argv`, at least `n` of which are there. -/
structure Rules.Serves (r : Rules) (argv : Args) (n : ℕ) : Prop where
  keys : ∀ i s, argv[i + 1]? = some s → s ∈ r.keys
  lines : ∀ s, OneLine s → s ∈ r.text
  strings : Strings r.values argv
  reads : ∀ i, i < n → argv.length ≤ i → r.faults (.argvIndex i)

/-- The rules let a command write into the value of its first key, which it creates if it is
missing. -/
def Rules.Creates (r : Rules) (t : ValueType) (argv : Args) : Prop :=
  ∀ key, argv[1]? = some key → ∀ res, r.Meets .fresh t key res → res ≠ .wrongType → r.stores

/-- The rules let a command write into the value of its first key. -/
def Rules.Modifies (r : Rules) (t : ValueType) (argv : Args) : Prop :=
  ∀ key, argv[1]? = some key → r.Meets .fresh t key .found → r.stores

/-- The rules let a command use the pointer of a first key that is missing. -/
def Rules.Misses (r : Rules) (t : ValueType) (argv : Args) : Prop :=
  ∀ key, argv[1]? = some key → r.Meets .fresh t key .missing → r.faults .nullHandle

/-- A command has a pointer to the value of `key`, may write through it, and has not replied. -/
structure Rules.Owns (r : Rules) (key : Bytes) (p : Phase) : Prop where
  stores : r.stores
  held : key ∈ p.held
  may : p.MayWrite r
  answer : p.answer = .none

namespace Rules.Owns

variable {t : T} {key : Bytes} {f : Unit → M β} {Q : β → Phase → Prop}

/-- The pointer stays valid over a write through it. -/
theorem write (h : r.Owns key p) : r.Owns key p.write := ⟨h.stores, h.held, h.may.write, h.answer⟩

/-- It also stays valid when another key is looked up. -/
theorem hold (h : r.Owns key p) : r.Owns key (p.hold key') :=
  ⟨h.stores, Set.mem_insert_of_mem _ h.held, h.may.hold, h.answer⟩

/-- The key that was looked up can then be written as well. -/
theorem beside (h : r.Owns key p) : r.Owns key' (p.hold key') :=
  ⟨h.stores, Phase.mem_hold, h.may.hold, h.answer⟩

/-- A second key, which is created if it is missing. -/
theorem createBeside {f : Handle → M β} (h : r.Owns key p) (hp : p.stage = .clean)
    (hkey : key' ∈ r.keys) (hempty : r.values (k.put empty)) (hnone : Obeys r p.looked (f none) Q)
    (hsome : ∀ p, r.Owns key p → r.Owns key' p → Obeys r p (f (some key')) Q) :
    Obeys r p (Commands.findOrCreate r.env k empty key' >>= f) Q := by
  have hlooked : r.Owns key p.looked := ⟨h.stores, h.held, h.may.looked, h.answer⟩
  refine .findOrCreate hkey (.inl hp) h.may.looked hempty hnone
    (fun _ => hsome _ hlooked.hold hlooked.beside) fun _ => hsome _ ?_ ?_
  · exact ⟨h.stores, Set.mem_insert_of_mem _ h.held, h.may.looked.create, h.answer⟩
  · exact ⟨h.stores, Phase.mem_create, h.may.looked.create, h.answer⟩

/-- A write through the pointer, and then the rest. -/
theorem store (h : r.Owns key p) (ht : r.values (k.put t)) (hf : Obeys r p.write (f ()) Q) :
    Obeys r p (Commands.store k (some key) t >>= f) Q :=
  .store h.held h.may h.stores ht hf

/-- A write through the pointer, at the end of a step. -/
theorem store_last {Q : Unit → Phase → Prop} (h : r.Owns key p) (ht : r.values (k.put t))
    (hQ : Q () p.write) : Obeys r p (Commands.store k (some key) t) Q :=
  .store_last h.held h.may h.stores ht hQ

/-- A write through the pointer, and the whole reply. -/
theorem put {m : Unit → M Unit} (h : r.Owns key p) (ht : r.values (k.put t))
    (hm : Utters (m ())) : Obeys r p (Commands.store k (some key) t >>= m) Finished :=
  h.store ht (.finish hm h.answer)

end Rules.Owns

/-- A command that writes into the value of its first key, which it creates if it is missing. -/
theorem Obeys.create {key : Bytes} {f : Handle → M Unit}
    (hlines : ∀ s, OneLine s → s ∈ r.text) (hkey : key ∈ r.keys) (hw : r.writes = true)
    (hst : ∀ res, r.Meets .fresh k.type key res → res ≠ .wrongType → r.stores)
    (hempty : r.values (k.put empty)) (hnone : f none = errWrongType)
    (hbody : ∀ p, r.Owns key p → p.stage = .clean ∨ p.created = some (key, k.put empty) →
      Obeys r p (f (some key)) Finished) :
    Obeys r .fresh (Commands.findOrCreate r.env k empty key >>= f) Finished := by
  have hmay := Phase.mayWrite_start hw
  refine .findOrCreate hkey (.inr rfl) hmay hempty ?_ (fun hm => ?_) fun hm => ?_
  · rw [hnone]
    exact .fail fails_errWrongType hlines (.inl rfl) rfl
  · exact hbody _ ⟨hst .found hm nofun, Phase.mem_hold, hmay.hold, rfl⟩ (.inl rfl)
  · exact hbody _ ⟨hst .missing hm nofun, Phase.mem_create, hmay.create, rfl⟩ (.inr rfl)

namespace Rules.Serves

variable {body : Bytes → LookupResult → Handle → M Unit} {Q : β → Phase → Prop}

/-- The rules for more arguments serve a command that reads fewer. -/
theorem mono {m : ℕ} (h : r.Serves argv n) (hm : m ≤ n) : r.Serves argv m :=
  ⟨h.keys, h.lines, h.strings, fun i hi => h.reads i (hi.trans_le hm)⟩

/-- Every argument but the command's name may be used as a key. -/
theorem key (h : r.Serves argv n) (hi : 1 ≤ i) (hs : argv[i]? = some s) : s ∈ r.keys :=
  h.keys (i - 1) s (by rwa [Nat.sub_add_cancel hi])

/-- An argument that is there. -/
theorem arg {f : Bytes → M β} (h : r.Serves argv (n + i + 1))
    (hf : ∀ s, argv[i]? = some s → Obeys r p (f s) Q) : Obeys r p (Commands.arg argv i >>= f) Q :=
  .arg (h.reads i (by omega)) hf

/-- An error, as long as nothing was written and nothing was replied. -/
theorem failAt (h : r.Serves argv n) (hm : Fails m) (hp : p.stage = .clean)
    (ha : p.answer = .none) : Obeys r p m Finished :=
  .fail hm h.lines (.inl hp) ha

/-- The same, where it is seen from the phase. -/
theorem fail (h : r.Serves argv n) (hm : Fails m) :
    Obeys r ⟨held, created, .clean, .none⟩ m Finished :=
  h.failAt hm rfl rfl

/-- An argument that has to be a number. -/
theorem argIntAt {f : ℤ → M Unit} (h : r.Serves argv (n + i + 1)) (hp : p.stage = .clean)
    (ha : p.answer = .none) (hf : ∀ v, Obeys r p (f v) Finished) : Obeys r p (do
      match parseIntStrict (← Commands.arg argv i) with
      | none => errNotInt
      | some v => f v) Finished := by
  refine h.arg fun s _ => ?_
  split
  · exact h.failAt fails_errNotInt hp ha
  · exact hf _

/-- The same, where it is seen from the phase that nothing was written or replied. -/
theorem argInt {f : ℤ → M Unit} (h : r.Serves argv (n + i + 1))
    (hf : ∀ v, Obeys r ⟨held, created, .clean, .none⟩ (f v) Finished) :
    Obeys r ⟨held, created, .clean, .none⟩ (do
      match parseIntStrict (← Commands.arg argv i) with
      | none => errNotInt
      | some v => f v) Finished :=
  h.argIntAt rfl rfl hf

/-- A command that looks up its first key, after other steps or at the start. -/
theorem openIn (h : r.Serves argv n) (hn : 1 < n) (hp : p.stage = .clean ∨ p.stage = .fresh)
    (ha : p.answer = .none)
    (hmissing : ∀ key, argv[1]? = some key → r.Meets p k.type key .missing →
      Obeys r p.looked (body key .missing none) Finished)
    (hfound : ∀ key, argv[1]? = some key → r.Meets p k.type key .found →
      Obeys r (p.looked.hold key) (body key .found (some key)) Finished) : Obeys r p (do
      let key ← Commands.arg argv 1
      withTyped r.env k key (body key)) Finished :=
  .arg (h.reads 1 hn) fun key hkey => .withTyped h.lines (h.keys 0 key hkey) hp ha
    (hmissing key hkey) (hfound key hkey)

/-- A command that looks up its first key. -/
theorem look (h : r.Serves argv (n + 2))
    (hmissing : ∀ key, Obeys r .start (body key .missing none) Finished)
    (hfound : ∀ key, argv[1]? = some key →
      Obeys r (Phase.start.hold key) (body key .found (some key)) Finished) : Obeys r .start (do
      let key ← Commands.arg argv 1
      withTyped r.env k key (body key)) Finished :=
  h.openIn (by omega) (.inl rfl) rfl (fun key _ _ => hmissing key) fun key hkey _ => hfound key hkey

/-- A command that looks up its first key, and writes into the value that it finds. -/
theorem modify (h : r.Serves argv (n + 2)) (hw : r.writes = true) (hst : r.Modifies k.type argv)
    (hmissing : ∀ key, Obeys r .start (body key .missing none) Finished)
    (hfound : ∀ key, argv[1]? = some key → r.Owns key (Phase.start.hold key) →
      Obeys r (Phase.start.hold key) (body key .found (some key)) Finished) : Obeys r .fresh (do
      let key ← Commands.arg argv 1
      withTyped r.env k key (body key)) Finished :=
  h.openIn (by omega) (.inr rfl) rfl (fun key _ _ => hmissing key) fun key hkey hm =>
    hfound key hkey ⟨hst key hkey hm, Phase.mem_hold, (Phase.mayWrite_start hw).hold, rfl⟩

/-- A command that treats a missing value and one that was found alike. -/
theorem points {N : Prop} (h : r.Serves argv n) (hn : 1 < n)
    (hp : p.stage = .clean ∨ p.stage = .fresh) (ha : p.answer = .none)
    (hnull : ∀ key, argv[1]? = some key → r.Meets p k.type key .missing → N)
    (hbody : ∀ key p' st d, key ∈ r.keys → p'.stage = .clean → p'.answer = .none →
      p'.Points N st d → Obeys r p' (body key st d) Finished) : Obeys r p (do
      let key ← Commands.arg argv 1
      withTyped r.env k key (body key)) Finished :=
  h.openIn hn hp ha
    (fun key hkey hm =>
      hbody key _ _ _ (h.keys 0 key hkey) rfl ha (.inl ⟨hnull key hkey hm, rfl, rfl⟩))
    fun key hkey _ =>
      hbody key _ _ _ (h.keys 0 key hkey) rfl ha (.inr ⟨key, Phase.mem_hold, rfl, rfl⟩)

/-- The same for a command that uses the pointer only if there is one. -/
theorem read (h : r.Serves argv (n + 2))
    (hbody : ∀ key p' st d, key ∈ r.keys → p'.stage = .clean → p'.answer = .none →
      p'.Points True st d → Obeys r p' (body key st d) Finished) : Obeys r .start (do
      let key ← Commands.arg argv 1
      withTyped r.env k key (body key)) Finished :=
  h.points (by omega) (.inl rfl) rfl (fun _ _ _ => trivial) hbody

/-- A command that writes into the value of its first argument, which it creates if it is
missing. -/
theorem create {f : Bytes → Handle → M Unit} (h : r.Serves argv (n + 2))
    (hw : r.writes = true) (hst : r.Creates k.type argv) (hempty : r.values (k.put empty))
    (hnone : ∀ key, f key none = errWrongType)
    (hbody : ∀ key p, r.Owns key p → p.stage = .clean ∨ p.created = some (key, k.put empty) →
      Obeys r p (f key (some key)) Finished) : Obeys r .fresh (do
      let key ← Commands.arg argv 1
      let d ← findOrCreate r.env k empty key
      f key d) Finished :=
  h.arg fun key hkey => .create h.lines (h.keys 0 key hkey) hw (hst key hkey) hempty (hnone key)
    fun p => hbody key p

/-- A command that takes its arguments from the third on out of a value. The step for one of them
uses the pointer of a key that is missing. -/
theorem removeArgs {f : LookupResult → Handle → ℕ → ℕ → M ℕ} (h : r.Serves argv (n + 2))
    (hw : r.writes = true) (hnull : r.Misses k.type argv) (hst : r.Modifies k.type argv)
    (hmissing : ∀ p i c, r.faults .nullHandle → i < argv.length →
      Obeys r p (f .missing none i c) fun _ _ => False)
    (hfound : ∀ p key i c, i < argv.length → r.Owns key p →
      Obeys r p (f .found (some key) i c) fun _ => r.Owns key) : Obeys r .fresh (do
      let key ← Commands.arg argv 1
      withTyped r.env k key fun st p => do
        let c ← forArgs argv 1 (f st p) 2 0
        replyInt c) Finished := by
  refine h.openIn (by omega) (.inr rfl) rfl (fun key hkey hm => ?_) fun key hkey hm => ?_
  · refine (Obeys.forArgs (I := fun _ _ p => p.answer = .none) Nat.one_pos ?_ 2 0 rfl).bind
      fun c p ⟨_, _, ha⟩ => .finish (utters_replyInt _) ha
    exact fun i c p hi _ => (hmissing p i c (hnull key hkey hm) hi).imp fun _ _ hc => hc.elim
  · refine (Obeys.forArgs (I := fun _ _ p => r.Owns key p) Nat.one_pos
      (fun i c p hi ho => hfound p key i c hi ho) 2 0 ⟨hst key hkey hm, Phase.mem_hold,
        (Phase.mayWrite_start hw).hold, rfl⟩).bind
      fun c p ⟨_, _, ho⟩ => .finish (utters_replyInt _) ho.answer

end Rules.Serves

end TinyRedis.Commands

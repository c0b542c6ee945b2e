import TinyRedis.Db.Accounting

/-!
# Runs of calls of `Database`

A run is any list of calls of the functions of `Database`. `MemSub` has a branch for the case that
less is used than is to be subtracted. To say that it is never taken, the functions are written once
more with `MemSub` as a parameter: with `memSub` in its place they are the functions of the model,
and with `memSubExact` they stop where that branch would be taken.
-/

namespace TinyRedis.Database

open Lib

/-! ## `ActiveExpireCycle` -/

/-- What `ActiveExpireCycle` reads for each key space: a random number, the clock, and the order in
which the keys come. -/
structure CycleReadings where
  rng : DbIndex → ℕ
  now : DbIndex → Int64
  order : DbIndex → List (Bytes × Entry) → List (Bytes × Entry)
  order_perm : ∀ i l, (order i l).Perm l

/-- `ActiveExpireCycle`: the number of keys that were deleted, and the database. -/
def activeExpireCycle (r : CycleReadings) (db : Database) : ℕ × Database :=
  (List.finRange kNumDatabases).foldl
    (fun s i => expireTable i (r.rng i) (r.order i (s.2.table i).toList) (r.now i) s) (0, db)

/-! ## Calls -/

/-- A call of a function of `Database` that writes to it. -/
inductive Call where
  | set (i : DbIndex) (key : Bytes) (value : Value) (expiresAtMs : Int64)
  | delete (i : DbIndex) (key : Bytes)
  | lookup (i : DbIndex) (key : Bytes) (now : Int64)
  | flushDb (i : DbIndex)
  | flushAll
  | activeExpireCycle (r : CycleReadings)

/-- The database after a call. -/
def Call.step (db : Database) : Call → Database
  | .set i key value expiresAtMs => db.set i key value expiresAtMs
  | .delete i key => (db.delete i key).2
  | .lookup i key now => (db.lookup i key now).2
  | .flushDb i => db.flushDb i
  | .flushAll => db.flushAll
  | .activeExpireCycle r => (db.activeExpireCycle r).2

/-- The database after some calls. -/
def runCalls (calls : List Call) (db : Database) : Database := calls.foldl Call.step db

/-! ## `MemSub` as a parameter -/

section With

variable {m : Type → Type} [Monad m] (sub : Database → ℕ → m Database)

/-- `Lookup`, without the entry. -/
def lookupWith (db : Database) (i : DbIndex) (key : Bytes) (now : Int64) : m Database :=
  match (db.table i).lookup key with
  | none => pure db
  | some e =>
    if expired e now then do
      let db ← sub db (entrySize key e)
      let db := db.setTable i ((db.table i).erase key)
      pure { db with totalExpired := db.totalExpired + 1 }
    else pure db

/-- `Set`. -/
def setWith (db : Database) (i : DbIndex) (key : Bytes) (value : Value) (expiresAtMs : Int64) :
    m Database := do
  let e : Entry := ⟨value, expiresAtMs⟩
  let db ← match (db.table i).lookup key with
    | none => pure db
    | some old => sub db (entrySize key old)
  pure ((db.setTable i ((db.table i).insert key e)).memAdd (entrySize key e))

/-- `Delete`, without the result. -/
def deleteWith (db : Database) (i : DbIndex) (key : Bytes) : m Database :=
  match (db.table i).lookup key with
  | none => pure db
  | some e => do
    let db ← sub db (entrySize key e)
    pure (db.setTable i ((db.table i).erase key))

/-- `FlushDb`. -/
def flushDbWith (db : Database) (i : DbIndex) : m Database := do
  let db ← (db.table i).entries.foldlM (fun db kv => sub db (entrySize kv.1 kv.2)) db
  pure (db.setTable i ∅)

/-- One key of `ActiveExpireCycle`. -/
def expireKeyWith (i : DbIndex) (now : Int64) (s : ℕ × Database) (kv : Bytes × Entry) :
    m (ℕ × Database) :=
  if expired kv.2 now then do
    let db ← sub s.2 (entrySize kv.1 kv.2)
    let db := db.setTable i ((db.table i).erase kv.1)
    pure (s.1 + 1, { db with totalExpired := db.totalExpired + 1 })
  else pure s

/-- `ActiveExpireCycle` on one key space. -/
def expireTableWith (i : DbIndex) (rng : ℕ) (keys : List (Bytes × Entry)) (now : Int64)
    (s : ℕ × Database) : m (ℕ × Database) :=
  if keys = [] then pure s
  else
    let size := keys.length
    let offset := rng % if size < kSampleWindow then size else kSampleWindow
    ((keys.drop offset).take kSampleWindow).foldlM (expireKeyWith sub i now) s

/-- A call. -/
def Call.stepWith (db : Database) : Call → m Database
  | .set i key value expiresAtMs => setWith sub db i key value expiresAtMs
  | .delete i key => deleteWith sub db i key
  | .lookup i key now => lookupWith sub db i key now
  | .flushDb i => flushDbWith sub db i
  | .flushAll => (List.finRange kNumDatabases).foldlM (flushDbWith sub) db
  | .activeExpireCycle r => do
    let s ← (List.finRange kNumDatabases).foldlM (fun s i =>
      expireTableWith sub i (r.rng i) (r.order i (s.2.table i).toList) (r.now i) s) (0, db)
    pure s.2

end With

/-- `MemSub` without the branch that stops at zero. -/
def memSubExact (db : Database) (n : ℕ) : Option Database :=
  if n ≤ db.used then some { db with used := db.used - n } else none

/-! ## Where the subtraction is the one of the model -/

/-- A loop whose steps all succeed, by an invariant on what is left and the state. -/
theorem foldlM_eq_some {σ α : Type} {f : σ → α → Option σ} {g : σ → α → σ}
    (I : List α → σ → Prop)
    (h : ∀ a l s, I (a :: l) s → f s a = some (g s a) ∧ I l (g s a)) (l : List α) (s : σ)
    (hs : I l s) : l.foldlM f s = some (l.foldl g s) := by
  induction l generalizing s with
  | nil => rfl
  | cons a l ih =>
    obtain ⟨hstep, hrest⟩ := h a l s hs
    rw [List.foldlM_cons, hstep]
    exact ih _ hrest

section Agrees

variable {sub : Database → ℕ → Option Database} {db : Database} {i : DbIndex} {key : Bytes}
  {keys : List (Bytes × Entry)} {s : ℕ × Database}

/-- `FlushDb`, by an invariant on the entries that are left. -/
theorem flushDbWith_eq (I : List ((_ : Bytes) × Entry) → Database → Prop)
    (h : ∀ kv l db, I (kv :: l) db → sub db (entrySize kv.1 kv.2) =
      some (db.memSub (entrySize kv.1 kv.2)) ∧ I l (db.memSub (entrySize kv.1 kv.2)))
    (hdb : I (db.table i).entries db) : flushDbWith sub db i = some (db.flushDb i) := by
  unfold flushDbWith
  rw [foldlM_eq_some I h _ _ hdb]
  rfl

/-- One key of `ActiveExpireCycle`. -/
theorem expireKeyWith_eq {kv : Bytes × Entry} (now : Int64)
    (h : sub s.2 (entrySize kv.1 kv.2) = some (s.2.memSub (entrySize kv.1 kv.2))) :
    expireKeyWith sub i now s kv = some (expireKey i now s kv) := by
  unfold expireKeyWith expireKey
  split_ifs
  · rw [h]
    rfl
  · rfl

/-- Where the invariant `I` holds, the size of an entry is subtracted as in the model. -/
structure Agrees (sub : Database → ℕ → Option Database) (I : Database → Prop) : Prop where
  entry : ∀ {db i key e}, I db → (db.table i).lookup key = some e →
    sub db (entrySize key e) = some (db.memSub (entrySize key e))
  flush : ∀ {db} i, I db → flushDbWith sub db i = some (db.flushDb i)
  flushed : ∀ {db} i, I db → I (db.flushDb i)
  key : ∀ {s i kv} now, I s.2 → (s.2.table i).lookup kv.1 = some kv.2 → I (expireKey i now s kv).2

variable {I : Database → Prop} (h : Agrees sub I)

include h

/-- One key space of `ActiveExpireCycle`, in any order. -/
theorem Agrees.expireTable (rng : ℕ) (now : Int64) (hs : I s.2)
    (hkeys : keys.Perm (s.2.table i).toList) :
    expireTableWith sub i rng keys now s = some (expireTable i rng keys now s) ∧
      I (Database.expireTable i rng keys now s).2 := by
  refine ⟨?_, expireTable_keeps_of_perm (I := fun s => I s.2) rng hkeys hs
    fun _ _ he hs => h.key now hs he⟩
  unfold expireTableWith Database.expireTable
  split_ifs
  · rfl
  · refine foldlM_eq_some (fun l s => I s.2 ∧ Pending i l s) (fun kv l s hl => ?_) _ _
      ⟨hs, pending_of_perm hkeys (window_sublist keys _)⟩
    have he := hl.2.mem kv List.mem_cons_self
    exact ⟨expireKeyWith_eq now (h.entry hl.1 he), h.key now hl.1 he, hl.2.step now⟩

/-- The functions are those of the model. -/
theorem Agrees.stepWith (hdb : I db) (c : Call) : c.stepWith sub db = some (c.step db) := by
  cases c with
  | set i key value expiresAtMs =>
    show setWith sub db i key value expiresAtMs = some (db.set i key value expiresAtMs)
    unfold setWith set
    cases he : (db.table i).lookup key with
    | none => rfl
    | some e =>
      dsimp only
      rw [h.entry hdb he]
      rfl
  | delete i key =>
    show deleteWith sub db i key = some (db.delete i key).2
    unfold deleteWith delete
    cases he : (db.table i).lookup key with
    | none => rfl
    | some e =>
      dsimp only
      rw [h.entry hdb he]
      rfl
  | lookup i key now =>
    show lookupWith sub db i key now = some (db.lookup i key now).2
    unfold lookupWith lookup
    cases he : (db.table i).lookup key with
    | none => rfl
    | some e =>
      dsimp only
      rw [h.entry hdb he]
      split_ifs <;> rfl
  | flushDb i => exact h.flush i hdb
  | flushAll =>
    exact foldlM_eq_some (fun _ db => I db)
      (fun i _ _ hdb => ⟨h.flush i hdb, h.flushed i hdb⟩) _ _ hdb
  | activeExpireCycle r =>
    have hcycle := foldlM_eq_some (f := fun s i => expireTableWith sub i (r.rng i)
        (r.order i (s.2.table i).toList) (r.now i) s)
      (fun _ s => I s.2) (fun i _ _ hs => h.expireTable (r.rng i) (r.now i) hs (r.order_perm i _))
      (List.finRange kNumDatabases) (0, db) hdb
    unfold Call.stepWith
    dsimp only
    rw [hcycle]
    rfl

end Agrees

/-- With `MemSub` as it is, the functions are those of the model. -/
theorem stepWith_memSub (db : Database) (c : Call) :
    c.stepWith (fun db n => some (db.memSub n)) db = some (c.step db) := by
  have hagrees : Agrees (fun db n => some (db.memSub n)) fun _ => True :=
    ⟨fun _ _ => rfl, fun _ _ => flushDbWith_eq (fun _ _ => True) (fun _ _ _ _ => ⟨rfl, trivial⟩)
      trivial, fun _ _ => trivial, fun _ _ _ => trivial⟩
  exact hagrees.stepWith trivial c

/-! ## No branch that stops at zero -/

variable {db : Database}

/-- There is enough to subtract. -/
theorem memSubExact_eq {n : ℕ} (h : n ≤ db.used) : memSubExact db n = some (db.memSub n) := by
  unfold memSubExact memSub
  rw [if_pos h, if_pos h]

/-- `FlushDb` never stops at zero. -/
theorem flushDbWith_exact (hdb : db.Accounted) (i : DbIndex) :
    flushDbWith memSubExact db i = some (db.flushDb i) := by
  -- What is used is at least the sum of what is still to be subtracted.
  refine flushDbWith_eq (fun l db => (l.map fun kv => entrySize kv.1 kv.2).sum ≤ db.used)
    (fun kv l db hl => ?_) ?_
  · rw [List.map_cons, List.sum_cons] at hl
    refine ⟨memSubExact_eq (by omega), ?_⟩
    rw [used_memSub]
    omega
  · rw [hdb]
    exact tableSize_le_totalSize db i

/-- What is used is at least the size of any entry. -/
theorem agrees_exact : Agrees memSubExact Accounted where
  entry hdb he := memSubExact_eq (hdb ▸ entrySize_le_totalSize he)
  flush i hdb := flushDbWith_exact hdb i
  flushed i hdb := accounted_flushDb hdb i
  key now hdb he := accounted_expireKey now hdb he

/-- `ActiveExpireCycle` keeps the sum. -/
theorem accounted_activeExpireCycle (hdb : db.Accounted) (r : CycleReadings) :
    (db.activeExpireCycle r).2.Accounted := by
  unfold activeExpireCycle
  refine List.foldlRecOn (motive := fun s : ℕ × Database => s.2.Accounted) _ _ hdb ?_
  intro s hs i _
  exact accounted_expireTable (r.rng i) (r.now i) s hs (r.order_perm i _)

/-- `FlushAll` keeps the sum. -/
theorem accounted_flushAll (hdb : db.Accounted) : db.flushAll.Accounted := by
  unfold flushAll
  exact List.foldlRecOn (motive := Accounted) _ _ hdb fun db hdb i _ => accounted_flushDb hdb i

/-- Every call keeps the sum. -/
theorem accounted_step (hdb : db.Accounted) (c : Call) : (c.step db).Accounted := by
  cases c with
  | set i key value expiresAtMs => exact accounted_set hdb i key value expiresAtMs
  | delete i key => exact accounted_delete hdb i key
  | lookup i key now => exact accounted_lookup hdb i key now
  | flushDb i => exact accounted_flushDb hdb i
  | flushAll => exact accounted_flushAll hdb
  | activeExpireCycle r => exact accounted_activeExpireCycle hdb r

/-- Every run keeps the sum. -/
theorem accounted_runCalls (hdb : db.Accounted) (calls : List Call) :
    (runCalls calls db).Accounted :=
  List.foldlRecOn (motive := Accounted) _ _ hdb fun _ h c _ => accounted_step h c

/-- After any calls on a fresh database `used_memory` is the sum of the sizes of all entries, and
none of the calls has taken the branch of `MemSub` that stops at zero. -/
theorem calls_accounted (calls : List Call) :
    (runCalls calls empty).used = (runCalls calls empty).totalSize ∧
      calls.foldlM (Call.stepWith memSubExact) empty = some (runCalls calls empty) := by
  constructor
  · exact accounted_runCalls accounted_empty calls
  · exact foldlM_eq_some (fun _ db => db.Accounted)
      (fun c _ _ h => ⟨agrees_exact.stepWith h c, accounted_step h c⟩) _ _ accounted_empty

end TinyRedis.Database

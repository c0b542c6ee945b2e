import TinyRedis.Db.Model
import TinyRedis.Resp.Model

/-!
# What commands run in

The handlers of `src/commands.cpp` read and write the database, the state of the client, and the
output buffer. They are programs over a `World` here, and either return or meet a `CommandFault`.

What comes from outside is in the environment: the clock, random draws, the order in which an
unordered container is iterated over, the functions of the C library on floating-point numbers, and
whether a snapshot could be written. It is read through a counter, so that two readings of the clock
in one command may differ.

A pointer into the table is the key of the entry it points to, and null is `none`. No key is erased
and put in again while a handler holds a pointer to its entry, so a pointer is dangling if and only
if its key is not in the table.
-/

namespace TinyRedis.Commands

open Lib

/-- What a command can meet instead of returning. -/
inductive CommandFault where
  /-- `argv[i]` with `i` at or past `argv.size()`. -/
  | argvIndex (i : ℕ)
  /-- An access through a null pointer. -/
  | nullHandle
  /-- An access to an entry after it was erased from the table. -/
  | danglingHandle
  /-- Signed 64-bit arithmetic out of range. -/
  | signedOverflow
  /-- A container access past its end. -/
  | outOfRange
  /-- A loop that does not end. -/
  | diverges
  /-- `Dispatch` calls itself more often than it is allowed to. -/
  | recursion
  /-- A fault in a skip list. -/
  | skipList (f : Fault)
  deriving DecidableEq, Repr

/-! ## The environment -/

/-- A `long double`, whose format depends on the platform. -/
structure LongDouble where
  bits : ℕ
  deriving DecidableEq, Repr

/-- The C library and the processor on floating-point numbers. -/
structure Floats where
  /-- `strtod`: the number, and where it ends. -/
  strtod : Bytes → Double × ℕ
  /-- `a + b`. -/
  add : Double → Double → Double
  /-- `%.*g`. -/
  printG : ℕ → Double → Bytes
  /-- `strtold`. -/
  strtold : Bytes → LongDouble × ℕ
  /-- `a + b`. -/
  addLong : LongDouble → LongDouble → LongDouble
  /-- `0.0`. -/
  zeroLong : LongDouble
  isNaNLong : LongDouble → Bool
  isInfLong : LongDouble → Bool
  /-- `d == 0.0`. -/
  isZeroLong : LongDouble → Bool
  /-- `d > 0`. -/
  isPosLong : LongDouble → Bool
  /-- `%.17Lf`. -/
  printLong : LongDouble → Bytes

/-- `ServerOptions`, as far as commands read it. `num_databases` is never set, and is
`kNumDatabases`. -/
structure ServerOptions where
  port : ℤ
  dir : Bytes
  dbfilename : Bytes
  maxmemory : ℕ

/-- What commands read from outside. The numbers are those of the readings. -/
structure Env where
  opts : ServerOptions
  /-- `NowMs`. -/
  nowMs : ℕ → Int64
  /-- `NowUs`. -/
  nowUs : ℕ → Int64
  /-- A draw of a random generator. -/
  random : ℕ → ℕ
  /-- The draws of `RandomLevel`. -/
  flips : ℕ → ℕ → Bool
  /-- The order in which the elements of an unordered container come, or are shuffled into. -/
  order : {α : Type} → ℕ → List α → List α
  order_perm : ∀ {α : Type} (n : ℕ) (l : List α), (order n l).Perm l
  /-- The error of `SaveToFile`, if it fails. -/
  saveToFile : ℕ → Option Bytes
  /-- The error of `BgSaveFork`, if it fails. -/
  bgSaveFork : ℕ → Option Bytes
  /-- `time(nullptr)`. -/
  time : ℕ → ℤ
  floats : Floats

/-! ## The state -/

/-- `ServerStats`, as far as commands use it. -/
structure ServerStats where
  totalCommands : ℕ
  totalConnections : ℕ
  expiredKeys : ℕ
  startTimeUs : Int64
  connectedClients : ℕ
  shutdownRequested : Bool
  shutdownNosave : Bool

/-- `ClientState`, without the state of a transaction. Only `SELECT` writes `db_index`. -/
structure Session where
  dbIndex : DbIndex
  name : Bytes
  id : ℕ
  quitRequested : Bool

/-- What a handler reads and writes. -/
structure World where
  db : Database
  stats : ServerStats
  /-- `g_last_save`. -/
  lastSave : ℤ
  /-- The number of readings of the environment. -/
  tick : ℕ
  cs : Session
  out : Bytes

/-- A handler. -/
abbrev M := StateT World (Except CommandFault)

/-- `argv`. -/
abbrev Args := List Bytes

variable {α β T : Type}

/-- End with a fault. -/
def fault (f : CommandFault) : M α := fun _ => .error f

/-- The number of the next reading. -/
def tick : M ℕ := fun w => .ok (w.tick, { w with tick := w.tick + 1 })

/-- `argv[i]`. -/
def arg (argv : Args) (i : ℕ) : M Bytes :=
  match argv[i]? with
  | some s => pure s
  | none => fault (.argvIndex i)

/-- `argv[i]`, if a condition on the number of arguments holds. -/
def argIf (c : Prop) [Decidable c] (argv : Args) (i : ℕ) : M (Option Bytes) :=
  if c then do
    let s ← arg argv i
    pure (some s)
  else pure none

/-- A result of signed 64-bit arithmetic. -/
def checked (n : ℤ) : M ℤ := if -2^63 ≤ n ∧ n < 2^63 then pure n else fault .signedOverflow

/-- A call of a function of a skip list. -/
def liftSkipList (x : Except Fault α) : M α :=
  match x with
  | .ok a => pure a
  | .error f => fault (.skipList f)

/-- How a step of a loop over `argv` ends. -/
inductive Step (α β : Type) where
  /-- Go on at the index `i`. -/
  | next (i : ℕ) (a : α)
  /-- Leave the loop. -/
  | stop (b : β)

/-- `for (; i < argv.size();)`. Every step goes on at a higher index, so the loop takes no more
steps than `argv` has arguments. -/
def argLoop (argv : Args) (body : ℕ → α → M (Step α β)) : ℕ → ℕ → α → M (Step α β)
  | 0, i, a => pure (.next i a)
  | n + 1, i, a =>
    if i < argv.length then do
      match ← body i a with
      | .next i a => argLoop argv body n i a
      | .stop b => pure (.stop b)
    else pure (.next i a)

/-- `for (; i < argv.size(); i += stride)`, without a way out. -/
def forArgs (argv : Args) (stride : ℕ) (body : ℕ → α → M α) (i : ℕ) (a : α) : M α := do
  match ← argLoop argv (fun i a => do
      let a ← body i a
      pure (Step.next (β := Empty) (i + stride) a)) argv.length i a with
  | .next _ a => pure a

section Environment

variable (env : Env)

/-- `NowMs()`. -/
def nowMs : M ℤ := do
  let t ← tick
  pure (env.nowMs t).toInt

/-- `NowUs()`. -/
def nowUs : M ℤ := do
  let t ← tick
  pure (env.nowUs t).toInt

/-- `rng() % n`, an index into a container with `n` elements. -/
def randomBelow (n : ℕ) : M ℕ := do
  let t ← tick
  pure (env.random t % n)

/-- The elements of an unordered container, in the order of iteration. -/
def iterate (l : List α) : M (List α) := do
  let t ← tick
  pure (env.order t l)

/-- `RandomLevel()`. -/
def randomLevel : M ℕ := do
  let t ← tick
  pure (SkipList.randomLevel (env.flips t))

end Environment

/-! ## Replies -/

/-- Append to the output. -/
def emit (f : Bytes → Bytes) : M Unit := fun w => .ok ((), { w with out := f w.out })

/-- `AppendSimpleReply`. -/
def replySimple (s : Bytes) : M Unit := emit (Resp.appendSimpleReply · s)

/-- `AppendErrorReply`. -/
def replyError (s : Bytes) : M Unit := emit (Resp.appendErrorReply · s)

/-- `AppendIntReply`. -/
def replyInt (n : ℤ) : M Unit := emit (Resp.appendIntReply · n)

/-- `AppendBulkReply`. -/
def replyBulk (s : Bytes) : M Unit := emit (Resp.appendBulkReply · s)

/-- `AppendNullBulkReply`. -/
def replyNullBulk : M Unit := emit Resp.appendNullBulkReply

/-- `AppendArrayReply`. -/
def replyArray (n : ℤ) : M Unit := emit (Resp.appendArrayReply · n)

/-- `AppendEmptyArrayReply`. -/
def replyEmptyArray : M Unit := emit Resp.appendEmptyArrayReply

/-- `AppendBulkArray`. -/
def replyBulkArray (items : List Bytes) : M Unit := emit (Resp.appendBulkArray · items)

/-- A loop of `AppendBulkReply`. -/
def replyBulks (items : List Bytes) : M Unit := emit (items.foldl Resp.appendBulkReply ·)

/-- `ErrWrongArgs`. -/
def errWrongArgs (cmdLower : Bytes) : M Unit :=
  replyError (bytes "ERR wrong number of arguments for '" ++ cmdLower ++ bytes "' command")

/-- `ErrWrongType`. -/
def errWrongType : M Unit :=
  replyError (bytes "WRONGTYPE Operation against a key holding the wrong kind of value")

/-- `ErrSyntax`. -/
def errSyntax : M Unit := replyError (bytes "ERR syntax error")

/-- `ErrNotInt`. -/
def errNotInt : M Unit := replyError (bytes "ERR value is not an integer or out of range")

/-- `ErrNotFloat`. -/
def errNotFloat : M Unit := replyError (bytes "ERR value is not a valid float")

/-- `ErrHashNotInt`. -/
def errHashNotInt : M Unit := replyError (bytes "ERR hash value is not an integer")

/-- `ErrIncrOverflow`. -/
def errIncrOverflow : M Unit := replyError (bytes "ERR increment would produce NaN or Infinity")

/-- `ErrHashNotFloat`. -/
def errHashNotFloat : M Unit := replyError (bytes "ERR hash value is not a float")

/-- `ErrUnknownCommand`. -/
def errUnknownCommand (argv : Args) : M Unit := do
  let name ← arg argv 0
  let msg := bytes "ERR unknown command '" ++ name ++ bytes "'"
  if 1 < argv.length then do
    let first ← arg argv 1
    replyError (msg ++ bytes ", with args beginning with: '" ++ first ++ bytes "' ")
  else replyError msg

/-! ## The database -/

/-- `db.Lookup(cs.db_index, key)`. -/
def lookup (env : Env) (key : Bytes) : M (Option Entry) := fun w =>
  let r := w.db.lookup w.cs.dbIndex key (env.nowMs w.tick)
  .ok (r.1, { w with db := r.2, tick := w.tick + 1 })

/-- `db.Set(cs.db_index, key, value, expires_at_ms)`. -/
def set (key : Bytes) (value : Value) (expiresAtMs : Int64) : M Unit := fun w =>
  .ok ((), { w with db := w.db.set w.cs.dbIndex key value expiresAtMs })

/-- `db.Delete(cs.db_index, key)`. -/
def delete (key : Bytes) : M Bool := fun w =>
  let r := w.db.delete w.cs.dbIndex key
  .ok (r.1, { w with db := r.2 })

/-- `db.table(cs.db_index)`. -/
def table : M Table := fun w => .ok (w.db.table w.cs.dbIndex, w)

/-- The entry that a pointer points to. -/
def entry (key : Bytes) : M Entry := fun w =>
  match (w.db.table w.cs.dbIndex).lookup key with
  | some e => .ok (e, w)
  | none => .error .danglingHandle

/-- Write to the entry that a pointer points to. -/
def modifyEntry (key : Bytes) (f : Entry → Entry) : M Unit := fun w =>
  match (w.db.table w.cs.dbIndex).lookup key with
  | some e => .ok ((), { w with db := w.db.assign w.cs.dbIndex key (f e) })
  | none => .error .danglingHandle

/-- `e->value = value`. -/
def assignValue (key : Bytes) (value : Value) : M Unit :=
  modifyEntry key fun e => { e with value := value }

/-- `e->expires_at_ms = expires_at_ms`. -/
def assignDeadline (key : Bytes) (expiresAtMs : Int64) : M Unit :=
  modifyEntry key fun e => { e with expiresAtMs := expiresAtMs }

/-! ## Typed values -/

/-- One of the alternatives of `Value`. -/
structure Kind (T : Type) where
  type : ValueType
  /-- `std::get_if`. -/
  get : Value → Option T
  put : T → Value
  get_put : ∀ t, get (put t) = some t
  put_of_get : ∀ v t, get v = some t → put t = v
  get_eq_none : ∀ v, get v = none ↔ typeOf v ≠ type

/-- `RawString`. -/
def stringKind : Kind Bytes where
  type := .kString
  get
    | .rawString s => some s
    | _ => none
  put := .rawString
  get_put _ := rfl
  put_of_get v t h := by cases v <;> cases h; rfl
  get_eq_none v := by cases v <;> simp [typeOf]

/-- `HashValue`. -/
def hashKind : Kind (Dict Bytes Bytes) where
  type := .kHash
  get
    | .hash h => some h
    | _ => none
  put := .hash
  get_put _ := rfl
  put_of_get v t h := by cases v <;> cases h; rfl
  get_eq_none v := by cases v <;> simp [typeOf]

/-- `ListValue`. -/
def listKind : Kind (List Bytes) where
  type := .kList
  get
    | .list l => some l
    | _ => none
  put := .list
  get_put _ := rfl
  put_of_get v t h := by cases v <;> cases h; rfl
  get_eq_none v := by cases v <;> simp [typeOf]

/-- `SetValue`. -/
def setKind : Kind (Dict Bytes Unit) where
  type := .kSet
  get
    | .set s => some s
    | _ => none
  put := .set
  get_put _ := rfl
  put_of_get v t h := by cases v <;> cases h; rfl
  get_eq_none v := by cases v <;> simp [typeOf]

/-- `ZSetValue`. -/
def zsetKind : Kind ZSetValue where
  type := .kZSet
  get
    | .zset z => some z
    | _ => none
  put := .zset
  get_put _ := rfl
  put_of_get v t h := by cases v <;> cases h; rfl
  get_eq_none v := by cases v <;> simp [typeOf]

/-- `LookupResult`. -/
inductive LookupResult where
  | missing
  | found
  | wrongType
  deriving DecidableEq, Repr

/-- A pointer to a typed value, by the key of its entry. -/
abbrev Handle := Option Bytes

/-- `GetTyped`. The pointer is null unless the value is found. -/
def getTyped (env : Env) (k : Kind T) (key : Bytes) : M (LookupResult × Handle) := do
  match ← lookup env key with
  | none => pure (.missing, none)
  | some e =>
    match k.get e.value with
    | none => pure (.wrongType, none)
    | some _ => pure (.found, some key)

/-- The value that a typed pointer points to. -/
def deref (k : Kind T) (p : Handle) : M T :=
  match p with
  | none => fault .nullHandle
  | some key => do
    let e ← entry key
    match k.get e.value with
    | some t => pure t
    | none => fault .danglingHandle

/-- The value that a typed pointer points to, or a default if there is none. -/
def derefOr (k : Kind T) (default : T) (st : LookupResult) (p : Handle) : M T :=
  match st with
  | .found => deref k p
  | _ => pure default

/-- Write to the value that a typed pointer points to. -/
def store (k : Kind T) (p : Handle) (t : T) : M Unit :=
  match p with
  | none => fault .nullHandle
  | some key => assignValue key (k.put t)

/-- `GetTyped`, and an error if the value is of another type. -/
def withTyped (env : Env) (k : Kind T) (key : Bytes) (body : LookupResult → Handle → M Unit) :
    M Unit := do
  let (st, p) ← getTyped env k key
  match st with
  | .wrongType => errWrongType
  | st => body st p

/-- `db.Set(cs.db_index, key, value)`, and a lookup of the new entry. -/
def setAndLookup (env : Env) (key : Bytes) (value : Value) : M Entry := do
  set key value 0
  match ← lookup env key with
  | some e => pure e
  | none => fault .nullHandle

/-- Look a key up, and put an empty value in if it is missing. The pointer is null if there is a
value of another type. -/
def findOrCreate (env : Env) (k : Kind T) (empty : T) (key : Bytes) : M Handle := do
  let e ← match ← lookup env key with
    | some e => pure e
    | none => setAndLookup env key (k.put empty)
  match k.get e.value with
  | some _ => pure (some key)
  | none => pure none

/-- `GetOrCreateStringEntry`, and the string in the entry. -/
def getOrCreateString (env : Env) (key : Bytes) : M Handle := findOrCreate env stringKind [] key

/-- `HashOrCreate`. -/
def hashOrCreate (env : Env) (key : Bytes) : M Handle := findOrCreate env hashKind ∅ key

/-- `ListCreate`. -/
def listCreate (env : Env) (key : Bytes) : M Handle := findOrCreate env listKind [] key

/-- `SetCreate`. -/
def setCreate (env : Env) (key : Bytes) : M Handle := findOrCreate env setKind ∅ key

/-- `ZSetCreate`. -/
def zsetCreate (env : Env) (key : Bytes) : M Handle :=
  findOrCreate env zsetKind ⟨SkipList.empty, ∅⟩ key

end TinyRedis.Commands

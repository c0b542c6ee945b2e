import TinyRedis.Commands.Table

/-!
# `Dispatch` and the server

`Dispatch` either queues a command, when the client is in a transaction, or runs it. `EXEC` calls
`Dispatch` again for each command in the queue. The number of such calls within each other is a
parameter here; `Transactions.lean` shows that one level is enough.

The server is one database that is shared by any number of clients. It takes a step when a client
sends a command, and when it removes expired keys.
-/

namespace TinyRedis.Commands

/-- The state of a transaction in `ClientState`. -/
structure Tx where
  inMulti : Bool
  multiError : Bool
  multiQueue : List Args

/-- `Dispatch`, which handles the state of a transaction as well. -/
abbrev D := StateT Tx M

/-- The commands that are not queued. -/
def isControl (c : Cmd) : Bool := c ∈ ([.multi, .exec, .discard, .quit] : List Cmd)

/-- The gate for write commands when the memory is used up. -/
def gated (env : Env) (c : Cmd) (w : World) : Bool :=
  decide (0 < env.opts.maxmemory) && isWriteCommand c && decide (env.opts.maxmemory < w.db.used) &&
    decide (c ≠ .flushdb) && decide (c ≠ .flushall)

/-- The reply of the gate. -/
def errOom : M Unit :=
  replyError (bytes "OOM command not allowed when used memory > 'maxmemory'.")

/-- A command that passes the arity check, unless it is one of the transaction commands. -/
def runCommand (env : Env) (c : Cmd) (lower : Bytes) (argv : Args) : M Unit := fun w =>
  if gated env c w then errOom w else handler env lower argv c w

/-- A command that is queued. -/
def enqueue (r : Arity) (lower : Bytes) (argv : Args) : D Unit := fun tx => do
  if !arityOk r argv.length then do
    errWrongArgs lower
    pure ((), { tx with multiError := true })
  else do
    replySimple (bytes "QUEUED")
    pure ((), { tx with multiQueue := tx.multiQueue ++ [argv] })

/-- `MULTI`. -/
def multi : D Unit := fun tx =>
  if tx.inMulti then do
    replyError (bytes "ERR MULTI calls can not be nested")
    pure ((), tx)
  else do
    replySimple (bytes "OK")
    pure ((), ⟨true, false, []⟩)

/-- `DISCARD`. -/
def discard : D Unit := fun tx =>
  if !tx.inMulti then do
    replyError (bytes "ERR DISCARD without MULTI")
    pure ((), tx)
  else do
    replySimple (bytes "OK")
    pure ((), ⟨false, false, []⟩)

/-- The commands of a queue, one after another. -/
def runQueue (run : Args → D Unit) : List Args → D Unit
  | [] => pure ()
  | argv :: queue => do
    run argv
    runQueue run queue

/-- `EXEC`, with `run` the call of `Dispatch`. `multi_error` stays set when a transaction is
discarded. -/
def exec (run : Args → D Unit) : D Unit := fun tx =>
  if !tx.inMulti then do
    replyError (bytes "ERR EXEC without MULTI")
    pure ((), tx)
  else if tx.multiError then do
    replyError (bytes "EXECABORT Transaction discarded because of previous errors.")
    pure ((), ⟨false, tx.multiError, []⟩)
  else do
    replyArray tx.multiQueue.length
    runQueue run tx.multiQueue ⟨false, tx.multiError, []⟩

/-- A command that is run. All transaction commands take one argument, and are not write commands.
-/
def runOrControl (env : Env) (run : Args → D Unit) (r : Arity) (lower : Bytes) (argv : Args) :
    D Unit :=
  if !arityOk r argv.length then StateT.lift (errWrongArgs lower)
  else
    match r.cmd with
    | .multi => multi
    | .exec => exec run
    | .discard => discard
    | c => StateT.lift (runCommand env c lower argv)

/-- `Dispatch`, with at most `depth` calls within each other. -/
def dispatch (env : Env) : ℕ → Args → D Unit
  | 0, _ => StateT.lift (fault .recursion)
  | _ + 1, [] => pure ()
  | depth + 1, name :: args => fun tx =>
    match findCommand (toUpper name) with
    | none => do
      errUnknownCommand (name :: args)
      pure ((), if tx.inMulti then { tx with multiError := true } else tx)
    | some r =>
      if tx.inMulti && !isControl r.cmd then enqueue r (toLower name) (name :: args) tx
      else runOrControl env (dispatch env depth) r (toLower name) (name :: args) tx

/-! ## The server -/

/-- The server's side of a connection. -/
structure Client where
  session : Session
  tx : Tx
  out : Bytes

/-- The database, and the clients. -/
structure Server where
  db : Database
  stats : ServerStats
  lastSave : ℤ
  tick : ℕ
  clients : ℕ → Client

/-- What happens to a server. -/
inductive Event where
  /-- The client `i` sends a command. -/
  | call (i : ℕ) (argv : Args)
  /-- `ActiveExpireCycle` runs. -/
  | expire

namespace Server

/-- What a command of the client `i` reads and writes. -/
def world (s : Server) (i : ℕ) : World :=
  ⟨s.db, s.stats, s.lastSave, s.tick, (s.clients i).session, (s.clients i).out⟩

/-- The server after a command of the client `i`. -/
def update (s : Server) (i : ℕ) (tx : Tx) (w : World) : Server :=
  ⟨w.db, w.stats, w.lastSave, w.tick, Function.update s.clients i ⟨w.cs, tx, w.out⟩⟩

/-- `Dispatch` for the client `i`. -/
def call (env : Env) (i : ℕ) (argv : Args) (s : Server) : Except CommandFault Server := do
  let (((), tx), w) ← dispatch env 2 argv (s.clients i).tx (s.world i)
  .ok (s.update i tx w)

/-- `ActiveExpireCycle` on the key space `i`, with the number of keys that were deleted. -/
def expireOne (env : Env) (r : ℕ × Server) (i : DbIndex) : ℕ × Server :=
  let s := r.2
  let (deleted, db) := Database.expireTable i (env.random s.tick)
    (env.order (s.tick + 1) (s.db.table i).toList) (env.nowMs (s.tick + 2)) (r.1, s.db)
  (deleted, { s with db := db, tick := s.tick + 3 })

/-- `ActiveExpireCycle`, and the count of the keys. -/
def activeExpireCycle (env : Env) (s : Server) : Server :=
  let (deleted, s) := (List.finRange kNumDatabases).foldl (expireOne env) (0, s)
  { s with stats := { s.stats with expiredKeys := s.stats.expiredKeys + deleted } }

/-- One event. -/
def step (env : Env) (s : Server) : Event → Except CommandFault Server
  | .call i argv => s.call env i argv
  | .expire => .ok (s.activeExpireCycle env)

/-- Some events, one after another. -/
def run (env : Env) : List Event → Server → Except CommandFault Server
  | [], s => .ok s
  | e :: events, s => do
    let s ← s.step env e
    run env events s

/-- A server with an empty database, and clients that have sent nothing. -/
structure Initial (s : Server) : Prop where
  db : s.db = .empty
  tx : ∀ i, (s.clients i).tx = ⟨false, false, []⟩
  dbIndex : ∀ i, (s.clients i).session.dbIndex.val = 0

end Server

/-! ## A server at rest -/

/-- Floating-point functions that read every text as zero. -/
def stillFloats : Floats where
  strtod s := (⟨0⟩, s.length)
  add a _ := a
  printG _ _ := []
  strtold s := (⟨0⟩, s.length)
  addLong a _ := a
  zeroLong := ⟨0⟩
  isNaNLong _ := false
  isInfLong _ := false
  isZeroLong _ := true
  isPosLong _ := false
  printLong _ := []

/-- An environment in which nothing changes, with no limit on the memory. -/
def stillEnv : Env where
  opts := ⟨6379, bytes ".", bytes "dump.rdb", 0⟩
  nowMs _ := 0
  nowUs _ := 0
  random _ := 0
  flips _ _ := false
  order _ l := l
  order_perm _ l := List.Perm.refl l
  saveToFile _ := none
  bgSaveFork _ := none
  time _ := 0
  floats := stillFloats

/-- A clock that goes on by a millisecond at each reading. -/
def tickingEnv : Env := { stillEnv with nowMs := fun n => Int64.ofNat n }

/-- A server that was just started. -/
def freshServer : Server where
  db := .empty
  stats := ⟨0, 0, 0, 0, 0, false, false⟩
  lastSave := 0
  tick := 0
  clients _ := ⟨⟨⟨0, by decide⟩, [], 0, false⟩, ⟨false, false, []⟩, []⟩

/-- The fresh server is an initial one. -/
theorem freshServer_initial : freshServer.Initial := ⟨rfl, fun _ => rfl, fun _ => rfl⟩

end TinyRedis.Commands

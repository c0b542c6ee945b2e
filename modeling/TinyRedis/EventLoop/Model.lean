import TinyRedis.Commands.Dispatch
import TinyRedis.Lib.Process

/-!
# The event loop of `src/server.cpp`

`Server::Run` waits for a batch of events, and handles them one after another: a connection that can
be read or written, a connection to accept, a signal. What the system calls return is not decided
here: every event comes with the results of the calls that its handler makes, in their order, and a
handler that uses them up has not returned (`LoopFault.unfinished`).

A `Connection` lives in `conns_` under its descriptor until `CloseConn` destroys it. A `Connection&`
and the `udata` of an event are a `Handle`: the descriptor, and the number of the object, so that a
later connection with the same descriptor is not taken for the first. Every use of a handle looks it
up, and fails if the connection is gone (`LoopFault.useAfterFree`).

Each connection carries a record of what happened to it (`History`), which the program does not
have, and the connections that were destroyed are kept with it in `gone`.
-/

namespace TinyRedis.EventLoop

open Lib Commands Resp

/-! ## The outside -/

/-- `sizeof(buf)` in `OnReadable`. -/
def kBufBytes : ℕ := 65536

/-- What `read` returns. -/
inductive ReadResult where
  /-- Some bytes, no more than there is room for. -/
  | data (b : Bytes) (pos : 0 < b.length) (le : b.length ≤ kBufBytes)
  /-- 0: the other side has closed the connection. -/
  | closed
  /-- `EAGAIN` or `EWOULDBLOCK`. -/
  | again
  /-- `EINTR`. -/
  | interrupted
  /-- Another error. -/
  | failed

/-- Some bytes that are read at once. -/
def ReadResult.ofBytes (b : Bytes) : ReadResult :=
  if h : 0 < b.length ∧ b.length ≤ kBufBytes then .data b h.1 h.2 else .failed

/-- What `write` returns. -/
inductive WriteResult where
  /-- The number of the bytes that were taken. -/
  | wrote (n : ℕ)
  /-- `EAGAIN` or `EWOULDBLOCK`. -/
  | again
  /-- `EINTR`. -/
  | interrupted
  /-- Another error. -/
  | failed
  deriving DecidableEq

/-- What `accept` returns. -/
inductive AcceptResult where
  /-- The descriptor of a connection. -/
  | accepted (fd : ℕ)
  /-- `EAGAIN` or `EWOULDBLOCK`. -/
  | again
  /-- `EINTR`. -/
  | interrupted
  /-- Another error. -/
  | failed

/-- A pointer to a `Connection`. -/
structure Handle where
  fd : ℕ
  ptr : ℕ
  deriving DecidableEq

/-- `EVFILT_READ` or `EVFILT_WRITE`. -/
inductive Filter where
  | read
  | write
  deriving DecidableEq

/-- An event of `kevent`, with the results of the system calls that are made when it is handled. -/
inductive KEvent where
  /-- `EVFILT_SIGNAL`. -/
  | signal
  /-- The listening socket can be read. -/
  | listen (accepts : List AcceptResult)
  /-- Another descriptor can be read or written. -/
  | conn (filter : Filter) (udata : Option Handle) (reads : List ReadResult)
      (writes : List WriteResult)

/-- What `kevent` returns when it waits. -/
inductive Poll where
  /-- A batch of events. -/
  | events (batch : List KEvent)
  /-- `EINTR`. -/
  | interrupted
  /-- Another error. -/
  | failed

/-- What the event loop can meet instead of going on. -/
inductive LoopFault where
  /-- A `Connection` is used after it was destroyed. -/
  | useAfterFree
  /-- A command meets a fault. -/
  | command (f : CommandFault)
  /-- The results of the system calls are used up before the handler returns. -/
  | unfinished
  deriving DecidableEq

/-! ## The state -/

/-- A command that was passed to `Dispatch`, and what was asked for after it. -/
structure Dispatched where
  argv : Args
  quit : Bool
  shutdown : Bool

/-- What happened to a connection. -/
structure History where
  /-- The bytes that `read` returned. -/
  received : Bytes
  dispatched : List Dispatched
  /-- The replies, one for each command and one for a protocol error. -/
  replies : List Bytes
  /-- The bytes that `write` has taken. -/
  sent : Bytes

/-- `Connection`. The field `in` is not used by the source. -/
structure Connection where
  ptr : ℕ
  out : Bytes
  parser : RequestParser
  session : Session
  tx : Tx
  wantWrite : Bool
  history : History

/-- `Server`. -/
structure Reactor where
  db : Database
  stats : ServerStats
  lastSave : ℤ
  tick : ℕ
  quit : Bool
  nextClientId : ℕ
  conns : Dict ℕ Connection
  /-- The connections that were destroyed. -/
  gone : List Connection

/-- What `Dispatch` reads and writes. -/
def Reactor.world (s : Reactor) (c : Connection) : World :=
  ⟨s.db, s.stats, s.lastSave, s.tick, c.session, c.out⟩

/-- A function of the event loop. -/
abbrev L := StateT Reactor (Except LoopFault)

variable {α : Type}

/-- End with a fault. -/
def fault (f : LoopFault) : L α := fun _ => .error f

/-- The connection that a handle points to. -/
def deref (h : Handle) : L Connection := fun s =>
  match s.conns.lookup h.fd with
  | none => .error .useAfterFree
  | some c => if c.ptr = h.ptr then .ok (c, s) else .error .useAfterFree

/-- Write to the connection that a handle points to. -/
def update (h : Handle) (f : Connection → Connection) : L Unit := do
  let c ← deref h
  modify fun s => { s with conns := s.conns.insert h.fd (f c) }

/-! ## Connections -/

/-- `EnableWrite`. -/
def enableWrite (h : Handle) (enable : Bool) : L Unit := do
  let c ← deref h
  if enable && !c.wantWrite then update h fun c => { c with wantWrite := true }
  else if !enable && c.wantWrite then update h fun c => { c with wantWrite := false }
  else pure ()

/-- The end of `CloseConn`: the descriptor is closed, and the connection destroyed. -/
def destroy (h : Handle) : L Unit := do
  let c ← deref h
  modify fun s => { s with
    conns := s.conns.erase h.fd
    gone := s.gone ++ [c]
    stats := { s.stats with connectedClients := s.stats.connectedClients - 1 } }

/-- `CloseConn`. -/
def closeConn (h : Handle) : L Unit := do
  let c ← deref h
  let s ← get
  if (s.conns.lookup h.fd).isNone then pure ()
  else if c.wantWrite then do
    enableWrite h false
    destroy h
  else destroy h

/-- `CloseConn` for some connections, one after another. -/
def closeEach : List (ℕ × Connection) → L Unit
  | [] => pure ()
  | (fd, c) :: rest => do
    closeConn ⟨fd, c.ptr⟩
    closeEach rest

/-- `CloseAll`. -/
def closeAll : L Unit := do
  let s ← get
  closeEach s.conns.toList

/-- A connection that was just accepted. -/
def Connection.fresh (id : ℕ) : Connection where
  ptr := id
  out := []
  parser := .fresh
  session := ⟨⟨0, Nat.succ_pos 15⟩, [], id, false⟩
  tx := ⟨false, false, []⟩
  wantWrite := false
  history := ⟨[], [], [], []⟩

/-- `OnAccept`. -/
def onAccept : List AcceptResult → L Unit
  | [] => fault .unfinished
  | .accepted fd :: accepts => do
    modify fun s => { s with
      nextClientId := s.nextClientId + 1
      conns := s.conns.insert fd (.fresh s.nextClientId)
      stats := { s.stats with
        totalConnections := s.stats.totalConnections + 1
        connectedClients := s.stats.connectedClients + 1 } }
    onAccept accepts
  | .interrupted :: accepts => onAccept accepts
  | .again :: _ => pure ()
  | .failed :: _ => pure ()

/-! ## Output -/

/-- The bytes that `write` has taken are gone from `out`. -/
def Connection.send (n : ℕ) (c : Connection) : Connection :=
  { c with
    out := c.out.drop n
    history := { c.history with sent := c.history.sent ++ c.out.take n } }

/-- The condition of the loop of `OnWritable`, and what comes after the loop. -/
def whileOut (h : Handle) (body : L Unit) : L Unit := do
  let c ← deref h
  if c.out = [] then enableWrite h false else body

/-- `OnWritable`. -/
def onWritable (h : Handle) : List WriteResult → L Unit
  | [] => whileOut h (fault .unfinished)
  | .wrote n :: writes =>
    whileOut h
      (if 0 < n then do
        update h (Connection.send n)
        onWritable h writes
      else closeConn h)
  | .again :: _ => whileOut h (enableWrite h true)
  | .interrupted :: writes => whileOut h (onWritable h writes)
  | .failed :: _ => whileOut h (closeConn h)

/-! ## Input -/

/-- What `OnReadable` has read. -/
structure Reading where
  parser : RequestParser
  received : Bytes
  parsedCmds : List Args

/-- How the loop of `OnReadable` ends. -/
inductive ReadEnd where
  /-- There is no more to read for now. -/
  | drained
  /-- A protocol error. -/
  | refused
  /-- The connection is closed, or cannot be read. -/
  | hangup
  deriving DecidableEq

/-- The loop of `OnReadable`. -/
def readLoop : List ReadResult → Reading → Option (Reading × ReadEnd)
  | [], _ => none
  | .data b _ _ :: reads, r =>
    let fed := r.parser.feed b
    let r := ⟨fed.2, r.received ++ b, r.parsedCmds ++ fed.1⟩
    if fed.2.hasError then some (r, .refused)
    else if b.length < kBufBytes then some (r, .drained)
    else readLoop reads r
  | .closed :: _, r => some (r, .hangup)
  | .again :: _, r => some (r, .drained)
  | .interrupted :: reads, r => readLoop reads r
  | .failed :: _, r => some (r, .hangup)

/-- What was read, and where the parser stands after it. -/
def Connection.receive (r : Reading) (c : Connection) : Connection :=
  { c with
    parser := r.parser
    history := { c.history with received := c.history.received ++ r.received } }

/-- The reply to a protocol error. -/
def Connection.refuse (c : Connection) : Connection :=
  { c with
    out := appendErrorReply c.out c.parser.errorMsg
    history := { c.history with
      replies := c.history.replies ++ [appendErrorReply [] c.parser.errorMsg] } }

/-- What a command leaves: the bytes that it appended to `out` are its reply. -/
def Connection.answered (argv : Args) (tx : Tx) (w : World) (c : Connection) : Connection :=
  { c with
    out := w.out
    session := w.cs
    tx := tx
    history := { c.history with
      dispatched := c.history.dispatched ++
        [⟨argv, w.cs.quitRequested, w.stats.shutdownRequested⟩]
      replies := c.history.replies ++ [w.out.drop c.out.length] } }

/-- The state after a call of `Dispatch`. -/
def conclude (h : Handle) (argv : Args) (c : Connection) :
    Except CommandFault ((Unit × Tx) × World) → L Unit
  | .error f => fault (.command f)
  | .ok (((), tx), w) =>
    modify fun s => { s with
      db := w.db
      stats := w.stats
      lastSave := w.lastSave
      tick := w.tick
      conns := s.conns.insert h.fd (c.answered argv tx w) }

/-- `Dispatch` for a connection. -/
def dispatchOne (env : Env) (h : Handle) (argv : Args) : L Unit := do
  modify fun s => { s with stats := { s.stats with totalCommands := s.stats.totalCommands + 1 } }
  let c ← deref h
  let s ← get
  conclude h argv c (dispatch env 2 argv c.tx (s.world c))

/-- The loop of `OnReadable` over the commands: `shutdown_seen`. -/
def dispatchAll (env : Env) (h : Handle) : List Args → L Bool
  | [] => pure false
  | argv :: cmds =>
    if argv = [] then dispatchAll env h cmds
    else do
      dispatchOne env h argv
      let c ← deref h
      let s ← get
      if c.session.quitRequested then pure false
      else if s.stats.shutdownRequested then pure true
      else dispatchAll env h cmds

/-- `OnReadable` after the commands. -/
def afterCommands (h : Handle) (shutdownSeen : Bool) (writes : List WriteResult) : L Unit := do
  let s ← get
  if s.stats.shutdownRequested || shutdownSeen then
    modify fun s => { s with stats := { s.stats with shutdownRequested := true }, quit := true }
  else do
    let c ← deref h
    if c.session.quitRequested then do
      onWritable h writes
      let c ← deref h
      if !c.wantWrite then closeConn h else pure ()
    else if c.out ≠ [] then onWritable h writes
    else pure ()

/-- `OnReadable`. -/
def onReadable (env : Env) (h : Handle) (reads : List ReadResult) (writes : List WriteResult) :
    L Unit := do
  let c ← deref h
  match readLoop reads ⟨c.parser, [], []⟩ with
  | none => fault .unfinished
  | some (r, e) => do
    update h (Connection.receive r)
    match e with
    | .refused => do
      update h Connection.refuse
      onWritable h writes
      closeConn h
    | .hangup => closeConn h
    | .drained => do
      let shutdownSeen ← dispatchAll env h r.parsedCmds
      afterCommands h shutdownSeen writes

/-! ## The loop -/

/-- `RequestShutdown`. -/
def requestShutdown (save : Bool) : L Unit :=
  modify fun s => { s with
    stats := { s.stats with shutdownNosave := !save, shutdownRequested := true }
    quit := true }

/-- One event of a batch. -/
def onEvent (env : Env) : KEvent → L Unit
  | .signal => requestShutdown true
  | .listen accepts => onAccept accepts
  | .conn _ none _ _ => pure ()
  | .conn filter (some h) reads writes => do
    -- `c->fd` is read before it is looked for in `conns_`.
    let _ ← deref h
    let s ← get
    if (s.conns.lookup h.fd).isNone then pure ()
    else
      match filter with
      | .read => onReadable env h reads writes
      | .write => onWritable h writes

/-- The clients of a server, by their numbers. -/
def Reactor.server (s : Reactor) : Server :=
  ⟨s.db, s.stats, s.lastSave, s.tick, fun i =>
    match s.conns.toList.find? fun fc => fc.2.ptr = i with
    | some fc => ⟨fc.2.session, fc.2.tx, fc.2.out⟩
    | none => ⟨⟨⟨0, Nat.succ_pos 15⟩, [], i, false⟩, ⟨false, false, []⟩, []⟩⟩

/-- `PeriodicTasks`. -/
def periodicTasks (env : Env) : L Unit :=
  modify fun s =>
    let server := s.server.activeExpireCycle env
    { s with db := server.db, stats := server.stats, tick := server.tick }

/-- Where `Run` is. -/
inductive Point where
  /-- It waits for events. -/
  | polling
  /-- It handles the events of a batch. -/
  | handling (rest : List KEvent)
  /-- It has ended. -/
  | stopped

/-- `Run`: the server, the place in the loop, and the number of the calls of `kevent`. -/
structure Machine where
  reactor : Reactor
  point : Point
  round : ℕ

/-- The end of `Run`, without the snapshot that it writes before. -/
def Machine.finish (m : Machine) : Except LoopFault Machine := do
  let ((), s) ← closeAll m.reactor
  .ok { m with reactor := s, point := .stopped }

/-- One step of `Run`, up to the next call of `kevent` or the next event. -/
def step (env : Env) (polls : ℕ → Poll) (m : Machine) : Except LoopFault Machine :=
  match m.point with
  | .polling =>
    if m.reactor.quit then m.finish
    else
      match polls m.round with
      | .interrupted => .ok { m with round := m.round + 1 }
      | .failed => m.finish
      | .events batch => .ok { m with point := .handling batch, round := m.round + 1 }
  | .handling (e :: rest) => do
    let ((), s) ← onEvent env e m.reactor
    .ok { m with reactor := s, point := .handling rest }
  | .handling [] => do
    let ((), s) ← periodicTasks env m.reactor
    .ok { m with reactor := s, point := .polling }
  | .stopped => .ok m

/-- Some steps of `Run`. -/
def run (env : Env) (polls : ℕ → Poll) : ℕ → Machine → Except LoopFault Machine :=
  Process.run (step env polls)

/-- A server before `Run`: no connection was accepted. -/
structure Machine.Initial (m : Machine) : Prop where
  conns : m.reactor.conns = ∅
  gone : m.reactor.gone = []
  point : m.point = .polling

/-- A server that was just started. -/
def freshMachine : Machine :=
  ⟨⟨.empty, ⟨0, 0, 0, 0, 0, false, false⟩, 0, 0, false, 1, ∅, []⟩, .polling, 0⟩

/-- The fresh machine is an initial one. -/
theorem freshMachine_initial : freshMachine.Initial := ⟨rfl, rfl, rfl⟩

/-- Some batches of events, and then none. -/
def batches (l : List (List KEvent)) (i : ℕ) : Poll := .events (l.getD i [])

end TinyRedis.EventLoop

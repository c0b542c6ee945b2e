import TinyRedis.Commands.Text

/-!
# Server commands

The branches of `Dispatch` for the connection and the server. `SAVE` and `BGSAVE` write what
`Rdb.serialize` says; here they are seen from the client.
-/

namespace TinyRedis.Commands

variable (env : Env) (argv : Args)

/-- `PING`. -/
def ping : M Unit := do
  match ← argIf (argv.length = 2) argv 1 with
  | some s => replyBulk s
  | none => replySimple (bytes "PONG")

/-- `ECHO`. -/
def echo : M Unit := do
  let s ← arg argv 1
  replyBulk s

/-- A database number that passed the check is an index. -/
theorem toNat_lt_numDatabases {idx : ℤ} (h : 0 ≤ idx ∧ idx < kNumDatabases) :
    idx.toNat < kNumDatabases := by omega

/-- `SELECT`. -/
def select : M Unit := do
  let s ← arg argv 1
  match parseIntStrict s with
  | none => replyError (bytes "ERR DB index is out of range")
  | some idx =>
    if h : 0 ≤ idx ∧ idx < kNumDatabases then do
      let i : DbIndex := ⟨idx.toNat, toNat_lt_numDatabases h⟩
      modify fun w => { w with cs := { w.cs with dbIndex := i } }
      replySimple (bytes "OK")
    else replyError (bytes "ERR DB index is out of range")

/-- `AUTH`. -/
def auth : M Unit := replyError (bytes "ERR Client sent AUTH, but no password is set")

/-- `QUIT`. -/
def quit : M Unit := do
  modify fun w => { w with cs := { w.cs with quitRequested := true } }
  replySimple (bytes "OK")

/-- The fields of the reply to `HELLO`. -/
def helloFields : List Bytes :=
  ["server", "redis", "version", "7.4.0-tiny", "proto", "2", "id", "1", "mode", "standalone",
    "role", "master", "modules", ""].map bytes

/-- `HELLO`. -/
def hello : M Unit := do
  let s ← argIf (2 ≤ argv.length) argv 1
  let proto := match s with
    | some s => parseIntStrict s
    | none => some 2
  if proto ≠ some 2 then replyError (bytes "NOPROTO unsupported protocol version")
  else do
    replyArray 14
    replyBulks helloFields

/-- `COMMAND`. -/
def command : M Unit := replyEmptyArray

/-- `DBSIZE`. -/
def dbsize : M Unit := do
  let t ← table
  replyInt t.size

/-- `FLUSHDB`. -/
def flushdb : M Unit := do
  modify fun w => { w with db := w.db.flushDb w.cs.dbIndex }
  replySimple (bytes "OK")

/-- `FLUSHALL`. -/
def flushall : M Unit := do
  modify fun w => { w with db := w.db.flushAll }
  replySimple (bytes "OK")

/-- `TIME`. -/
def time : M Unit := do
  let us ← nowUs env
  replyArray 2
  replyBulk (printInt (us.tdiv 1000000))
  replyBulk (printInt (us.tmod 1000000))

/-- `ROLE`. -/
def role : M Unit := do
  replyArray 3
  replyBulk (bytes "master")
  replyInt 0
  replyArray 0

/-- `WAIT`. -/
def wait : M Unit := replyInt 0

/-- `LASTSAVE`. -/
def lastsave : M Unit := do
  let w ← get
  replyInt w.lastSave

/-- `set_last_save_time(::time(nullptr))`. -/
def setLastSaveTime : M Unit := do
  let t ← tick
  modify fun w => { w with lastSave := env.time t }

/-- `SAVE` and `BGSAVE`, with the outcome of writing the snapshot and the reply. -/
def saveWith (outcome : ℕ → Option Bytes) (reply : Bytes) : M Unit := do
  let t ← tick
  match outcome t with
  | some err => replyError err
  | none => do
    setLastSaveTime env
    replySimple reply

/-- `SAVE`. -/
def save : M Unit := saveWith env env.saveToFile (bytes "OK")

/-- `BGSAVE`. -/
def bgsave : M Unit := saveWith env env.bgSaveFork (bytes "Background saving started")

/-- `BGREWRITEAOF`. -/
def bgrewriteaof : M Unit :=
  replySimple (bytes "Background append only file rewriting started")

/-! ## `INFO` -/

/-- `kv`. -/
def infoLine (k : String) (v : Bytes) : Bytes := bytes k ++ bytes ":" ++ v ++ Resp.crlf

/-- A section of `INFO`, if it is wanted. The names of the sections are capitalised, and `section`
is in lower case. -/
def infoSection (name : String) (sec body : Bytes) : Bytes :=
  if sec = [] ∨ sec = bytes "all" ∨ sec = bytes "default" ∨ sec = bytes name then
    bytes "# " ++ bytes name ++ Resp.crlf ++ body
  else []

/-- The line of a key space, if it has keys. -/
def keyspaceLine (db : Database) (i : DbIndex) : Bytes :=
  if db.size i = 0 then []
  else
    let exp := (db.table i).entries.countP fun kv => kv.2.expiresAtMs ≠ 0
    bytes "db" ++ printInt i ++ bytes ":keys=" ++ printInt (db.size i) ++ bytes ",expires=" ++
      printInt exp ++ bytes ",avg_ttl=0" ++ Resp.crlf

/-- `uptime_s`. -/
def uptimeS (startTimeUs : Int64) : M ℤ :=
  if startTimeUs ≠ 0 then do
    let us ← nowUs env
    let d ← checked (us - startTimeUs.toInt)
    pure (d.tdiv 1000000)
  else pure 0

/-- `BuildInfo`. -/
def buildInfo (sec : Bytes) : M Bytes := do
  let w ← get
  let uptime ← uptimeS env w.stats.startTimeUs
  let server := infoLine "redis_version" (bytes "7.4.0-tiny") ++
    infoLine "redis_mode" (bytes "standalone") ++
    infoLine "os" (bytes "Darwin tiny-redis-runtime") ++
    infoLine "run_id" (bytes "0000000000000000000000000000000000000000") ++
    infoLine "tcp_port" (printInt env.opts.port) ++
    infoLine "uptime_in_seconds" (printInt uptime)
  let memory := infoLine "used_memory" (printInt w.db.used) ++
    infoLine "used_memory_human" (printInt (w.db.used / 1024 : ℕ) ++ bytes "K") ++
    infoLine "maxmemory" (printInt w.db.maxMemory) ++
    infoLine "maxmemory_policy" (bytes "noeviction")
  let stats := infoLine "total_connections_received" (printInt w.stats.totalConnections) ++
    infoLine "total_commands_processed" (printInt w.stats.totalCommands) ++
    infoLine "expired_keys" (printInt w.stats.expiredKeys)
  pure (infoSection "Server" sec server ++
    infoSection "Clients" sec
      (infoLine "connected_clients" (printInt w.stats.connectedClients)) ++
    infoSection "Memory" sec memory ++
    infoSection "Persistence" sec
      (infoLine "loading" (bytes "0") ++ infoLine "rdb_last_save_time" (printInt w.lastSave)) ++
    infoSection "Stats" sec stats ++
    infoSection "Replication" sec
      (infoLine "role" (bytes "master") ++ infoLine "connected_slaves" (bytes "0")) ++
    infoSection "Keyspace" sec ((List.finRange kNumDatabases).flatMap (keyspaceLine w.db)))

/-- `INFO`. -/
def info : M Unit := do
  let s ← argIf (argv.length = 2) argv 1
  let text ← buildInfo env (toLower (s.getD []))
  replyBulk text

/-! ## Administration -/

/-- `SHUTDOWN`, which has no reply. -/
def shutdown : M Unit := do
  let s ← argIf (argv.length = 2) argv 1
  let opt := s.map toUpper
  let nosave := decide (opt = some (bytes "NOSAVE"))
  if opt.isSome && !nosave && decide (opt ≠ some (bytes "SAVE")) then errSyntax
  else
    modify fun w =>
      { w with stats := { w.stats with shutdownNosave := nosave, shutdownRequested := true } }

/-- `CONFIG GET`. -/
def configGet : M Unit := do
  let s ← arg argv 2
  let w ← get
  let param := toLower s
  let reply (v : Bytes) : M Unit := replyBulkArray [param, v]
  if param = bytes "maxmemory" then reply (printInt w.db.maxMemory)
  else if param = bytes "port" then reply (printInt env.opts.port)
  else if param = bytes "databases" then reply (printInt kNumDatabases)
  else if param = bytes "dir" then reply env.opts.dir
  else if param = bytes "dbfilename" then reply env.opts.dbfilename
  else if param = bytes "save" then reply []
  else if param = bytes "timeout" then reply (bytes "0")
  else
    replyError (bytes "ERR Unknown option or number of arguments for CONFIG GET -- '" ++ param ++
      bytes "'")

/-- `CONFIG SET`. -/
def configSet : M Unit := do
  let s ← arg argv 2
  let param := toLower s
  if param = bytes "maxmemory" then do
    let v ← arg argv 3
    match parseIntStrict v with
    | none => errNotInt
    | some cap =>
      if cap < 0 then errNotInt
      else do
        modify fun w => { w with db := { w.db with maxMemory := cap.toNat } }
        replySimple (bytes "OK")
  else replyError (bytes "ERR Unsupported CONFIG parameter: " ++ param)

/-- `CONFIG`. -/
def config : M Unit := do
  let s ← arg argv 1
  let sub := toUpper s
  if sub = bytes "GET" then configGet env argv
  else if sub = bytes "SET" then configSet argv
  else errSyntax

/-- `CLIENT`. -/
def client : M Unit := do
  let s ← arg argv 1
  let w ← get
  let sub := toUpper s
  if sub = bytes "ID" then replyInt w.cs.id
  else if sub = bytes "GETNAME" then
    if w.cs.name = [] then replyNullBulk else replyBulk w.cs.name
  else if sub = bytes "SETNAME" then do
    let name ← arg argv 2
    modify fun w => { w with cs := { w.cs with name := name } }
    replySimple (bytes "OK")
  else if sub = bytes "INFO" then
    replyBulk (bytes "id=" ++ printInt w.cs.id ++ bytes " addr=127.0.0.1:0 laddr=127.0.0.1:" ++
      printInt env.opts.port ++ bytes " name=" ++ w.cs.name ++ bytes " db=" ++
      printInt w.cs.dbIndex)
  else if sub = bytes "LIST" then
    replyBulk (bytes "id=" ++ printInt w.cs.id ++ bytes " addr=127.0.0.1:0 fd=-1 name=" ++
      w.cs.name ++ bytes " db=" ++ printInt w.cs.dbIndex ++ bytes " cmd=client")
  else
    replyError (bytes "ERR Unknown CLIENT subcommand or wrong number of arguments for '" ++
      toLower s ++ bytes "'")

/-- `MEMORY`. -/
def memory : M Unit := do
  let s ← arg argv 1
  if toUpper s = bytes "USAGE" then do
    let key ← arg argv 2
    match ← lookup env key with
    | none => replyNullBulk
    | some e => replyInt (48 + key.length + Database.valueSize e.value)
  else replyError (bytes "ERR syntax error")

end TinyRedis.Commands

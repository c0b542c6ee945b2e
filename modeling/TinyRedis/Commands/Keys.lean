import TinyRedis.Commands.Text

/-!
# Key commands

The branches of `Dispatch` for keys and their deadlines. `KEYS`, `SCAN`, and `RANDOMKEY` go over the
table themselves, and look at the deadline of each key.
-/

namespace TinyRedis.Commands

variable (env : Env) (argv : Args)

/-- `KeyIsLiveExpired`. -/
def keyIsLiveExpired (e : Entry) : M Bool :=
  if e.expiresAtMs ≠ 0 then do
    let now ← nowMs env
    pure (decide (e.expiresAtMs.toInt ≤ now))
  else pure false

/-- Delete a key whose deadline has come. -/
def deleteExpired (key : Bytes) : M Unit := do
  let _ ← delete key
  modify fun w => { w with stats := { w.stats with expiredKeys := w.stats.expiredKeys + 1 } }

/-- `DEL` and `UNLINK`. -/
def del : M Unit := do
  let n ← forArgs argv 1 (fun i n => do
    let key ← arg argv i
    let b ← delete key
    pure (if b then n + 1 else n)) 1 (0 : ℕ)
  replyInt n

/-- `EXISTS`. -/
def cmdExists : M Unit := do
  let n ← forArgs argv 1 (fun i n => do
    let key ← arg argv i
    let e ← lookup env key
    pure (if e.isSome then n + 1 else n)) 1 (0 : ℕ)
  replyInt n

/-- The loop of `KEYS`: the keys that match, and those whose deadline has come. -/
def keysLoop (pattern : Bytes) :
    List (Bytes × Entry) → List Bytes → List Bytes → M (List Bytes × List Bytes)
  | [], keys, stale => pure (keys, stale)
  | kv :: rest, keys, stale => do
    let dead ← keyIsLiveExpired env kv.2
    if dead then keysLoop pattern rest keys (stale ++ [kv.1])
    else do
      let hit ← globMatch pattern kv.1
      keysLoop pattern rest (if hit then keys ++ [kv.1] else keys) stale

/-- Delete some keys whose deadline has come. -/
def deleteAllExpired : List Bytes → M Unit
  | [] => pure ()
  | key :: rest => do
    deleteExpired key
    deleteAllExpired rest

/-- `KEYS`. -/
def keys : M Unit := do
  let t ← table
  let items ← iterate env t.toList
  let pattern ← arg argv 1
  let (keys, stale) ← keysLoop env pattern items [] []
  deleteAllExpired stale
  replyBulkArray (sorted keys)

/-- The options of `SCAN`: the pattern, and the value of `COUNT`, -1 if there is none. -/
structure ScanOptions where
  pattern : Bytes
  count : ℤ

/-- One option of `SCAN`. -/
def scanOption (i : ℕ) (o : ScanOptions) : M (Step ScanOptions Unit) := do
  let s ← arg argv i
  let opt := toUpper s
  if opt = bytes "MATCH" ∧ i + 1 < argv.length then do
    let pattern ← arg argv (i + 1)
    pure (.next (i + 2) { o with pattern := pattern })
  else if opt = bytes "COUNT" ∧ i + 1 < argv.length then do
    let v ← arg argv (i + 1)
    match parseIntStrict v with
    | none => do
      errNotInt
      pure (.stop ())
    | some cnt =>
      if cnt < 0 then do
        errNotInt
        pure (.stop ())
      else pure (.next (i + 2) { o with count := cnt })
  else do
    errSyntax
    pure (.stop ())

/-- The loop of `SCAN`. -/
def scanLoop (o : ScanOptions) : List (Bytes × Entry) → List Bytes → M (List Bytes)
  | [], keys => pure keys
  | kv :: rest, keys => do
    let dead ← keyIsLiveExpired env kv.2
    if dead then scanLoop o rest keys
    else do
      let hit ← globMatch o.pattern kv.1
      let keys := if hit then keys ++ [kv.1] else keys
      if 0 ≤ o.count ∧ o.count ≤ keys.length then pure keys else scanLoop o rest keys

/-- `SCAN`. -/
def scan : M Unit := do
  let s ← arg argv 1
  if parseIntStrict s ≠ some 0 then replyError (bytes "ERR invalid cursor")
  else do
    match ← argLoop argv (scanOption argv) argv.length 2 ⟨bytes "*", -1⟩ with
    | .stop _ => pure ()
    | .next _ o => do
      let t ← table
      let items ← iterate env t.toList
      let keys ← scanLoop env o items []
      replyArray 2
      replyBulk (bytes "0")
      replyBulkArray (sorted keys)

/-- `RANDOMKEY`. -/
def randomkey : M Unit := do
  let t ← table
  if t.entries.isEmpty then replyNullBulk
  else do
    let items ← iterate env t.toList
    let i ← randomBelow env items.length
    match items[i]? with
    | none => fault .outOfRange
    | some kv => do
      let dead ← keyIsLiveExpired env kv.2
      if dead then do
        deleteExpired kv.1
        replyNullBulk
      else replyBulk kv.1

/-- `TYPE`. -/
def type : M Unit := do
  let key ← arg argv 1
  match ← lookup env key with
  | none => replySimple (bytes "none")
  | some e => replySimple (valueTypeName (typeOf e.value))

/-- What is left of a value when it is moved from. -/
def movedFrom : Value → Value
  | .rawString _ => .rawString []
  | .hash _ => .hash ∅
  | .list _ => .list []
  | .set _ => .set ∅
  | .zset _ => .zset ⟨SkipList.empty, ∅⟩

/-- `RENAME`. The value is moved out of the old entry before that is deleted. -/
def rename : M Unit := do
  let oldk ← arg argv 1
  let newk ← arg argv 2
  match ← lookup env oldk with
  | none => replyError (bytes "ERR no such key")
  | some e =>
    if oldk = newk then replySimple (bytes "OK")
    else do
      assignValue oldk (movedFrom e.value)
      let _ ← delete oldk
      set newk e.value e.expiresAtMs
      replySimple (bytes "OK")

/-! ## Deadlines -/

/-- `expires` of `CmdExpire`. -/
def expireDeadline (isAt ms : Bool) (v : ℤ) : M ℤ :=
  if isAt then checked (if ms then v else v * 1000)
  else do
    let now ← nowMs env
    let d ← checked (if ms then v else v * 1000)
    checked (now + d)

/-- `CmdExpire`, where `isAt` says that the argument is a time and `ms` that it is in
milliseconds. -/
def cmdExpire (isAt ms : Bool) : M Unit := do
  let key ← arg argv 1
  let s ← arg argv 2
  match parseIntStrict s with
  | none => errNotInt
  | some v => do
    match ← lookup env key with
    | none => replyInt 0
    | some _ => do
      let expires ← expireDeadline env isAt ms v
      assignDeadline key (Int64.ofInt expires)
      replyInt 1

/-- `EXPIRE`. -/
def expire : M Unit := cmdExpire env argv false false

/-- `PEXPIRE`. -/
def pexpire : M Unit := cmdExpire env argv false true

/-- `EXPIREAT`. -/
def expireat : M Unit := cmdExpire env argv true false

/-- `PEXPIREAT`. -/
def pexpireat : M Unit := cmdExpire env argv true true

/-- `TTL` and `PTTL`, with `round` from milliseconds to the unit of the reply. -/
def ttlWith (round : ℤ → M ℤ) : M Unit := do
  let key ← arg argv 1
  match ← lookup env key with
  | none => replyInt (-2)
  | some e =>
    if e.expiresAtMs = 0 then replyInt (-1)
    else do
      let now ← nowMs env
      let rem ← checked (e.expiresAtMs.toInt - now)
      if rem ≤ 0 then replyInt (-2)
      else do
        let r ← round rem
        replyInt r

/-- `TTL`. -/
def ttl : M Unit := ttlWith env argv fun rem => do
  let r ← checked (rem + 999)
  pure (r.tdiv 1000)

/-- `PTTL`. -/
def pttl : M Unit := ttlWith env argv pure

/-- `PERSIST`. -/
def persist : M Unit := do
  let key ← arg argv 1
  match ← lookup env key with
  | none => replyInt 0
  | some e =>
    if e.expiresAtMs = 0 then replyInt 0
    else do
      assignDeadline key 0
      replyInt 1

end TinyRedis.Commands

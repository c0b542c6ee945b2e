import TinyRedis.Commands.Text

/-!
# String commands
-/

namespace TinyRedis.Commands

variable (env : Env) (argv : Args)

/-- Reply the string that was found, or null. -/
def replyString (st : LookupResult) (p : Handle) : M Unit :=
  match st with
  | .found => do
    let s ← deref stringKind p
    replyBulk s
  | _ => replyNullBulk

/-- `GET`. -/
def cmdGet : M Unit := do
  let key ← arg argv 1
  withTyped env stringKind key replyString

/-! ## `SET` -/

/-- The options of `SET`. -/
structure SetOptions where
  exS : ℤ
  pxMs : ℤ
  nx : Bool
  xx : Bool
  keepttl : Bool
  wantGet : Bool

/-- One option of `SET`. -/
def setOption (i : ℕ) (o : SetOptions) : M (Step SetOptions Unit) := do
  let s ← arg argv i
  let opt := toUpper s
  let syntaxError : M (Step SetOptions Unit) := do
    errSyntax
    pure (.stop ())
  if opt = bytes "NX" then pure (.next (i + 1) { o with nx := true })
  else if opt = bytes "XX" then pure (.next (i + 1) { o with xx := true })
  else if opt = bytes "KEEPTTL" then pure (.next (i + 1) { o with keepttl := true })
  else if opt = bytes "GET" then pure (.next (i + 1) { o with wantGet := true })
  else if opt = bytes "EX" ∧ i + 1 < argv.length then do
    let v ← arg argv (i + 1)
    match parseIntStrict v with
    | none => syntaxError
    | some exS => if exS ≤ 0 then syntaxError else pure (.next (i + 2) { o with exS := exS })
  else if opt = bytes "PX" ∧ i + 1 < argv.length then do
    let v ← arg argv (i + 1)
    match parseIntStrict v with
    | none => syntaxError
    | some pxMs => if pxMs ≤ 0 then syntaxError else pure (.next (i + 2) { o with pxMs := pxMs })
  else syntaxError

/-- The reply of `SET` with `GET`: the old value, or an error, after which there is nothing to do.
-/
def setReplyOld (o : SetOptions) (e : Option Entry) : M Bool :=
  if !o.wantGet then pure true
  else match e with
  | none => do
    replyNullBulk
    pure true
  | some e =>
    match stringKind.get e.value with
    | some s => do
      replyBulk s
      pure true
    | none => do
      errWrongType
      pure false

/-- The deadline of `EX` or `PX`, with `scale` milliseconds in a unit of time, or `expires` if there
is none. -/
def deadlineIn (scale v expires : ℤ) : M ℤ :=
  if 0 < v then do
    let now ← nowMs env
    let ms ← checked (v * scale)
    checked (now + ms)
  else pure expires

/-- `keep_ttl`. -/
def keepTtl (o : SetOptions) (e : Option Entry) : ℤ :=
  match e with
  | some e => if o.keepttl then e.expiresAtMs.toInt else 0
  | none => 0

/-- The deadline of `SET`. -/
def setDeadline (o : SetOptions) (e : Option Entry) : M ℤ := do
  let expires ← deadlineIn env 1000 o.exS (keepTtl o e)
  deadlineIn env 1 o.pxMs expires

/-- `CmdSet`, after the options. -/
def setWith (o : SetOptions) (key val : Bytes) : M Unit := do
  let e ← lookup env key
  let go ← setReplyOld o e
  if !go then pure ()
  else if (e.isSome && o.nx) || (e.isNone && o.xx) then
    if !o.wantGet then replyNullBulk else pure ()
  else do
    let expires ← setDeadline env o e
    set key (.rawString val) (Int64.ofInt expires)
    if !o.wantGet then replySimple (bytes "OK") else pure ()

/-- `CmdSet`. -/
def cmdSet : M Unit := do
  let key ← arg argv 1
  let val ← arg argv 2
  match ← argLoop argv (setOption argv) argv.length 3 ⟨-1, -1, false, false, false, false⟩ with
  | .stop _ => pure ()
  | .next _ o => if o.nx && o.xx then errSyntax else setWith env o key val

/-! ## Writing whole values -/

/-- `SETNX`. -/
def setnx : M Unit := do
  let key ← arg argv 1
  match ← lookup env key with
  | some _ => replyInt 0
  | none => do
    let val ← arg argv 2
    set key (.rawString val) 0
    replyInt 1

/-- `SETEX` and `PSETEX`, with `scale` milliseconds in a unit of time. -/
def setexWith (scale : ℤ) : M Unit := do
  let s ← arg argv 2
  match parseIntStrict s with
  | none => errNotInt
  | some v =>
    if v ≤ 0 then errNotInt
    else do
      let now ← nowMs env
      let ms ← checked (v * scale)
      let expires ← checked (now + ms)
      let key ← arg argv 1
      let val ← arg argv 3
      set key (.rawString val) (Int64.ofInt expires)
      replySimple (bytes "OK")

/-- `SETEX`. -/
def setex : M Unit := setexWith env argv 1000

/-- `PSETEX`. -/
def psetex : M Unit := setexWith env argv 1

/-- `GETSET`. -/
def getset : M Unit := do
  let key ← arg argv 1
  withTyped env stringKind key fun st p => do
    replyString st p
    let val ← arg argv 2
    set key (.rawString val) 0

/-- `GETDEL`. -/
def getdel : M Unit := do
  let key ← arg argv 1
  withTyped env stringKind key fun st p =>
    match st with
    | .found => do
      let s ← deref stringKind p
      replyBulk s
      let _ ← delete key
      pure ()
    | _ => replyNullBulk

/-- One key of `MGET`. -/
def mgetOne (i : ℕ) (_ : Unit) : M Unit := do
  let key ← arg argv i
  let (st, p) ← getTyped env stringKind key
  replyString st p

/-- `MGET`. -/
def mget : M Unit := do
  replyArray (argv.length - 1 : ℕ)
  forArgs argv 1 (mgetOne env argv) 1 ()

/-- One key of the first loop of `MSETNX`. -/
def msetnxCheck (i : ℕ) (_ : Unit) : M (Step Unit Unit) := do
  let key ← arg argv i
  match ← lookup env key with
  | some _ => do
    replyInt 0
    pure (.stop ())
  | none => pure (.next (i + 2) ())

/-- One pair of `MSET`. -/
def msetOne (i : ℕ) (_ : Unit) : M Unit := do
  let key ← arg argv i
  let val ← arg argv (i + 1)
  set key (.rawString val) 0

/-- `MSET`. -/
def mset (lower : Bytes) : M Unit := do
  if (argv.length - 1) % 2 ≠ 0 then errWrongArgs lower
  else do
    forArgs argv 2 (msetOne argv) 1 ()
    replySimple (bytes "OK")

/-- `MSETNX`. -/
def msetnx (lower : Bytes) : M Unit := do
  if (argv.length - 1) % 2 ≠ 0 then errWrongArgs lower
  else do
    match ← argLoop argv (msetnxCheck env argv) argv.length 1 () with
    | .stop _ => pure ()
    | .next _ _ => do
      forArgs argv 2 (msetOne argv) 1 ()
      replyInt 1

/-! ## Parts of values -/

/-- `GETRANGE` on a string: the part from `start` to `stop`, which may count from the end. -/
def substring (s : Bytes) (start stop : ℤ) : Bytes :=
  let len : ℤ := s.length
  if len = 0 then []
  else
    let start := if start < 0 then start + len else start
    let stop := if stop < 0 then stop + len else stop
    let start := if start < 0 then 0 else start
    let stop := if len ≤ stop then len - 1 else stop
    if stop < start ∨ len ≤ start ∨ stop < 0 then []
    else (s.drop start.toNat).take (stop - start + 1).toNat

/-- `GETRANGE`. -/
def getrange : M Unit := do
  let key ← arg argv 1
  withTyped env stringKind key fun st p => do
    let s ← derefOr stringKind [] st p
    let a ← arg argv 2
    match parseIntStrict a with
    | none => errNotInt
    | some start => do
      let b ← arg argv 3
      match parseIntStrict b with
      | none => errNotInt
      | some stop => replyBulk (substring s start stop)

/-- `SETRANGE` on a string: `v` is written at `offset`, after zeros if the string is too short. -/
def overwrite (s : Bytes) (offset : ℕ) (v : Bytes) : Bytes :=
  let s := if s.length < offset + v.length then
      s ++ List.replicate (offset + v.length - s.length) 0
    else s
  s.take offset ++ v ++ s.drop (offset + v.length)

/-- `SETRANGE`. -/
def setrange : M Unit := do
  let a ← arg argv 2
  match parseIntStrict a with
  | none => replyError (bytes "ERR offset is out of range")
  | some offset =>
    if offset < 0 then replyError (bytes "ERR offset is out of range")
    else do
      let v ← arg argv 3
      let stop ← checked (offset + v.length)
      if 512 * 1024 * 1024 < stop then
        replyError (bytes "ERR string exceeds maximum allowed size (proto-max-bulk-len)")
      else do
        let key ← arg argv 1
        let p ← getOrCreateString env key
        match p with
        | none => errWrongType
        | some _ => do
          let s ← deref stringKind p
          let s := overwrite s offset.toNat v
          store stringKind p s
          replyInt s.length

/-- `STRLEN`. -/
def strlen : M Unit := do
  let key ← arg argv 1
  withTyped env stringKind key fun st p =>
    match st with
    | .found => do
      let s ← deref stringKind p
      replyInt s.length
    | _ => replyInt 0

/-- `APPEND`. -/
def append : M Unit := do
  let key ← arg argv 1
  let p ← getOrCreateString env key
  match p with
  | none => errWrongType
  | some _ => do
    let s ← deref stringKind p
    let v ← arg argv 2
    let s := s ++ v
    store stringKind p s
    replyInt s.length

/-! ## Counters -/

/-- `CmdIncrBy` on a float. -/
def incrByFloat (p : Handle) (s : Bytes) : M Unit := do
  let cur := if s = [] then some env.floats.zeroLong else parseLongDoubleStrict env.floats s
  match cur with
  | none => errNotFloat
  | some cur => do
    let a ← arg argv 2
    match parseLongDoubleStrict env.floats a with
    | none => errNotFloat
    | some delta =>
      let res := env.floats.addLong cur delta
      if env.floats.isNaNLong res || env.floats.isInfLong res then errIncrOverflow
      else do
        let s ← formatLongDouble env.floats res
        store stringKind p s
        replyBulk s

/-- `CmdIncrBy` on an integer. -/
def incrByInt (p : Handle) (s : Bytes) (delta : ℤ) : M Unit := do
  let cur := if s = [] then some 0 else parseIntStrict s
  match cur with
  | none => errNotInt
  | some cur =>
    let res := cur + delta
    if res < -2^63 ∨ 2^63 ≤ res then errNotInt
    else do
      store stringKind p (printInt res)
      replyInt res

/-- `CmdIncrBy`. -/
def cmdIncrBy (delta : ℤ) (isFloat : Bool) : M Unit := do
  let key ← arg argv 1
  let p ← getOrCreateString env key
  match p with
  | none => errWrongType
  | some _ => do
    let s ← deref stringKind p
    if isFloat then incrByFloat env argv p s else incrByInt p s delta

/-- `INCR`. -/
def incr : M Unit := do
  let name ← arg argv 0
  let key ← arg argv 1
  cmdIncrBy env [name, key, bytes "1"] 1 false

/-- `DECR`. -/
def decr : M Unit := do
  let name ← arg argv 0
  let key ← arg argv 1
  cmdIncrBy env [name, key, bytes "-1"] (-1) false

/-- `INCRBY`. -/
def incrby : M Unit := do
  let s ← arg argv 2
  match parseIntStrict s with
  | none => errNotInt
  | some delta => cmdIncrBy env argv delta false

/-- `DECRBY`. -/
def decrby : M Unit := do
  let s ← arg argv 2
  match parseIntStrict s with
  | none => errNotInt
  | some delta => if 2^63 ≤ -delta then errNotInt else cmdIncrBy env argv (-delta) false

/-- `INCRBYFLOAT`. -/
def incrbyfloat : M Unit := cmdIncrBy env argv 0 true

end TinyRedis.Commands

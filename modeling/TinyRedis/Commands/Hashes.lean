import TinyRedis.Commands.Text

/-!
# Hash commands

`HGET`, `HMGET`, `HDEL`, and `HSTRLEN` use the pointer of `GetTyped` also when the key is missing.
-/

namespace TinyRedis.Commands

open Lib

variable (env : Env) (argv : Args)

/-- One pair of `HSET`, with the number of new fields. -/
def hsetOne (p : Handle) (i added : ℕ) : M ℕ := do
  let field ← arg argv i
  let h ← deref hashKind p
  let val ← arg argv (i + 1)
  store hashKind p (h.insert field val)
  pure (if field ∈ h then added else added + 1)

/-- `HSET` and `HMSET`, with their replies. -/
def hsetWith (lower : Bytes) (reply : ℕ → M Unit) : M Unit := do
  if (argv.length - 2) % 2 ≠ 0 then errWrongArgs lower
  else do
    let key ← arg argv 1
    let p ← hashOrCreate env key
    match p with
    | none => errWrongType
    | some _ => do
      let added ← forArgs argv 2 (hsetOne argv p) 2 0
      reply added

/-- `HSET`. -/
def hset (lower : Bytes) : M Unit := hsetWith env argv lower fun added => replyInt added

/-- `HMSET`. -/
def hmset (lower : Bytes) : M Unit := hsetWith env argv lower fun _ => replySimple (bytes "OK")

/-- `st == kFound ? h->h.find(field) : h->h.end()`. -/
def hashFind (st : LookupResult) (p : Handle) (field : Bytes) : M (Option Bytes) := do
  let h ← deref hashKind p
  match st with
  | .found => pure (h.lookup field)
  | _ => pure none

/-- `HGET` after the lookup. -/
def hgetBody (st : LookupResult) (p : Handle) : M Unit := do
  let field ← arg argv 2
  match ← hashFind st p field with
  | some v => replyBulk v
  | none => replyNullBulk

/-- `HGET`. -/
def hget : M Unit := do
  let key ← arg argv 1
  withTyped env hashKind key (hgetBody argv)

/-- One field of `HMGET`. -/
def hmgetOne (st : LookupResult) (p : Handle) (i : ℕ) (_ : Unit) : M Unit := do
  let field ← arg argv i
  match ← hashFind st p field with
  | some v => replyBulk v
  | none => replyNullBulk

/-- `HMGET` after the lookup. -/
def hmgetBody (st : LookupResult) (p : Handle) : M Unit := do
  replyArray (argv.length - 2 : ℕ)
  forArgs argv 1 (hmgetOne argv st p) 2 ()

/-- `HMGET`. -/
def hmget : M Unit := do
  let key ← arg argv 1
  withTyped env hashKind key (hmgetBody argv)

/-- `HGETALL`, `HKEYS`, and `HVALS`, with their replies. -/
def hashItems (reply : Dict Bytes Bytes → M Unit) : M Unit := do
  let key ← arg argv 1
  withTyped env hashKind key fun st p =>
    match st with
    | .found => do
      let h ← deref hashKind p
      reply h
    | _ => replyEmptyArray

/-- `HGETALL`. -/
def hgetall : M Unit := hashItems env argv fun h => do
  let keys := sorted (h.toList.map Prod.fst)
  replyArray (keys.length * 2 : ℕ)
  replyBulks (keys.flatMap fun k => [k, (h.lookup k).getD []])

/-- `HKEYS`. -/
def hkeys : M Unit := hashItems env argv fun h => replyBulkArray (sorted (h.toList.map Prod.fst))

/-- `HVALS`. -/
def hvals : M Unit := hashItems env argv fun h => replyBulkArray (sorted (h.toList.map Prod.snd))

/-- One field of `HDEL`, with the number of fields that were there. -/
def hdelOne (p : Handle) (i n : ℕ) : M ℕ := do
  let h ← deref hashKind p
  let field ← arg argv i
  store hashKind p (h.erase field)
  pure (if field ∈ h then n + 1 else n)

/-- `HDEL` after the lookup. -/
def hdelBody (_ : LookupResult) (p : Handle) : M Unit := do
  let n ← forArgs argv 1 (hdelOne argv p) 2 0
  replyInt n

/-- `HDEL`. -/
def hdel : M Unit := do
  let key ← arg argv 1
  withTyped env hashKind key (hdelBody argv)

/-- `HEXISTS`. -/
def hexists : M Unit := do
  let key ← arg argv 1
  withTyped env hashKind key fun st p =>
    match st with
    | .found => do
      let h ← deref hashKind p
      let field ← arg argv 2
      replyInt (if field ∈ h then 1 else 0)
    | _ => replyInt 0

/-- `HLEN`. -/
def hlen : M Unit := do
  let key ← arg argv 1
  withTyped env hashKind key fun st p =>
    match st with
    | .found => do
      let h ← deref hashKind p
      replyInt h.size
    | _ => replyInt 0

/-- `HSETNX`. -/
def hsetnx : M Unit := do
  let key ← arg argv 1
  let p ← hashOrCreate env key
  match p with
  | none => errWrongType
  | some _ => do
    let h ← deref hashKind p
    let field ← arg argv 2
    if field ∈ h then replyInt 0
    else do
      let val ← arg argv 3
      store hashKind p (h.insert field val)
      replyInt 1

/-- `HSTRLEN` after the lookup. -/
def hstrlenBody (st : LookupResult) (p : Handle) : M Unit := do
  let field ← arg argv 2
  match ← hashFind st p field with
  | some v => replyInt v.length
  | none => replyInt 0

/-- `HSTRLEN`. -/
def hstrlen : M Unit := do
  let key ← arg argv 1
  withTyped env hashKind key (hstrlenBody argv)

/-- `HINCRBY` after the lookup. -/
def hincrbyBody (p : Handle) (delta : ℤ) : M Unit := do
  let h ← deref hashKind p
  let field ← arg argv 2
  match h.lookup field with
  | none => do
    store hashKind p (h.insert field (printInt delta))
    replyInt delta
  | some s =>
    match parseIntStrict s with
    | none => errHashNotInt
    | some cur =>
      let res := cur + delta
      if res < -2^63 ∨ 2^63 ≤ res then errNotInt
      else do
        store hashKind p (h.insert field (printInt res))
        replyInt res

/-- `HINCRBY`. -/
def hincrby : M Unit := do
  let s ← arg argv 3
  match parseIntStrict s with
  | none => errNotInt
  | some delta => do
    let key ← arg argv 1
    let p ← hashOrCreate env key
    match p with
    | none => errWrongType
    | some _ => hincrbyBody argv p delta

/-- `HINCRBYFLOAT` after the lookup. -/
def hincrbyfloatBody (p : Handle) (delta : LongDouble) : M Unit := do
  let h ← deref hashKind p
  let field ← arg argv 2
  let cur := match h.lookup field with
    | none => some env.floats.zeroLong
    | some s => parseLongDoubleStrict env.floats s
  match cur with
  | none => errHashNotFloat
  | some cur =>
    let res := env.floats.addLong cur delta
    if env.floats.isNaNLong res || env.floats.isInfLong res then errIncrOverflow
    else do
      let s ← formatLongDouble env.floats res
      store hashKind p (h.insert field s)
      replyBulk s

/-- `HINCRBYFLOAT`. -/
def hincrbyfloat : M Unit := do
  let s ← arg argv 3
  match parseLongDoubleStrict env.floats s with
  | none => errNotFloat
  | some delta => do
    let key ← arg argv 1
    let p ← hashOrCreate env key
    match p with
    | none => errWrongType
    | some _ => hincrbyfloatBody env argv p delta

end TinyRedis.Commands

import TinyRedis.Commands.Lists

/-!
# Set commands

`SREM` uses the pointer of `GetTyped` also when the key is missing.
-/

namespace TinyRedis.Commands

open Lib

variable (env : Env) (argv : Args)

/-! ## Members -/

/-- One member of `SADD`, with the number of new members. -/
def saddOne (p : Handle) (i added : ℕ) : M ℕ := do
  let m ← arg argv i
  let s ← deref setKind p
  if m ∈ s then pure added
  else do
    store setKind p (s.insert m ())
    pure (added + 1)

/-- `SADD`. -/
def sadd : M Unit := do
  let key ← arg argv 1
  let p ← setCreate env key
  match p with
  | none => errWrongType
  | some _ => do
    let added ← forArgs argv 1 (saddOne argv p) 2 0
    replyInt added

/-- One member of `SREM`, with the number of members that were there. -/
def sremOne (p : Handle) (i n : ℕ) : M ℕ := do
  let s ← deref setKind p
  let m ← arg argv i
  store setKind p (s.erase m)
  pure (if m ∈ s then n + 1 else n)

/-- `SREM` after the lookup. -/
def sremBody (_ : LookupResult) (p : Handle) : M Unit := do
  let n ← forArgs argv 1 (sremOne argv p) 2 0
  replyInt n

/-- `SREM`. -/
def srem : M Unit := do
  let key ← arg argv 1
  withTyped env setKind key (sremBody argv)

/-- `SetMembersSorted`. -/
def setMembersSorted (s : Dict Bytes Unit) : List Bytes := sorted (s.toList.map Prod.fst)

/-- `SMEMBERS`. -/
def smembers : M Unit := do
  let key ← arg argv 1
  withTyped env setKind key fun st p =>
    match st with
    | .found => do
      let s ← deref setKind p
      replyBulkArray (setMembersSorted s)
    | _ => replyBulkArray []

/-- `SISMEMBER`. -/
def sismember : M Unit := do
  let key ← arg argv 1
  withTyped env setKind key fun st p =>
    match st with
    | .found => do
      let s ← deref setKind p
      let m ← arg argv 2
      replyInt (if m ∈ s then 1 else 0)
    | _ => replyInt 0

/-- `SCARD`. -/
def scard : M Unit := do
  let key ← arg argv 1
  withTyped env setKind key fun st p =>
    match st with
    | .found => do
      let s ← deref setKind p
      replyInt s.size
    | _ => replyInt 0

/-! ## Random members -/

/-- `random_member` of `SPOP` and of `SRANDMEMBER`. -/
def randomMember (s : Dict Bytes Unit) : M Bytes := do
  let items ← iterate env s.toList
  let i ← randomBelow env items.length
  match items[i]? with
  | some kv => pure kv.1
  | none => fault .outOfRange

/-- The loop of `SPOP`. -/
def spopMany (p : Handle) : ℕ → M (List Bytes)
  | 0 => pure []
  | n + 1 => do
    let s ← deref setKind p
    let m ← randomMember env s
    store setKind p (s.erase m)
    let rest ← spopMany p n
    pure (m :: rest)

/-- `SPOP` on a set that is not empty. -/
def spopBody (count : ℤ) (p : Handle) (s : Dict Bytes Unit) : M Unit := do
  if count < 0 then do
    let m ← randomMember env s
    store setKind p (s.erase m)
    replyBulk m
  else if count = 0 then replyEmptyArray
  else do
    let items ← spopMany env p (min count s.size).toNat
    replyBulkArray items

/-- `SPOP`. -/
def spop : M Unit := do
  let key ← arg argv 1
  withTyped env setKind key fun st p => do
    match ← countArg argv (-1) with
    | none => errNotInt
    | some count =>
      match st with
      | .found => do
        let s ← deref setKind p
        if s.entries.isEmpty then replyNullBulk else spopBody env count p s
      | _ => replyNullBulk

/-- The loop of `SRANDMEMBER` with a negative count. -/
def randomMembers (s : Dict Bytes Unit) : ℕ → M (List Bytes)
  | 0 => pure []
  | n + 1 => do
    let m ← randomMember env s
    let rest ← randomMembers s n
    pure (m :: rest)

/-- `SRANDMEMBER` on a set that is not empty. -/
def srandmemberBody (count : ℤ) (s : Dict Bytes Unit) : M Unit := do
  if argv.length = 2 then do
    let m ← randomMember env s
    replyBulk m
  else if 0 ≤ count then do
    let items ← iterate env s.toList
    -- `std::shuffle`.
    let pool ← iterate env (items.map Prod.fst)
    replyBulkArray (sorted (pool.take (min count s.size).toNat))
  else do
    let n ← checked (-count)
    let items ← randomMembers env s n.toNat
    replyBulkArray (sorted items)

/-- `SRANDMEMBER`. -/
def srandmember : M Unit := do
  let key ← arg argv 1
  withTyped env setKind key fun st p => do
    let s ← argIf (argv.length = 3) argv 2
    let count := match s with
      | some s => parseIntStrict s
      | none => some (-1)
    match count with
    | none => errNotInt
    | some count =>
      let empty : M Unit :=
        if count < 0 ∨ argv.length = 2 then replyNullBulk else replyEmptyArray
      match st with
      | .found => do
        let s ← deref setKind p
        if s.entries.isEmpty then empty else srandmemberBody env argv count s
      | _ => empty

/-! ## Between sets -/

/-- The move of `SMOVE`. -/
def moveMember (m : Bytes) (src dst : Handle) : M Unit := do
  let s ← deref setKind src
  store setKind src (s.erase m)
  let d ← deref setKind dst
  store setKind dst (if m ∈ d then d else d.insert m ())
  replyInt 1

/-- `SMOVE` after the lookups. -/
def smoveBody (srcKey dstKey : Bytes) (sst : LookupResult) (src : Handle) (dstSt : LookupResult)
    (dst : Handle) : M Unit :=
  match sst with
  | .found => do
    let s ← deref setKind src
    let m ← arg argv 3
    if m ∉ s then replyInt 0
    else if srcKey = dstKey then replyInt 1
    else
      match dstSt with
      | .found => moveMember m src dst
      | _ => do
        let dst ← setCreate env dstKey
        moveMember m src dst
  | _ => replyInt 0

/-- `SMOVE`. -/
def smove : M Unit := do
  let srcKey ← arg argv 1
  withTyped env setKind srcKey fun sst src => do
    let dstKey ← arg argv 2
    withTyped env setKind dstKey fun dstSt dst =>
      smoveBody env argv srcKey dstKey sst src dstSt dst

/-- `SetOp`. -/
inductive SetOp where
  | union
  | inter
  | diff
  deriving DecidableEq, Repr

/-- The set with the members of a list. -/
def setOf (ms : List Bytes) : Dict Bytes Unit :=
  ms.foldl (fun s m => if m ∈ s then s else s.insert m ()) ∅

/-- The members of the sets that some pointers point to. -/
def membersOf : List Handle → M (List Bytes)
  | [] => pure []
  | p :: ps => do
    let s ← deref setKind p
    let rest ← membersOf ps
    pure (s.toList.map Prod.fst ++ rest)

/-- `in_all`: whether a member is in all sets. -/
def inAll (m : Bytes) : List Handle → M Bool
  | [] => pure true
  | p :: ps => do
    let s ← deref setKind p
    if m ∈ s then inAll m ps else pure false

/-- `in_any`: whether a member is in one of the sets. -/
def inAny (m : Bytes) : List Handle → M Bool
  | [] => pure false
  | p :: ps => do
    let s ← deref setKind p
    if m ∈ s then pure true else inAny m ps

/-- The members with a property. -/
def filterMembers (test : Bytes → M Bool) : List Bytes → M (List Bytes)
  | [] => pure []
  | m :: ms => do
    let b ← test m
    let rest ← filterMembers test ms
    pure (if b then m :: rest else rest)

/-- `EvalSetOp` on the sets it found. -/
def combine (op : SetOp) (base : Handle) (others : List Handle) : M (Dict Bytes Unit) := do
  let s ← deref setKind base
  let ms := s.toList.map Prod.fst
  match op with
  | .union => do
    let rest ← membersOf others
    pure (setOf (ms ++ rest))
  | .inter => do
    let ms ← filterMembers (inAll · others) ms
    pure (setOf ms)
  | .diff => do
    let ms ← filterMembers (fun m => do
      let b ← inAny m others
      pure !b) ms
    pure (setOf ms)

/-- One key of `EvalSetOp`: the pointers so far, or the result, `none` for an error. -/
def evalSetOpOne (op : SetOp) (i : ℕ) (ps : List Handle) :
    M (Step (List Handle) (Option (Dict Bytes Unit))) := do
  let key ← arg argv i
  let (st, p) ← getTyped env setKind key
  match st with
  | .wrongType => do
    errWrongType
    pure (.stop none)
  | .missing => if op = .inter then pure (.stop (some ∅)) else pure (.next (i + 1) ps)
  | .found => pure (.next (i + 1) (ps ++ [p]))

/-- `EvalSetOp`, with `none` if `ok` is false. -/
def evalSetOp (skip : ℕ) (op : SetOp) : M (Option (Dict Bytes Unit)) := do
  match ← argLoop argv (evalSetOpOne env argv op) argv.length skip [] with
  | .stop r => pure r
  | .next _ [] => pure (some ∅)
  | .next _ (base :: others) => do
    let res ← combine op base others
    pure (some res)

/-- `CmdSetOp`. -/
def cmdSetOp (op : SetOp) : M Unit := do
  match ← evalSetOp env argv 1 op with
  | none => pure ()
  | some res => replyBulkArray (setMembersSorted res)

/-- `CmdSetOpStore`. -/
def cmdSetOpStore (op : SetOp) : M Unit := do
  let dst ← arg argv 1
  match ← evalSetOp env argv 2 op with
  | none => pure ()
  | some res => do
    let e ← setAndLookup env dst (.set res)
    match setKind.get e.value with
    | some s => replyInt s.size
    | none => fault .nullHandle

/-- `SINTER`. -/
def sinter : M Unit := cmdSetOp env argv .inter

/-- `SUNION`. -/
def sunion : M Unit := cmdSetOp env argv .union

/-- `SDIFF`. -/
def sdiff : M Unit := cmdSetOp env argv .diff

/-- `SINTERSTORE`. -/
def sinterstore : M Unit := cmdSetOpStore env argv .inter

/-- `SUNIONSTORE`. -/
def sunionstore : M Unit := cmdSetOpStore env argv .union

/-- `SDIFFSTORE`. -/
def sdiffstore : M Unit := cmdSetOpStore env argv .diff

end TinyRedis.Commands

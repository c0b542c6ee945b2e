import TinyRedis.Commands.Text

/-!
# List commands
-/

namespace TinyRedis.Commands

variable (env : Env) (argv : Args)

/-! ## Ends of a list -/

/-- `push_front` or `push_back`. -/
def pushEnd (left : Bool) (l : List Bytes) (v : Bytes) : List Bytes :=
  if left then v :: l else l ++ [v]

/-- `front` or `back`, and the list after `pop_front` or `pop_back`. -/
def popEnd (left : Bool) (l : List Bytes) : Option (Bytes × List Bytes) :=
  if left then
    match l with
    | [] => none
    | v :: l => some (v, l)
  else
    match l.getLast? with
    | none => none
    | some v => some (v, l.dropLast)

/-- One element of `CmdPush`. -/
def pushOne (left : Bool) (p : Handle) (i : ℕ) (_ : Unit) : M Unit := do
  let v ← arg argv i
  let l ← deref listKind p
  store listKind p (pushEnd left l v)

/-- `CmdPush`. -/
def cmdPush (left : Bool) : M Unit := do
  let key ← arg argv 1
  let p ← listCreate env key
  match p with
  | none => errWrongType
  | some _ => do
    forArgs argv 1 (pushOne argv left p) 2 ()
    let l ← deref listKind p
    replyInt l.length

/-- `LPUSH`. -/
def lpush : M Unit := cmdPush env argv true

/-- `RPUSH`. -/
def rpush : M Unit := cmdPush env argv false

/-- The loop of `CmdPop`: `n` elements, and what is left. -/
def popMany (left : Bool) : ℕ → List Bytes → List Bytes × List Bytes
  | 0, l => ([], l)
  | n + 1, l =>
    match popEnd left l with
    | none => ([], l)
    | some (v, l) =>
      let r := popMany left n l
      (v :: r.1, r.2)

/-- The optional count of a command: `none` if it is not valid, and `default` if there is none. -/
def countArg (default : ℤ) : M (Option ℤ) :=
  if argv.length = 3 then do
    let s ← arg argv 2
    match parseIntStrict s with
    | none => pure none
    | some count => pure (if count < 0 then none else some count)
  else pure (some default)

/-- `CmdPop` on a list that is not empty. -/
def popBody (left : Bool) (count : ℤ) (p : Handle) (l : List Bytes) : M Unit := do
  if count < 0 then
    match popEnd left l with
    | none => fault .outOfRange
    | some (v, l) => do
      store listKind p l
      replyBulk v
  else do
    let r := popMany left (min count l.length).toNat l
    store listKind p r.2
    if r.1 = [] then replyEmptyArray else replyBulkArray r.1

/-- `CmdPop`. -/
def cmdPop (left : Bool) : M Unit := do
  let key ← arg argv 1
  match ← countArg argv (-1) with
  | none => errNotInt
  | some count =>
    withTyped env listKind key fun st p =>
      match st with
      | .found => do
        let l ← deref listKind p
        if l = [] then replyNullBulk else popBody left count p l
      | _ => replyNullBulk

/-- `LPOP`. -/
def lpop : M Unit := cmdPop env argv true

/-- `RPOP`. -/
def rpop : M Unit := cmdPop env argv false

/-- `LLEN`. -/
def llen : M Unit := do
  let key ← arg argv 1
  withTyped env listKind key fun st p =>
    match st with
    | .found => do
      let l ← deref listKind p
      replyInt l.length
    | _ => replyInt 0

/-! ## Positions in a list -/

/-- `ListIndexRange`, `none` for an empty window. -/
def listIndexRange (start stop llen : ℤ) : Option (ℤ × ℤ) :=
  let start := if start < 0 then start + llen else start
  let stop := if stop < 0 then stop + llen else stop
  let start := if start < 0 then 0 else start
  let stop := if llen ≤ stop then llen - 1 else stop
  if stop < start then none else some (start, stop)

/-- The elements of a list from `start` to `stop`. -/
def listWindow (start stop : ℤ) (l : List Bytes) : List Bytes :=
  (l.take (stop + 1).toNat).drop start.toNat

/-- Two integer arguments, `none` if one of them is not valid. -/
def twoInts (i j : ℕ) : M (Option (ℤ × ℤ)) := do
  let a ← arg argv i
  match parseIntStrict a with
  | none => pure none
  | some start => do
    let b ← arg argv j
    match parseIntStrict b with
    | none => pure none
    | some stop => pure (some (start, stop))

/-- `LRANGE`. With a missing key the length is zero, and so the window is empty. -/
def lrange : M Unit := do
  let key ← arg argv 1
  withTyped env listKind key fun st p => do
    match ← twoInts argv 2 3 with
    | none => errNotInt
    | some (start, stop) => do
      let l ← derefOr listKind [] st p
      match listIndexRange start stop l.length with
      | none => replyEmptyArray
      | some (start, stop) => do
        let l ← deref listKind p
        replyBulkArray (listWindow start stop l)

/-- The position of an index, which may count from the end. -/
def listIndex (idx : ℤ) (l : List Bytes) : Option ℕ :=
  let idx := if idx < 0 then idx + l.length else idx
  if idx < 0 ∨ l.length ≤ idx then none else some idx.toNat

/-- `LINDEX`. -/
def lindex : M Unit := do
  let key ← arg argv 1
  withTyped env listKind key fun st p => do
    let s ← arg argv 2
    match parseIntStrict s with
    | none => errNotInt
    | some idx =>
      match st with
      | .found => do
        let l ← deref listKind p
        match listIndex idx l with
        | none => replyNullBulk
        | some i => replyBulk (l.getD i [])
      | _ => replyNullBulk

/-- `LSET` on a list. -/
def lsetBody (p : Handle) (idx : ℤ) : M Unit := do
  let l ← deref listKind p
  if l = [] then replyError (bytes "ERR no such key")
  else
    match listIndex idx l with
    | none => replyError (bytes "ERR index out of range")
    | some i => do
      let v ← arg argv 3
      store listKind p (l.set i v)
      replySimple (bytes "OK")

/-- `LSET`. -/
def lset : M Unit := do
  let key ← arg argv 1
  withTyped env listKind key fun st p => do
    let s ← arg argv 2
    match parseIntStrict s with
    | none => errNotInt
    | some idx =>
      match st with
      | .found => lsetBody argv p idx
      | _ => replyError (bytes "ERR no such key")

/-! ## Values in a list -/

/-- The loop of `LREM` from the head: what is left of the list, and `removed`. -/
def eraseForward (v : Bytes) (count : ℤ) : List Bytes → ℤ → List Bytes × ℤ
  | [], removed => ([], removed)
  | x :: l, removed =>
    if count = 0 ∨ removed < count then
      if x = v then eraseForward v count l (removed + 1)
      else (x :: (eraseForward v count l removed).1, (eraseForward v count l removed).2)
    else (x :: l, removed)

/-- `hits`: the iterators to the elements that are `v`. An iterator stays at its element when others
are erased; it is the position that the element has before the loop. -/
def hitsOf (v : Bytes) (l : List Bytes) : List ℕ :=
  (l.zipIdx.filter fun x => decide (x.1 = v)).map Prod.snd

/-- `hits[k]`. -/
def hitAt (hits : List ℕ) (k : ℤ) : M ℕ :=
  if k < 0 then fault .outOfRange
  else
    match hits[k.toNat]? with
    | none => fault .outOfRange
    | some it => pure it

/-- The loop of `LREM` over the hits, from `k` down to `last`: the elements that are left with their
iterators, and `removed`. The first argument bounds the number of its steps. -/
def eraseBackward (hits : List ℕ) (last : ℤ) :
    ℕ → ℤ → List (Bytes × ℕ) → ℤ → M (List (Bytes × ℕ) × ℤ)
  | 0, _, nodes, removed => pure (nodes, removed)
  | n + 1, k, nodes, removed =>
    if last ≤ k then do
      let it ← hitAt hits k
      eraseBackward hits last n (k - 1) (nodes.filter fun x => decide (x.2 ≠ it)) (removed + 1)
    else pure (nodes, removed)

/-- `LREM` on a list: what is left of it, and `removed`. -/
def removeCount (v : Bytes) (count : ℤ) (l : List Bytes) : M (List Bytes × ℤ) :=
  if 0 ≤ count then pure (eraseForward v count l 0)
  else do
    let hits := hitsOf v l
    let n ← checked (-count)
    let want := min (hits.length : ℤ) n
    -- A step that goes on below the first hit is one out of range.
    let r ← eraseBackward hits (hits.length - want) (hits.length + 1) (hits.length - 1) l.zipIdx 0
    pure (r.1.map Prod.fst, r.2)

/-- `LREM`. -/
def lrem : M Unit := do
  let key ← arg argv 1
  withTyped env listKind key fun st p => do
    let s ← arg argv 2
    match parseIntStrict s with
    | none => errNotInt
    | some count =>
      match st with
      | .found => do
        let l ← deref listKind p
        let v ← arg argv 3
        let r ← removeCount v count l
        store listKind p r.1
        replyInt r.2
      | _ => replyInt 0

/-- The list with `v` before or after the first occurrence of `pivot`. -/
def insertBeside (before : Bool) (pivot v : Bytes) : List Bytes → Option (List Bytes)
  | [] => none
  | x :: l =>
    if x = pivot then some (if before then v :: x :: l else x :: v :: l)
    else (insertBeside before pivot v l).map (x :: ·)

/-- `LINSERT`. -/
def linsert : M Unit := do
  let s ← arg argv 2
  let side := toUpper s
  if side ≠ bytes "BEFORE" ∧ side ≠ bytes "AFTER" then errSyntax
  else do
    let key ← arg argv 1
    withTyped env listKind key fun st p =>
      match st with
      | .found => do
        let l ← deref listKind p
        let pivot ← arg argv 3
        let v ← arg argv 4
        match insertBeside (decide (side = bytes "BEFORE")) pivot v l with
        | none => replyInt (-1)
        | some l => do
          store listKind p l
          replyInt l.length
      | _ => replyInt 0

/-- `LTRIM` on a list. -/
def ltrimBody (key : Bytes) (p : Handle) (start stop : ℤ) : M Unit := do
  let l ← deref listKind p
  if l = [] then replySimple (bytes "OK")
  else
    match listIndexRange start stop l.length with
    | none => do
      let _ ← delete key
      replySimple (bytes "OK")
    | some (start, stop) => do
      let l := listWindow start stop l
      store listKind p l
      if l = [] then do
        let _ ← delete key
        replySimple (bytes "OK")
      else replySimple (bytes "OK")

/-- `LTRIM`. -/
def ltrim : M Unit := do
  let key ← arg argv 1
  withTyped env listKind key fun st p => do
    match ← twoInts argv 2 3 with
    | none => errNotInt
    | some (start, stop) =>
      match st with
      | .found => ltrimBody key p start stop
      | _ => replySimple (bytes "OK")

/-! ## Between lists -/

/-- The move of `CmdLMove` within one list, which is not empty. -/
def rotate (fromLeft toLeft : Bool) (l : List Bytes) : Option (Bytes × List Bytes) :=
  match popEnd fromLeft l with
  | none => none
  | some (v, rest) => some (v, if fromLeft = toLeft then l else pushEnd toLeft rest v)

/-- The move of `CmdLMove`. -/
def moveEnd (fromLeft toLeft same : Bool) (sl dl : Handle) : M Unit := do
  let l ← deref listKind sl
  if same then
    match rotate fromLeft toLeft l with
    | none => fault .outOfRange
    | some (v, l) => do
      store listKind sl l
      replyBulk v
  else
    match popEnd fromLeft l with
    | none => fault .outOfRange
    | some (v, rest) => do
      store listKind sl rest
      let d ← deref listKind dl
      store listKind dl (pushEnd toLeft d v)
      replyBulk v

/-- `CmdLMove` after the lookups. -/
def lmoveBody (src dst : Bytes) (fromLeft toLeft : Bool) (sst : LookupResult) (sl : Handle)
    (dstSt : LookupResult) (dl : Handle) : M Unit :=
  match sst with
  | .found => do
    let l ← deref listKind sl
    if l = [] then replyNullBulk
    else
      match dstSt with
      | .found => moveEnd fromLeft toLeft (decide (src = dst)) sl dl
      | _ => do
        let dl ← listCreate env dst
        match dl with
        | none => errWrongType
        | some _ => moveEnd fromLeft toLeft (decide (src = dst)) sl dl
  | _ => replyNullBulk

/-- `CmdLMove`. -/
def cmdLMove : M Unit := do
  let src ← arg argv 1
  let dst ← arg argv 2
  let s ← arg argv 3
  let d ← arg argv 4
  let fromSide := toUpper s
  let toSide := toUpper d
  if fromSide ≠ bytes "LEFT" ∧ fromSide ≠ bytes "RIGHT" then errSyntax
  else if toSide ≠ bytes "LEFT" ∧ toSide ≠ bytes "RIGHT" then errSyntax
  else
    withTyped env listKind src fun sst sl =>
      withTyped env listKind dst fun dstSt dl =>
        lmoveBody env src dst (decide (fromSide = bytes "LEFT")) (decide (toSide = bytes "LEFT"))
          sst sl dstSt dl

/-- `RPOPLPUSH`. -/
def rpoplpush : M Unit := do
  let src ← arg argv 1
  let dst ← arg argv 2
  cmdLMove env [bytes "LMOVE", src, dst, bytes "RIGHT", bytes "LEFT"]

end TinyRedis.Commands

import TinyRedis.Commands.Lists

/-!
# Sorted set commands

A sorted set has two indices, which the handlers write one after the other. `ZSCORE` and `ZREM` use
the pointer of `GetTyped` also when the key is missing.
-/

namespace TinyRedis.Commands

open Lib

variable (env : Env) (argv : Args)

/-! ## Both indices -/

/-- `z->dict[member] = score` and `z->sl.Insert(score, member)`, for a member that is new. -/
def addPair (p : Handle) (z : ZSetValue) (score : Double) (member : Bytes) : M Unit := do
  let level ← randomLevel env
  let (_, sl) ← liftSkipList (z.sl.insert level score member)
  store zsetKind p ⟨sl, z.dict.insert member score⟩

/-- `z->sl.Erase(old, member)`, `z->sl.Insert(score, member)`, and `it->second = score`. -/
def rescore (p : Handle) (z : ZSetValue) (old score : Double) (member : Bytes) : M Unit := do
  let (_, sl) ← liftSkipList (z.sl.erase old member)
  let level ← randomLevel env
  let (_, sl) ← liftSkipList (sl.insert level score member)
  store zsetKind p ⟨sl, z.dict.insert member score⟩

/-- `z->sl.Erase(score, member)` and `z->dict.erase(member)`. -/
def removePair (z : ZSetValue) (score : Double) (member : Bytes) : Except Fault ZSetValue := do
  let (_, sl) ← z.sl.erase score member
  .ok ⟨sl, z.dict.erase member⟩

/-- A score for a member, which may be new. -/
def putScore (p : Handle) (z : ZSetValue) (score : Double) (member : Bytes) : M Unit :=
  match z.dict.lookup member with
  | some old => rescore env p z old score member
  | none => addPair env p z score member

/-- Add to the score of a member, which is 0 for a new one: the new score, or `none` if it is not
finite. -/
def incrScore (p : Handle) (z : ZSetValue) (delta : Double) (member : Bytes) :
    M (Option Double) := do
  let res := env.floats.add ((z.dict.lookup member).getD Score.zero) delta
  if res.isNaN || res.isInf then pure none
  else do
    putScore env p z res member
    pure (some res)

/-- A score in an argument, which must not be NaN. -/
def parseScore (s : Bytes) : Option Double :=
  match parseDoubleStrict env.floats s with
  | none => none
  | some d => if d.isNaN then none else some d

/-! ## `ZADD` -/

/-- The flags of `ZADD`. -/
structure ZAddFlags where
  nx : Bool
  xx : Bool
  ch : Bool
  incr : Bool

/-- One flag of `ZADD`. The loop stops at the first argument that is none. -/
def zaddFlag (i : ℕ) (f : ZAddFlags) : M (Step ZAddFlags (ℕ × ZAddFlags)) := do
  let s ← arg argv i
  let o := toUpper s
  if o = bytes "NX" then pure (.next (i + 1) { f with nx := true })
  else if o = bytes "XX" then pure (.next (i + 1) { f with xx := true })
  else if o = bytes "CH" then pure (.next (i + 1) { f with ch := true })
  else if o = bytes "INCR" then pure (.next (i + 1) { f with incr := true })
  else pure (.stop (i, f))

/-- The counters of `ZADD`. -/
structure ZAddCount where
  added : ℕ
  changed : ℕ

/-- One pair of `ZADD` without `INCR`. -/
def zaddOne (f : ZAddFlags) (p : Handle) (i : ℕ) (c : ZAddCount) : M (Step ZAddCount Unit) := do
  let s ← arg argv i
  match parseScore env s with
  | none => do
    errNotFloat
    pure (.stop ())
  | some score => do
    let member ← arg argv (i + 1)
    let z ← deref zsetKind p
    match z.dict.lookup member with
    | some old =>
      if f.nx || Score.eq old score then pure (.next (i + 2) c)
      else do
        rescore env p z old score member
        pure (.next (i + 2) { c with changed := c.changed + 1 })
    | none =>
      if f.xx then pure (.next (i + 2) c)
      else do
        addPair env p z score member
        pure (.next (i + 2) ⟨c.added + 1, c.changed + 1⟩)

/-- The one pair of `ZADD` with `INCR`. -/
def zaddIncr (f : ZAddFlags) (p : Handle) (i : ℕ) : M Unit := do
  let s ← arg argv i
  match parseScore env s with
  | none => errNotFloat
  | some score => do
    let member ← arg argv (i + 1)
    let z ← deref zsetKind p
    let known := (z.dict.lookup member).isSome
    if (f.nx && !known) || (f.xx && known) then replyNullBulk
    else do
      match ← incrScore env p z score member with
      | none => errIncrOverflow
      | some res => replyBulk (formatDouble env.floats res)

/-- `ZADD` after the flags, with `i` the index of the first score. -/
def zaddWith (lower : Bytes) (i : ℕ) (f : ZAddFlags) : M Unit := do
  let rest := argv.length - i
  if f.nx && f.xx then errSyntax
  else if f.incr && decide (rest ≠ 2) then errSyntax
  else if rest = 0 ∨ rest % 2 ≠ 0 then errWrongArgs lower
  else do
    let key ← arg argv 1
    let p ← zsetCreate env key
    match p with
    | none => errWrongType
    | some _ =>
      if f.incr then zaddIncr env argv f p i
      else do
        match ← argLoop argv (zaddOne env argv f p) argv.length i ⟨0, 0⟩ with
        | .stop _ => pure ()
        | .next _ c => replyInt (if f.ch then c.changed else c.added)

/-- `ZADD`. -/
def zadd (lower : Bytes) : M Unit := do
  match ← argLoop argv (zaddFlag argv) argv.length 2 ⟨false, false, false, false⟩ with
  | .stop (i, f) => zaddWith env argv lower i f
  | .next i f => zaddWith env argv lower i f

/-- `ZINCRBY`. -/
def zincrby : M Unit := do
  let s ← arg argv 2
  match parseScore env s with
  | none => errNotFloat
  | some delta => do
    let key ← arg argv 1
    let p ← zsetCreate env key
    match p with
    | none => errWrongType
    | some _ => do
      let z ← deref zsetKind p
      let member ← arg argv 3
      match ← incrScore env p z delta member with
      | none => errIncrOverflow
      | some res => replyBulk (formatDouble env.floats res)

/-! ## Reading -/

/-- `ZSCORE` after the lookup. -/
def zscoreBody (st : LookupResult) (p : Handle) : M Unit := do
  let member ← arg argv 2
  -- `st == kFound ? z->dict.find(member) : z->dict.end()`.
  let z ← deref zsetKind p
  match st, z.dict.lookup member with
  | .found, some score => replyBulk (formatDouble env.floats score)
  | _, _ => replyNullBulk

/-- `ZSCORE`. -/
def zscore : M Unit := do
  let key ← arg argv 1
  withTyped env zsetKind key (zscoreBody env argv)

/-- `ZCARD`. -/
def zcard : M Unit := do
  let key ← arg argv 1
  withTyped env zsetKind key fun st p =>
    match st with
    | .found => do
      let z ← deref zsetKind p
      replyInt z.dict.size
    | _ => replyInt 0

/-- `AppendScoredPairs`. -/
def replyScoredPairs (v : List (Double × Bytes)) (withScores : Bool) : M Unit := do
  if v = [] then replyEmptyArray
  else if !withScores then replyBulkArray (v.map Prod.snd)
  else replyBulkArray (v.flatMap fun e => [e.2, formatDouble env.floats e.1])

/-- The options of `ZRANGE`. -/
structure RangeOptions where
  withScores : Bool
  rev : Bool

/-- One option of `ZRANGE` and `ZREVRANGE`. Only the first has `REV`. -/
def zrangeOption (isZrange : Bool) (i : ℕ) (o : RangeOptions) : M (Step RangeOptions Unit) := do
  let s ← arg argv i
  let opt := toUpper s
  if opt = bytes "WITHSCORES" then pure (.next (i + 1) { o with withScores := true })
  else if opt = bytes "REV" ∧ isZrange then pure (.next (i + 1) { o with rev := true })
  else do
    errSyntax
    pure (.stop ())

/-- `ZRANGE` and `ZREVRANGE` after the lookup. -/
def zrangeBody (isZrange : Bool) (st : LookupResult) (p : Handle) : M Unit := do
  match ← twoInts argv 2 3 with
  | none => errNotInt
  | some (start, stop) => do
    match ← argLoop argv (zrangeOption argv isZrange) argv.length 4 ⟨false, !isZrange⟩ with
    | .stop _ => pure ()
    | .next _ o =>
      match st with
      | .found => do
        let z ← deref zsetKind p
        let v ← liftSkipList (z.sl.rangeByRank start stop o.rev)
        replyScoredPairs env v o.withScores
      | _ => replyEmptyArray

/-- `ZRANGE` and `ZREVRANGE`. -/
def zrangeWith (isZrange : Bool) : M Unit := do
  let key ← arg argv 1
  withTyped env zsetKind key (zrangeBody env argv isZrange)

/-- `ZRANGE`. -/
def zrange : M Unit := zrangeWith env argv true

/-- `ZREVRANGE`. -/
def zrevrange : M Unit := zrangeWith env argv false

/-- The options of `ZRANGEBYSCORE`. -/
structure ScoreOptions where
  withScores : Bool
  offset : ℤ
  count : ℤ

/-- One option of `ZRANGEBYSCORE` and `ZREVRANGEBYSCORE`. -/
def byScoreOption (i : ℕ) (o : ScoreOptions) : M (Step ScoreOptions Unit) := do
  let s ← arg argv i
  let opt := toUpper s
  if opt = bytes "WITHSCORES" then pure (.next (i + 1) { o with withScores := true })
  else if opt = bytes "LIMIT" ∧ i + 2 < argv.length then do
    match ← twoInts argv (i + 1) (i + 2) with
    | none => do
      errNotInt
      pure (.stop ())
    | some (offset, count) =>
      pure (.next (i + 3) { o with offset := offset, count := count })
  else do
    errSyntax
    pure (.stop ())

/-- A range of scores from two arguments, `none` if one of them is not valid. -/
def scoreRangeArg (minAt maxAt : ℕ) : M (Option (ScoreRange Double)) := do
  let a ← arg argv minAt
  let b ← arg argv maxAt
  match parseScoreBound env.floats a, parseScoreBound env.floats b with
  | some min, some max => pure (some (toRange min max))
  | _, _ => pure none

/-- The reply to a bound that is no number. -/
def errBound : M Unit := replyError (bytes "ERR min or max is not a float")

/-- `ZRANGEBYSCORE` and `ZREVRANGEBYSCORE`. The second has the maximum first. -/
def zrangeByScoreWith (rev : Bool) : M Unit := do
  let key ← arg argv 1
  withTyped env zsetKind key fun st p => do
    match ← scoreRangeArg env argv (if rev then 3 else 2) (if rev then 2 else 3) with
    | none => errBound
    | some range => do
      match ← argLoop argv (byScoreOption argv) argv.length 4 ⟨false, 0, -1⟩ with
      | .stop _ => pure ()
      | .next _ o =>
        match st with
        | .found => do
          let z ← deref zsetKind p
          let v ← liftSkipList (z.sl.rangeByScore range rev o.offset o.count)
          replyScoredPairs env v o.withScores
        | _ => replyEmptyArray

/-- `ZRANGEBYSCORE`. -/
def zrangebyscore : M Unit := zrangeByScoreWith env argv false

/-- `ZREVRANGEBYSCORE`. -/
def zrevrangebyscore : M Unit := zrangeByScoreWith env argv true

/-- `ZRANK` and `ZREVRANK`, with the function of the skip list. -/
def zrankWith (rank : SkipList Double → Double → Bytes → Except Fault UInt64) : M Unit := do
  let key ← arg argv 1
  withTyped env zsetKind key fun st p =>
    match st with
    | .found => do
      let z ← deref zsetKind p
      let member ← arg argv 2
      match z.dict.lookup member with
      | none => replyNullBulk
      | some score => do
        let r ← liftSkipList (rank z.sl score member)
        if r = sizeMax then replyNullBulk else replyInt r.toNat
    | _ => replyNullBulk

/-- `ZRANK`. -/
def zrank : M Unit := zrankWith env argv SkipList.rank

/-- `ZREVRANK`. -/
def zrevrank : M Unit := zrankWith env argv SkipList.revRank

/-- `ZCOUNT`. -/
def zcount : M Unit := do
  let key ← arg argv 1
  withTyped env zsetKind key fun st p => do
    match ← scoreRangeArg env argv 2 3 with
    | none => errBound
    | some range =>
      match st with
      | .found => do
        let z ← deref zsetKind p
        let n ← liftSkipList (z.sl.countInRange range)
        replyInt n
      | _ => replyInt 0

/-! ## Removing -/

/-- One member of `ZREM`, with the number of members that were there. -/
def zremOne (st : LookupResult) (p : Handle) (i n : ℕ) : M ℕ := do
  let member ← arg argv i
  let z ← deref zsetKind p
  match st, z.dict.lookup member with
  | .found, some score => do
    let z ← liftSkipList (removePair z score member)
    store zsetKind p z
    pure (n + 1)
  | _, _ => pure n

/-- `ZREM` after the lookup. -/
def zremBody (st : LookupResult) (p : Handle) : M Unit := do
  let n ← forArgs argv 1 (zremOne argv st p) 2 0
  replyInt n

/-- `ZREM`. -/
def zrem : M Unit := do
  let key ← arg argv 1
  withTyped env zsetKind key (zremBody argv)

/-- The loop of `ZPOPMIN` and `ZPOPMAX`: what was popped, as the texts of the reply. -/
def zpopLoop (pop : SkipList Double → Except Fault (Option (Double × Bytes) × SkipList Double))
    (p : Handle) : ℕ → M (List Bytes)
  | 0 => pure []
  | n + 1 => do
    let z ← deref zsetKind p
    match ← liftSkipList (pop z.sl) with
    | (none, _) => pure []
    | (some e, sl) => do
      store zsetKind p ⟨sl, z.dict.erase e.2⟩
      let rest ← zpopLoop pop p n
      pure (e.2 :: formatDouble env.floats e.1 :: rest)

/-- `ZPOPMIN` and `ZPOPMAX`. -/
def zpopWith (pop : SkipList Double → Except Fault (Option (Double × Bytes) × SkipList Double)) :
    M Unit := do
  let key ← arg argv 1
  withTyped env zsetKind key fun st p => do
    match ← countArg argv 1 with
    | none => errNotInt
    | some count =>
      match st with
      | .found =>
        if count = 0 then replyEmptyArray
        else do
          let flat ← zpopLoop env pop p count.toNat
          replyBulkArray flat
      | _ => replyEmptyArray

/-- `ZPOPMIN`. -/
def zpopmin : M Unit := zpopWith env argv SkipList.popMin

/-- `ZPOPMAX`. -/
def zpopmax : M Unit := zpopWith env argv SkipList.popMax

/-- Remove some pairs. -/
def removePairs : List (Double × Bytes) → ZSetValue → Except Fault ZSetValue
  | [], z => .ok z
  | e :: victims, z => do
    let z ← removePair z e.1 e.2
    removePairs victims z

/-- Remove the pairs of a range, and reply their number. -/
def removeRange (p : Handle) (range : SkipList Double → Except Fault (List (Double × Bytes))) :
    M Unit := do
  let z ← deref zsetKind p
  let victims ← liftSkipList (range z.sl)
  let z ← liftSkipList (removePairs victims z)
  store zsetKind p z
  replyInt victims.length

/-- `ZREMRANGEBYRANK`. -/
def zremrangebyrank : M Unit := do
  let key ← arg argv 1
  withTyped env zsetKind key fun st p => do
    match ← twoInts argv 2 3 with
    | none => errNotInt
    | some (start, stop) =>
      match st with
      | .found => removeRange p fun sl => sl.rangeByRank start stop false
      | _ => replyInt 0

/-- `ZREMRANGEBYSCORE`. -/
def zremrangebyscore : M Unit := do
  let key ← arg argv 1
  withTyped env zsetKind key fun st p => do
    match ← scoreRangeArg env argv 2 3 with
    | none => errBound
    | some range =>
      match st with
      | .found => removeRange p fun sl => sl.rangeByScore range false 0 (-1)
      | _ => replyInt 0

end TinyRedis.Commands

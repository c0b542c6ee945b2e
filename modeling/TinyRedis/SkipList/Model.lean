import TinyRedis.Basic

/-!
# The skip list of `src/zskiplist.cpp`

The sorted-set backbone, over an explicit heap. A `Node*` is an address, a null pointer is `none`,
and `new` takes an address that was never used before, so that an access through a pointer to a
deleted node is a `danglingNode` fault. `forward` and `span` of a node are always resized together,
and are one list of links here.

Scores are `double`s in the source, which compares them with `<` and `==` only. The list is modelled
over any type with these two comparisons (`Score`), so that NaN, which is neither below nor equal to
any score, is covered, and so are the two zeros, which are equal but not identical.

The descent from the top level down to level 0 is written several times in the source. Here it is
one pair of functions, `walk` along one level and `descend` over the levels, with the condition to
go on as a parameter. A walk that takes more steps than the list has nodes goes round in circles,
which is the `diverges` fault.
-/

namespace TinyRedis

/-- The comparisons `<` and `==` of the scores, and the score `0.0` of a new node. -/
class Score (σ : Type) where
  /-- `0.0`. -/
  zero : σ
  /-- `a < b`. -/
  lt : σ → σ → Bool
  /-- `a == b`. -/
  eq : σ → σ → Bool

/-- `a <= b`: like the two comparisons it is made of, false when a score is NaN. -/
def Score.le {σ : Type} [Score σ] (a b : σ) : Bool := Score.lt a b || Score.eq a b

/-- The address of a node. -/
abbrev Ptr := ℕ

/-- `forward[i]` and `span[i]` of a node. -/
structure Link where
  /-- The next node of the level, `none` for null. -/
  forward : Option Ptr
  /-- The number of places the link advances at level 0, an `unsigned long`. -/
  span : UInt64
  deriving DecidableEq, Repr

/-- A node, with one link for each level below its height. -/
structure Node (σ : Type) where
  score : σ
  member : Bytes
  links : List Link

/-- `ScoreRange`: a range of scores, with each bound included or not. -/
structure ScoreRange (σ : Type) where
  min : σ
  max : σ
  minExclusive : Bool
  maxExclusive : Bool

/-- A skip list, with the heap that holds its nodes. -/
structure SkipList (σ : Type) where
  /-- The nodes, by address. -/
  heap : Ptr → Option (Node σ)
  /-- The address that the next `new` takes. -/
  fresh : Ptr
  /-- `header_`, the node before the first. -/
  header : Ptr
  /-- `level_`, the number of levels in use. -/
  level : ℕ
  /-- `length_`, the number of nodes. -/
  length : ℕ

/-- `kMaxLevel`. -/
def kMaxLevel : ℕ := 32

/-- The nodes of a list, its header, and the null pointer have different 64-bit addresses. A node
has a `double`, so its address is a multiple of 8, and `new` finds none for a node of a list that
has this many. -/
def maxNodes : ℕ := 2^61 - 2

/-- `SIZE_MAX`. -/
def sizeMax : UInt64 := UInt64.ofNat (2^64 - 1)

namespace SkipList

variable {σ : Type} [Score σ]

/-- `SkipList()`: a header with `kMaxLevel` null links. -/
def empty : SkipList σ where
  heap := Function.update (fun _ => none) 0
    (some ⟨Score.zero, [], List.replicate kMaxLevel ⟨none, 0⟩⟩)
  fresh := 1
  header := 0
  level := 1
  length := 0

/-! ## Access to nodes -/

/-- `*p`. -/
def deref (sl : SkipList σ) (p : Ptr) : Except Fault (Node σ) :=
  match sl.heap p with
  | some n => .ok n
  | none => .error .danglingNode

/-- `p->forward[i]` and `p->span[i]`. -/
def link (sl : SkipList σ) (p : Ptr) (i : ℕ) : Except Fault Link := do
  let n ← sl.deref p
  match n.links[i]? with
  | some l => .ok l
  | none => .error .levelIndex

/-- Store a node. -/
def store (sl : SkipList σ) (p : Ptr) (n : Node σ) : SkipList σ :=
  { sl with heap := Function.update sl.heap p (some n) }

/-- Assign to `p->forward[i]` and `p->span[i]`. -/
def setLink (sl : SkipList σ) (p : Ptr) (i : ℕ) (l : Link) : Except Fault (SkipList σ) := do
  let n ← sl.deref p
  if i < n.links.length then .ok (sl.store p { n with links := n.links.set i l })
  else .error .levelIndex

/-- Assign to `p->span[i]`. -/
def setSpan (sl : SkipList σ) (p : Ptr) (i : ℕ) (span : UInt64) : Except Fault (SkipList σ) := do
  let l ← sl.link p i
  sl.setLink p i { l with span := span }

/-! ## Search -/

/-- `KeyLess`: `(score, member)` ascending. -/
def keyLess (s₁ : σ) (m₁ : Bytes) (s₂ : σ) (m₂ : Bytes) : Bool :=
  if !Score.eq s₁ s₂ then Score.lt s₁ s₂ else m₁ < m₂

/-- `KeyEqual`. -/
def keyEqual (s₁ : σ) (m₁ : Bytes) (s₂ : σ) (m₂ : Bytes) : Bool :=
  Score.eq s₁ s₂ && m₁ = m₂

/-- The inner loop of a descent: along level `i` as long as the next node is `less`, with the spans
added up in `rank`. -/
def walk (sl : SkipList σ) (less : Node σ → Bool) (i : ℕ) :
    ℕ → Ptr → UInt64 → Except Fault (Ptr × UInt64)
  | 0, _, _ => .error .diverges
  | fuel + 1, x, rank => do
    let l ← sl.link x i
    match l.forward with
    | none => .ok (x, rank)
    | some y => do
      let n ← sl.deref y
      if less n then sl.walk less i fuel y (rank + l.span) else .ok (x, rank)

/-- The outer loop of a descent, over the levels below `i` from the top: the nodes `update[j]` where
the walks end, with their ranks `rank[j]`, in the order of `j`. -/
def descend (sl : SkipList σ) (less : Node σ → Bool) :
    ℕ → Ptr → UInt64 → Except Fault (List (Ptr × UInt64))
  | 0, _, _ => .ok []
  | i + 1, x, rank => do
    let (y, r) ← sl.walk less i (sl.length + 1) x rank
    let below ← sl.descend less i y r
    .ok (below ++ [(y, r)])

/-- The node `x` at the end of a descent. -/
def lastOf (sl : SkipList σ) (update : List (Ptr × UInt64)) : Ptr :=
  (update.head?.map Prod.fst).getD sl.header

/-- `FindNode`: the node with this score and member, or null, and the `update` vector. -/
def findNode (sl : SkipList σ) (score : σ) (member : Bytes) :
    Except Fault (Option Ptr × List (Ptr × UInt64)) := do
  let update ← sl.descend (fun n => keyLess n.score n.member score member) sl.level sl.header 0
  let l ← sl.link (sl.lastOf update) 0
  match l.forward with
  | none => .ok (none, update)
  | some cand => do
    let n ← sl.deref cand
    .ok (if keyEqual n.score n.member score member then some cand else none, update)

/-- `Contains`. -/
def contains (sl : SkipList σ) (score : σ) (member : Bytes) : Except Fault Bool := do
  let (cand, _) ← sl.findNode score member
  .ok cand.isSome

/-! ## Insertion -/

/-- The loop of `RandomLevel`, with `flips` saying for each level whether the draw is below
`kBranchProb`. -/
def climb (flips : ℕ → Bool) : ℕ → ℕ → ℕ
  | 0, level => level
  | n + 1, level => if flips level then climb flips n (level + 1) else level

/-- `RandomLevel`. -/
def randomLevel (flips : ℕ → Bool) : ℕ := climb flips (kMaxLevel - 1) 1

/-- The header's spans from `level_` to the height of a higher new node. -/
def raiseHeader : ℕ → ℕ → SkipList σ → Except Fault (SkipList σ)
  | 0, _, sl => .ok sl
  | k + 1, i, sl => do
    let sl ← sl.setSpan sl.header i (UInt64.ofNat sl.length)
    raiseHeader k (i + 1) sl

/-- The loop that links the new node in, from level `i` up. -/
def linkLevels (node : Ptr) (rank₀ : UInt64) :
    List (Ptr × UInt64) → ℕ → SkipList σ → Except Fault (SkipList σ)
  | [], _, sl => .ok sl
  | (u, r) :: update, i, sl => do
    let l ← sl.link u i
    let sl ← sl.setLink node i ⟨l.forward, l.span - (rank₀ - r)⟩
    let sl ← sl.setLink u i ⟨some node, rank₀ - r + 1⟩
    linkLevels node rank₀ update (i + 1) sl

/-- The loop over the levels that the new node does not reach, from level `i` up. -/
def bumpLevels : List (Ptr × UInt64) → ℕ → SkipList σ → Except Fault (SkipList σ)
  | [], _, sl => .ok sl
  | (u, _) :: update, i, sl => do
    let l ← sl.link u i
    let sl ← sl.setSpan u i (l.span + 1)
    bumpLevels update (i + 1) sl

/-- The second half of `Insert`: a new node of height `level` after the nodes of `update`. -/
def insertNode (sl : SkipList σ) (update : List (Ptr × UInt64)) (level : ℕ) (score : σ)
    (member : Bytes) : Except Fault (SkipList σ) := do
  let update' := update ++ List.replicate (level - sl.level) (sl.header, 0)
  let sl ← raiseHeader (level - sl.level) sl.level sl
  let sl := { sl with level := max sl.level level }
  if maxNodes ≤ sl.length then .error .badAlloc
  else do
    let node := sl.fresh
    let sl := { sl.store node ⟨score, member, List.replicate level ⟨none, 0⟩⟩ with
      fresh := sl.fresh + 1 }
    let rank₀ := (update.head?.map Prod.snd).getD 0
    let sl ← linkLevels node rank₀ (update'.take level) 0 sl
    let sl ← bumpLevels (update'.drop level) level sl
    .ok { sl with length := sl.length + 1 }

/-- `Insert`, with `level` the outcome of `RandomLevel`. -/
def insert (sl : SkipList σ) (level : ℕ) (score : σ) (member : Bytes) :
    Except Fault (Bool × SkipList σ) := do
  let (cand, update) ← sl.findNode score member
  match cand with
  | some c => do
    let n ← sl.deref c
    .ok (false, sl.store c { n with score := score })
  | none => do
    let sl ← sl.insertNode update level score member
    .ok (true, sl)

/-! ## Removal -/

/-- The loop of `DeleteNode`, from level `i` up. -/
def unlinkLevels (x : Ptr) : List (Ptr × UInt64) → ℕ → SkipList σ → Except Fault (SkipList σ)
  | [], _, sl => .ok sl
  | (u, _) :: update, i, sl => do
    let l ← sl.link u i
    let sl ← if l.forward = some x then do
        let lx ← sl.link x i
        -- Unlike in Redis, the span of the last link of a level is reset.
        sl.setLink u i ⟨lx.forward, if lx.forward.isSome then l.span + (lx.span - 1) else 0⟩
      else sl.setSpan u i (l.span - 1)
    unlinkLevels x update (i + 1) sl

/-- `level_` after the levels without nodes are dropped from the top. -/
def topLevel (sl : SkipList σ) : ℕ → Except Fault ℕ
  | 0 => .ok 0
  | 1 => .ok 1
  | n + 2 => do
    let l ← sl.link sl.header (n + 1)
    if l.forward = none then sl.topLevel (n + 1) else .ok (n + 2)

/-- `DeleteNode`. -/
def deleteNode (sl : SkipList σ) (x : Ptr) (update : List (Ptr × UInt64)) :
    Except Fault (SkipList σ) := do
  let sl ← unlinkLevels x update 0 sl
  let level ← sl.topLevel sl.level
  let _ ← sl.deref x
  .ok { sl with level := level, length := sl.length - 1, heap := Function.update sl.heap x none }

/-- `Erase`. -/
def erase (sl : SkipList σ) (score : σ) (member : Bytes) : Except Fault (Bool × SkipList σ) := do
  let (cand, update) ← sl.findNode score member
  match cand with
  | none => .ok (false, sl)
  | some x => do
    let sl ← sl.deleteNode x update
    .ok (true, sl)

/-- `PopMin`. -/
def popMin (sl : SkipList σ) : Except Fault (Option (σ × Bytes) × SkipList σ) := do
  let l ← sl.link sl.header 0
  match l.forward with
  | none => .ok (none, sl)
  | some first => do
    let n ← sl.deref first
    let (_, update) ← sl.findNode n.score n.member
    let sl ← sl.deleteNode first update
    .ok (some (n.score, n.member), sl)

/-- `PopMax`: down to the last node, which is the header when the list is empty. -/
def popMax (sl : SkipList σ) : Except Fault (Option (σ × Bytes) × SkipList σ) := do
  let path ← sl.descend (fun _ => true) sl.level sl.header 0
  let x := sl.lastOf path
  if x = sl.header then .ok (none, sl)
  else do
    let n ← sl.deref x
    let (_, update) ← sl.findNode n.score n.member
    let sl ← sl.deleteNode x update
    .ok (some (n.score, n.member), sl)

/-! ## Ranks -/

/-- The loop of `Rank` over the levels below `i` from the top, with the walk going onto the node it
looks for. -/
def rankFrom (sl : SkipList σ) (score : σ) (member : Bytes) :
    ℕ → Ptr → UInt64 → Except Fault UInt64
  | 0, _, _ => .ok sizeMax
  | i + 1, x, rank => do
    let (y, r) ← sl.walk (fun n => Score.lt n.score score ||
      (Score.eq n.score score && decide (n.member ≤ member))) i (sl.length + 1) x rank
    if y = sl.header then sl.rankFrom score member i y r
    else do
      let n ← sl.deref y
      if keyEqual n.score n.member score member then .ok (r - 1)
      else sl.rankFrom score member i y r

/-- `Rank`. -/
def rank (sl : SkipList σ) (score : σ) (member : Bytes) : Except Fault UInt64 :=
  sl.rankFrom score member sl.level sl.header 0

/-- `RevRank`. -/
def revRank (sl : SkipList σ) (score : σ) (member : Bytes) : Except Fault UInt64 := do
  let r ← sl.rank score member
  if r = sizeMax then .ok sizeMax
  else if UInt64.ofNat sl.length ≤ r then .ok sizeMax
  else .ok (UInt64.ofNat sl.length - 1 - r)

/-! ## Ranges -/

/-- The level-0 loop of `RangeByRank`: the nodes at the ranks from `start` to `stop`. -/
def window (sl : SkipList σ) (start stop : ℤ) :
    ℕ → Option Ptr → ℤ → Except Fault (List (σ × Bytes))
  | _, none, _ => .ok []
  | 0, some _, r => if stop < r then .ok [] else .error .diverges
  | fuel + 1, some x, r =>
    if stop < r then .ok []
    else do
      let n ← sl.deref x
      let l ← sl.link x 0
      let rest ← sl.window start stop fuel l.forward (r + 1)
      .ok (if start ≤ r then (n.score, n.member) :: rest else rest)

/-- `RangeByRank`. -/
def rangeByRank (sl : SkipList σ) (start stop : ℤ) (rev : Bool) : Except Fault (List (σ × Bytes)) :=
  let llen : ℤ := sl.length
  if sl.length = 0 then .ok []
  else
    let start := if start < 0 then llen + start else start
    let stop := if stop < 0 then llen + stop else stop
    let start := if start < 0 then 0 else start
    if start > llen - 1 then .ok []
    else if stop < 0 then .ok []
    else
      let stop := if stop > llen - 1 then llen - 1 else stop
      if start > stop then .ok []
      else do
        let l ← sl.link sl.header 0
        if rev then do
          let tmp ← sl.window (llen - 1 - stop) (llen - 1 - start) sl.length l.forward 0
          .ok tmp.reverse
        else sl.window start stop sl.length l.forward 0

/-- `r.min_exclusive ? v <= r.min : v < r.min`. -/
def belowMin (r : ScoreRange σ) (v : σ) : Bool :=
  if r.minExclusive then Score.le v r.min else Score.lt v r.min

/-- `r.max_exclusive ? v >= r.max : v > r.max`. -/
def aboveMax (r : ScoreRange σ) (v : σ) : Bool :=
  if r.maxExclusive then Score.le r.max v else Score.lt r.max v

/-- `while (cur && cur->score == r.min) cur = cur->forward[0]`. -/
def skipTies (sl : SkipList σ) (min : σ) : ℕ → Option Ptr → Except Fault (Option Ptr)
  | _, none => .ok none
  | 0, some _ => .error .diverges
  | fuel + 1, some x => do
    let n ← sl.deref x
    let l ← sl.link x 0
    if Score.eq n.score min then sl.skipTies min fuel l.forward else .ok (some x)

/-- The ascending loop of `RangeByScore`: `skipped` nodes were passed over for the offset and `size`
were put out. -/
def collect (sl : SkipList σ) (r : ScoreRange σ) (offset count : ℤ) :
    ℕ → Option Ptr → ℤ → ℤ → Except Fault (List (σ × Bytes))
  | _, none, _, _ => .ok []
  | 0, some _, _, _ => .error .diverges
  | fuel + 1, some x, skipped, size => do
    let n ← sl.deref x
    let l ← sl.link x 0
    if belowMin r n.score then sl.collect r offset count fuel l.forward skipped size
    else if aboveMax r n.score then .ok []
    else if offset > 0 ∧ skipped < offset then
      sl.collect r offset count fuel l.forward (skipped + 1) size
    else if count > 0 ∧ size + 1 ≥ count then .ok [(n.score, n.member)]
    else do
      let rest ← sl.collect r offset count fuel l.forward skipped (size + 1)
      .ok ((n.score, n.member) :: rest)

/-- The loop of the descending `RangeByScore`, which goes through the whole list. -/
def collectAll (sl : SkipList σ) (r : ScoreRange σ) :
    ℕ → Option Ptr → Except Fault (List (σ × Bytes))
  | _, none => .ok []
  | 0, some _ => .error .diverges
  | fuel + 1, some x => do
    let n ← sl.deref x
    let l ← sl.link x 0
    let rest ← sl.collectAll r fuel l.forward
    .ok (if belowMin r n.score then rest
      else if aboveMax r n.score then rest
      else (n.score, n.member) :: rest)

/-- `RangeByScore`. -/
def rangeByScore (sl : SkipList σ) (r : ScoreRange σ) (rev : Bool) (offset count : ℤ) :
    Except Fault (List (σ × Bytes)) := do
  if count = 0 then .ok []
  else if !rev then do
    let path ← sl.descend (fun n => Score.lt n.score r.min) sl.level sl.header 0
    let l ← sl.link (sl.lastOf path) 0
    let cur ← if r.minExclusive then sl.skipTies r.min sl.length l.forward else .ok l.forward
    sl.collect r offset count sl.length cur 0 0
  else do
    let l ← sl.link sl.header 0
    let asc ← sl.collectAll r sl.length l.forward
    let total : ℤ := asc.length
    let stop := total - offset
    if 2^63 ≤ stop then .error .signedOverflow
    else if stop ≤ 0 then .ok []
    else
      let start := if count > 0 then stop - count else 0
      let start := if start < 0 then 0 else start
      -- `asc.rbegin() + (asc.size() - (size_t)end)` is before the first element.
      if total < stop then .error .outOfRange
      else .ok ((asc.reverse.drop (total - stop).toNat).take (stop - start).toNat)

/-- The loop of `CountInRange`. -/
def countFrom (sl : SkipList σ) (r : ScoreRange σ) : ℕ → Option Ptr → Except Fault ℕ
  | _, none => .ok 0
  | 0, some _ => .error .diverges
  | fuel + 1, some x => do
    let n ← sl.deref x
    let l ← sl.link x 0
    if belowMin r n.score then sl.countFrom r fuel l.forward
    else if aboveMax r n.score then .ok 0
    else do
      let k ← sl.countFrom r fuel l.forward
      .ok (k + 1)

/-- `CountInRange`. -/
def countInRange (sl : SkipList σ) (r : ScoreRange σ) : Except Fault ℕ := do
  let l ← sl.link sl.header 0
  sl.countFrom r sl.length l.forward

end SkipList

end TinyRedis

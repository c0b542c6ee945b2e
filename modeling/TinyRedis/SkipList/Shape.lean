import TinyRedis.Lib.SkipLinks
import TinyRedis.SkipList.Model

/-!
# The shape of a skip list

`Shape sl ps` says that the heap of `sl` holds a skip list whose nodes are `ps`, in the order of
level 0: the links of the header and of the nodes are those of `Lib/SkipLinks.lean`, with spans in
64-bit words, and `level_` and `length_` are right. It says nothing about scores and members.

The functions of the model read and write single links. They are described here through three
functions of a list, `height`, `fwd`, and `spanAt`, which a write changes at one place only. The
links of one level, as a function of the node, are a `lane`.
-/

namespace TinyRedis.SkipList

open Lib
open scoped UInt64.CommRing

variable {σ : Type} {sl : SkipList σ} {p q : Ptr} {i j : ℕ} {l : Link}

/-! ## The views of a heap -/

/-- The number of links of a node, and zero where there is no node. -/
def height (sl : SkipList σ) (p : Ptr) : ℕ := ((sl.heap p).map (·.links.length)).getD 0

/-- `p->forward[i]`, and null where there is no such link. -/
def fwd (sl : SkipList σ) (p : Ptr) (i : ℕ) : Option Ptr :=
  (sl.heap p).bind fun n => n.links[i]?.bind Link.forward

/-- `p->span[i]`, and zero where there is no such link. -/
def spanAt (sl : SkipList σ) (p : Ptr) (i : ℕ) : UInt64 :=
  (((sl.heap p).bind fun n => n.links[i]?).map Link.span).getD 0

/-- The score and the member of a node. -/
def entry (sl : SkipList σ) (p : Ptr) : Option (σ × Bytes) :=
  (sl.heap p).map fun n => (n.score, n.member)

/-- Whether a node satisfies the condition of a walk. -/
def test (sl : SkipList σ) (less : Node σ → Bool) (p : Ptr) : Bool := (sl.heap p).any less

/-- A node with a level is allocated. -/
theorem heap_of_height_pos (h : 0 < sl.height p) : ∃ n, sl.heap p = some n := by
  unfold height at h
  cases hp : sl.heap p with
  | none => rw [hp] at h; simp at h
  | some n => exact ⟨n, rfl⟩

/-- An allocated node is dereferenced. -/
theorem deref_eq_ok {n : Node σ} (h : sl.heap p = some n) : sl.deref p = .ok n := by
  unfold deref; rw [h]

/-- A link below the height of a node is read without a fault. -/
theorem link_eq_ok (h : i < sl.height p) : sl.link p i = .ok ⟨sl.fwd p i, sl.spanAt p i⟩ := by
  obtain ⟨n, hn⟩ := heap_of_height_pos (Nat.zero_lt_of_lt h)
  have hi : i < n.links.length := by simpa [height, hn] using h
  unfold link
  rw [deref_eq_ok hn, ok_bind, List.getElem?_eq_getElem hi]
  simp [fwd, spanAt, hn, List.getElem?_eq_getElem hi]

/-- The list after a write to one link. -/
def putLink (sl : SkipList σ) (p : Ptr) (i : ℕ) (l : Link) : SkipList σ :=
  { sl with
    heap := Function.update sl.heap p
      ((sl.heap p).map fun n => { n with links := n.links.set i l }) }

/-- A link below the height of a node is written without a fault. -/
theorem setLink_eq_ok (h : i < sl.height p) : sl.setLink p i l = .ok (sl.putLink p i l) := by
  obtain ⟨n, hn⟩ := heap_of_height_pos (Nat.zero_lt_of_lt h)
  have hi : i < n.links.length := by simpa [height, hn] using h
  unfold setLink
  rw [deref_eq_ok hn, ok_bind, if_pos hi]
  simp [putLink, store, hn]

/-- A span is set within the height of its node. -/
theorem setSpan_eq_ok {s : UInt64} (h : i < sl.height p) :
    sl.setSpan p i s = .ok (sl.putLink p i ⟨sl.fwd p i, s⟩) := by
  unfold setSpan
  rw [link_eq_ok h, ok_bind, setLink_eq_ok h]

/-- Writing a link leaves the heights alone. -/
@[simp]
theorem height_putLink : (sl.putLink p i l).height = sl.height := by
  funext q
  by_cases hq : q = p
  · subst hq
    cases hn : sl.heap q <;> simp [height, putLink, hn]
  · simp [height, putLink, hq]

/-- Writing a link leaves the entries alone. -/
@[simp]
theorem entry_putLink : (sl.putLink p i l).entry = sl.entry := by
  funext q
  by_cases hq : q = p
  · subst hq
    cases hn : sl.heap q <;> simp [entry, putLink, hn]
  · simp [entry, putLink, hq]

/-- The links of the nodes at a level. -/
def lane (sl : SkipList σ) (i : ℕ) (p : Ptr) : Link := ⟨sl.fwd p i, sl.spanAt p i⟩

/-- A write changes one link of one level. -/
theorem lane_putLink (h : i < sl.height p) (j : ℕ) : (sl.putLink p i l).lane j =
    if j = i then Function.update (sl.lane j) p l else sl.lane j := by
  obtain ⟨n, hn⟩ := heap_of_height_pos (Nat.zero_lt_of_lt h)
  have hi : i < n.links.length := by simpa [height, hn] using h
  split_ifs with hj
  · subst hj
    funext q
    by_cases hq : q = p
    · subst hq
      simp [lane, fwd, spanAt, putLink, hn, hi]
    · simp [lane, fwd, spanAt, putLink, hq]
  · funext q
    by_cases hq : q = p
    · subst hq
      simp [lane, fwd, spanAt, putLink, hn, List.getElem?_set_ne (Ne.symm hj)]
    · simp [lane, fwd, spanAt, putLink, hq]

/-- A node that is stored at one address is not seen at another. -/
theorem view_store_of_ne (sl : SkipList σ) (n : Node σ) (h : q ≠ p) (i : ℕ) :
    (sl.store p n).height q = sl.height q ∧ (sl.store p n).fwd q i = sl.fwd q i ∧
      (sl.store p n).spanAt q i = sl.spanAt q i ∧ (sl.store p n).entry q = sl.entry q := by
  simp [store, height, fwd, spanAt, entry, h]

/-! ## The invariant -/

/-- The nodes of `sl` are `ps`, in the order of level 0, and everything but their scores and members
is as it should be. -/
structure Shape (sl : SkipList σ) (ps : List Ptr) : Prop where
  /-- Each link leads to the next node that is high enough, and its span counts the places. -/
  linked : Linked sl.height sl.fwd sl.spanAt (sl.header :: ps)
  /-- No node occurs twice. -/
  nodup : (sl.header :: ps).Nodup
  /-- The header has a link for every level. -/
  header_height : sl.height sl.header = kMaxLevel
  /-- Every node is on level 0. -/
  height_pos : ∀ p ∈ ps, 0 < sl.height p
  /-- No node is higher than the levels in use. -/
  height_le : ∀ p ∈ ps, sl.height p ≤ sl.level
  /-- Level 0 is in use. -/
  level_pos : 0 < sl.level
  /-- There are `kMaxLevel` levels. -/
  level_le : sl.level ≤ kMaxLevel
  /-- The next address is new. -/
  fresh : ∀ p ∈ sl.header :: ps, p < sl.fresh
  /-- `length_` counts the nodes. -/
  length : sl.length = ps.length
  /-- There are no more nodes than addresses. -/
  length_le : ps.length ≤ maxNodes

/-- The empty list has the shape of no nodes. -/
theorem shape_empty [Score σ] : Shape (empty : SkipList σ) [] where
  linked := by
    intro pre p rest hl i hi
    obtain ⟨rfl, rfl, rfl⟩ : pre = [] ∧ p = 0 ∧ rest = [] := by
      cases pre with
      | nil => simpa [empty, eq_comm] using hl
      | cons x pre => simp [empty] at hl
    have hi' : i < kMaxLevel := by simpa [height, empty] using hi
    refine .inl ⟨?_, by simp⟩
    simp [fwd, empty, hi']
  nodup := by simp
  header_height := by simp [height, empty]
  height_pos := by simp
  height_le := by simp
  level_pos := by simp [empty]
  level_le := by simp [empty, kMaxLevel]
  fresh := by simp [empty]
  length := rfl
  length_le := by decide

variable {ps : List Ptr}

/-- A node of the list is above level 0, and so is the header. -/
theorem Shape.pos_of_mem (h : Shape sl ps) (hp : p ∈ sl.header :: ps) : 0 < sl.height p := by
  rcases List.mem_cons.1 hp with rfl | hp
  · rw [h.header_height]; decide
  · exact h.height_pos p hp

/-- Above the levels in use, the links of the header are null. -/
theorem Shape.fwd_header_eq_none (h : Shape sl ps) (hi : sl.level ≤ i) :
    sl.fwd sl.header i = none := by
  by_cases hk : i < kMaxLevel
  · rcases h.linked [] sl.header ps rfl i (by rw [h.header_height]; exact hk) with
      ⟨h1, -⟩ | ⟨mid, q, rest', rfl, -, hq, -, -⟩
    · exact h1
    · have := h.height_le q (by simp)
      omega
  · unfold fwd
    have hh := h.header_height
    unfold height at hh
    cases hn : sl.heap sl.header with
    | none => rfl
    | some n =>
      have hlen : n.links.length = kMaxLevel := by simpa [hn] using hh
      simp [List.getElem?_eq_none (show n.links.length ≤ i by omega)]

end TinyRedis.SkipList

import TinyRedis.SkipList.Search

/-!
# Insertion keeps the shape

`insertNode` links a new node in at the cut that a descent has found. Its three loops run over the
levels and touch one level at a time, so each is described by what it does at a level
(`levels_spec`). Together they make the changes that `Linked.insert` asks for (`Inserted`):
`rank[0] - rank[i]` is the number of nodes between `update[i]` and the new node.
-/

namespace TinyRedis.SkipList

open Lib List
open scoped UInt64.CommRing

variable {σ : Type} {sl sl' : SkipList σ} {ps : List Ptr} {less : Node σ → Bool} {i : ℕ} {p : Ptr}

/-- Two lists that differ in links only. -/
structure SameNodes (sl sl' : SkipList σ) : Prop where
  height : sl'.height = sl.height
  entry : sl'.entry = sl.entry
  header : sl'.header = sl.header
  level : sl'.level = sl.level
  length : sl'.length = sl.length
  fresh : sl'.fresh = sl.fresh

/-- Every skip list has the nodes it has. -/
theorem SameNodes.refl (sl : SkipList σ) : SameNodes sl sl := ⟨rfl, rfl, rfl, rfl, rfl, rfl⟩

/-- Having the same nodes is transitive. -/
theorem SameNodes.trans {sl sl'' : SkipList σ} (h : SameNodes sl sl') (h' : SameNodes sl' sl'') :
    SameNodes sl sl'' :=
  ⟨h'.height.trans h.height, h'.entry.trans h.entry, h'.header.trans h.header,
    h'.level.trans h.level, h'.length.trans h.length, h'.fresh.trans h.fresh⟩

/-- Writing a link changes no node's entry or height. -/
theorem sameNodes_putLink {l : Link} : SameNodes sl (sl.putLink p i l) :=
  ⟨height_putLink, entry_putLink, rfl, rfl, rfl, rfl⟩

/-! ## The loops -/

/-- The first loop sets spans of the header from level `i` up. -/
theorem raiseHeader_spec (k i : ℕ) (sl : SkipList σ) (hk : i + k ≤ sl.height sl.header) :
    ∃ sl', raiseHeader k i sl = .ok sl' ∧ SameNodes sl sl' ∧
      ∀ p j, sl'.fwd p j = sl.fwd p j ∧
        (p ≠ sl.header ∨ j < i → sl'.spanAt p j = sl.spanAt p j) := by
  induction k generalizing i sl with
  | zero => exact ⟨sl, rfl, .refl sl, fun _ _ => ⟨rfl, fun _ => rfl⟩⟩
  | succ k ih =>
    have hi : i < sl.height sl.header := by omega
    set sl₁ := sl.putLink sl.header i ⟨sl.fwd sl.header i, UInt64.ofNat sl.length⟩
    have hsame : SameNodes sl sl₁ := sameNodes_putLink
    obtain ⟨sl', hr, hsame', hkeep⟩ := ih (i + 1) sl₁ (by rw [hsame.header, hsame.height]; omega)
    refine ⟨sl', ?_, hsame.trans hsame', fun p j => ?_⟩
    · unfold raiseHeader
      rw [setSpan_eq_ok hi, ok_bind, hr]
    · obtain ⟨hf, hs⟩ := hkeep p j
      have hlane : sl₁.lane j p = _ := congrFun (lane_putLink hi j) p
      by_cases hpj : j = i ∧ p = sl.header
      · obtain ⟨rfl, rfl⟩ := hpj
        rw [if_pos rfl, Function.update_self] at hlane
        exact ⟨hf.trans (congrArg Link.forward hlane), fun h => absurd h (by simp)⟩
      · have hold : sl₁.lane j p = sl.lane j p := by
          rw [hlane]
          split_ifs with hj
          · rw [Function.update_of_ne fun hp => hpj ⟨hj, hp⟩]
          · rfl
        refine ⟨hf.trans (congrArg Link.forward hold), fun h => ?_⟩
        exact (hs (h.imp id fun h => by omega)).trans (congrArg Link.span hold)

/-- A loop over `update` that makes `f` of the links of a level does so at each level, as long as
the height of the nodes and the links of the level allow its step. -/
theorem levels_spec {L : List (Ptr × UInt64) → ℕ → SkipList σ → Except Fault (SkipList σ)}
    {f : Ptr × UInt64 → (Ptr → Link) → Ptr → Link}
    {G : Ptr × UInt64 → ℕ → (Ptr → ℕ) → (Ptr → Link) → Prop} (hnil : ∀ i sl, L [] i sl = .ok sl)
    (hstep : ∀ x rest i sl, G x i sl.height (sl.lane i) → ∃ sl₁,
      L (x :: rest) i sl = L rest (i + 1) sl₁ ∧ SameNodes sl sl₁ ∧
      ∀ j, sl₁.lane j = if j = i then f x (sl.lane j) else sl.lane j)
    (update : List (Ptr × UInt64)) (i : ℕ) (sl : SkipList σ)
    (hG : ∀ k x, update[k]? = some x → G x (i + k) sl.height (sl.lane (i + k))) :
    ∃ sl', L update i sl = .ok sl' ∧ SameNodes sl sl' ∧
      (∀ k x, update[k]? = some x → sl'.lane (i + k) = f x (sl.lane (i + k))) ∧
      ∀ j, (j < i ∨ i + update.length ≤ j) → sl'.lane j = sl.lane j := by
  induction update generalizing i sl with
  | nil => exact ⟨sl, hnil i sl, .refl sl, by simp, fun _ _ => rfl⟩
  | cons x rest ih =>
    have hlevel : ∀ k, i + (k + 1) = i + 1 + k := fun k => by omega
    obtain ⟨sl₁, hloop, hsame, hlane⟩ := hstep x rest i sl (hG 0 x rfl)
    obtain ⟨sl', hr, hsame', hset, hkeep⟩ := ih (i + 1) sl₁ (fun k y hk => by
      rw [hsame.height, hlane, if_neg (by omega), ← hlevel]
      exact hG (k + 1) y (by simpa using hk))
    refine ⟨sl', hloop.trans hr, hsame.trans hsame', fun k y hk => ?_, fun j hj => ?_⟩
    · cases k with
      | zero =>
        obtain rfl : x = y := by simpa using hk
        rw [Nat.add_zero, hkeep i (.inl (by omega)), hlane, if_pos rfl]
      | succ k => rw [hlevel, hset k y (by simpa using hk), hlane, if_neg (by omega)]
    · rw [length_cons] at hj
      rw [hkeep j (by omega), hlane, if_neg (by omega)]

/-- The second loop links the nodes of `update` to the new node, and the new node to what they were
linked to. -/
theorem linkLevels_spec (node : Ptr) (rank₀ : UInt64) (update : List (Ptr × UInt64)) (i : ℕ)
    (sl : SkipList σ)
    (hu : ∀ k x, update[k]? = some x →
      x.1 ≠ node ∧ i + k < sl.height x.1 ∧ i + k < sl.height node) :
    ∃ sl', linkLevels node rank₀ update i sl = .ok sl' ∧ SameNodes sl sl' ∧
      (∀ k x, update[k]? = some x → sl'.lane (i + k) =
        Function.update (Function.update (sl.lane (i + k)) node
          ⟨sl.fwd x.1 (i + k), sl.spanAt x.1 (i + k) - (rank₀ - x.2)⟩) x.1
          ⟨some node, rank₀ - x.2 + 1⟩) ∧
      ∀ j, (j < i ∨ i + update.length ≤ j) → sl'.lane j = sl.lane j :=
  levels_spec (f := fun x g => Function.update (Function.update g node
      ⟨(g x.1).forward, (g x.1).span - (rank₀ - x.2)⟩) x.1 ⟨some node, rank₀ - x.2 + 1⟩)
    (G := fun x j height _ => x.1 ≠ node ∧ j < height x.1 ∧ j < height node) (fun _ _ => rfl)
    (fun x rest i sl ⟨_, hi, hn⟩ => by
      have hi' : ∀ l, i < (sl.putLink node i l).height x.1 := fun l => by rwa [height_putLink]
      refine ⟨(sl.putLink node i ⟨sl.fwd x.1 i, sl.spanAt x.1 i - (rank₀ - x.2)⟩).putLink x.1 i
        ⟨some node, rank₀ - x.2 + 1⟩, ?_, sameNodes_putLink.trans sameNodes_putLink, fun j => ?_⟩
      · rw [linkLevels, link_eq_ok hi, ok_bind, setLink_eq_ok hn, ok_bind, setLink_eq_ok (hi' _),
          ok_bind]
      · rw [lane_putLink (hi' _), lane_putLink hn]
        split_ifs with hj
        · rw [hj]
          rfl
        · rfl) update i sl hu

/-- The third loop counts the spans over the new node up by one. -/
theorem bumpLevels_spec (update : List (Ptr × UInt64)) (i : ℕ) (sl : SkipList σ)
    (hu : ∀ k x, update[k]? = some x → i + k < sl.height x.1) :
    ∃ sl', bumpLevels update i sl = .ok sl' ∧ SameNodes sl sl' ∧
      (∀ k x, update[k]? = some x → sl'.lane (i + k) =
        Function.update (sl.lane (i + k)) x.1 ⟨sl.fwd x.1 (i + k), sl.spanAt x.1 (i + k) + 1⟩) ∧
      ∀ j, (j < i ∨ i + update.length ≤ j) → sl'.lane j = sl.lane j :=
  levels_spec (f := fun x g => Function.update g x.1 ⟨(g x.1).forward, (g x.1).span + 1⟩)
    (G := fun x j height _ => j < height x.1) (fun _ _ => rfl)
    (fun x rest i sl hi => by
      refine ⟨sl.putLink x.1 i ⟨sl.fwd x.1 i, sl.spanAt x.1 i + 1⟩, ?_, sameNodes_putLink,
        fun j => ?_⟩
      · rw [bumpLevels, link_eq_ok hi, ok_bind, setSpan_eq_ok hi, ok_bind]
      · rw [lane_putLink hi]
        split_ifs with hj
        · rw [hj]
          rfl
        · rfl) update i sl hu

/-! ## The new node -/

section Cut

variable {update : List (Ptr × UInt64)} {before after : List Ptr} {lvl : ℕ}

/-- `rank[0] - rank[i]` is the number of nodes after `update[i]`. -/
theorem rank_sub {u : Ptr} {tail : List Ptr}
    (hs : Splits sl.height i (sl.header :: before) u tail) :
    (before.length : UInt64) - ((before.length - tail.length : ℕ) : UInt64) = tail.length := by
  obtain ⟨⟨pre, hpre⟩, -, -⟩ := hs
  have hlen := congrArg List.length hpre
  simp only [length_cons, length_append] at hlen
  rw [Nat.cast_sub (by omega)]
  abel

/-- `update` after the levels that only the new node reaches are filled up with the header. -/
theorem Cut.extend (h : Shape sl ps) (c : Cut sl ps less update before after) (lvl : ℕ)
    (hlvl : lvl ≤ kMaxLevel) {k : ℕ} (hk : k < max sl.level lvl) :
    ∃ u tail, Splits sl.height k (sl.header :: before) u tail ∧
      (update ++ List.replicate (lvl - sl.level) (sl.header, 0))[k]? =
        some (u, ((before.length - tail.length : ℕ) : UInt64)) := by
  rcases lt_or_ge k sl.level with hlt | hge
  · obtain ⟨u, tail, hu, hui⟩ := c.update k hlt
    exact ⟨u, tail, hu, by rw [getElem?_append_left (by rw [c.length]; exact hlt), hui]⟩
  · have hlow : ∀ r ∈ before, sl.height r ≤ k := fun r hr => by
      have := h.height_le r (by rw [c.split]; simp [hr])
      omega
    refine ⟨sl.header, before, ⟨⟨[], rfl⟩, by rw [h.header_height]; omega, hlow⟩, ?_⟩
    rw [getElem?_append_right (by rw [c.length]; exact hge), c.length,
      getElem?_replicate, if_pos (by omega), Nat.sub_self, Nat.cast_zero]

/-- Where there is a link at a level, the level is in use. -/
theorem Shape.lt_level_of_fwd (h : Shape sl ps) (hp : p ∈ sl.header :: ps) (hi : i < sl.height p)
    (hf : sl.fwd p i ≠ none) : i < sl.level := by
  rcases mem_cons.1 hp with rfl | hp
  · by_contra hc
    exact hf (h.fwd_header_eq_none (by omega))
  · have := h.height_le p hp
    omega

/-- What `insertNode` makes of a list: there is a new node of height `lvl` with the pair `e`, and
the links of the nodes before it are those that `Linked.insert` asks for. -/
structure Inserted (sl : SkipList σ) (before : List Ptr) (lvl : ℕ) (e : σ × Bytes)
    (sl' : SkipList σ) : Prop where
  header : sl'.header = sl.header
  level : sl'.level = max sl.level lvl
  fresh : sl'.fresh = sl.fresh + 1
  length : sl'.length = sl.length + 1
  height_new : sl'.height sl.fresh = lvl
  entry_new : sl'.entry sl.fresh = some e
  height : ∀ p, p ≠ sl.fresh → sl'.height p = sl.height p
  entry : ∀ p, p ≠ sl.fresh → sl'.entry p = sl.entry p
  low : ∀ i p tail, Splits sl.height i (sl.header :: before) p tail → i < lvl →
    sl'.fwd p i = some sl.fresh ∧ sl'.spanAt p i = ((tail.length + 1 : ℕ) : UInt64) ∧
      sl'.fwd sl.fresh i = sl.fwd p i ∧
      (sl.fwd p i ≠ none → sl'.spanAt sl.fresh i = sl.spanAt p i - (tail.length : UInt64))
  high : ∀ i p tail, Splits sl.height i (sl.header :: before) p tail → lvl ≤ i →
    sl'.fwd p i = sl.fwd p i ∧ (sl.fwd p i ≠ none → sl'.spanAt p i = sl.spanAt p i + 1)
  keep : ∀ i p, p ≠ sl.fresh → (∀ tail, ¬Splits sl.height i (sl.header :: before) p tail) →
    sl'.fwd p i = sl.fwd p i ∧ (i < sl.height p → sl'.spanAt p i = sl.spanAt p i)

/-- `insertNode` at a cut returns. -/
theorem insertNode_returns (h : Shape sl ps) (c : Cut sl ps less update before after)
    (hlvl : lvl ≤ kMaxLevel) (hroom : sl.length < maxNodes) (score : σ) (member : Bytes) :
    ∃ sl', sl.insertNode update lvl score member = .ok sl' ∧
      Inserted sl before lvl (score, member) sl' := by
  obtain ⟨-, -, hrank⟩ := c.head h
  have hmem : ∀ {i u tail}, Splits sl.height i (sl.header :: before) u tail →
      u ∈ sl.header :: ps := fun ⟨⟨pre, hpre⟩, _⟩ => by
    rw [c.split, ← cons_append, hpre]
    simp
  have hne : ∀ {i u tail}, Splits sl.height i (sl.header :: before) u tail → u ≠ sl.fresh :=
    fun hs => (h.fresh _ (hmem hs)).ne
  have hext := fun {k} => c.extend h lvl hlvl (k := k)
  generalize hupd : update ++ List.replicate (lvl - sl.level) (sl.header, 0) = update' at hext
  have hul : update'.length = max sl.level lvl := by
    rw [← hupd, length_append, c.length, length_replicate]; omega
  -- The entries of `update'` are the last high nodes before the cut.
  have hget : ∀ {k x}, update'[k]? = some x → ∃ tail,
      Splits sl.height k (sl.header :: before) x.1 tail := fun {k x} hk => by
    have hlt : k < update'.length := (List.getElem?_eq_some_iff.1 hk).1
    obtain ⟨v, tail, hs, hv⟩ := hext (by omega : k < max sl.level lvl)
    obtain rfl : (v, _) = x := by simpa [hv] using hk
    exact ⟨tail, hs⟩
  -- The three loops, and the new node.
  obtain ⟨sl₀, hr₀, hsame₀, hraise⟩ := raiseHeader_spec (lvl - sl.level) sl.level sl
    (by rw [h.header_height]; have := h.level_le; omega)
  generalize hs₁ : ({ ({ sl₀ with level := max sl₀.level lvl } : SkipList σ).store sl₀.fresh
    ⟨score, member, List.replicate lvl ⟨none, 0⟩⟩ with fresh := sl₀.fresh + 1 } : SkipList σ) = sl₁
  have hview : ∀ p, p ≠ sl.fresh → ∀ i, sl₁.height p = sl.height p ∧ sl₁.entry p = sl.entry p ∧
      sl₁.fwd p i = sl.fwd p i ∧
      (p ≠ sl.header ∨ i < sl.level → sl₁.spanAt p i = sl.spanAt p i) := fun p hp i => by
    obtain ⟨h1, h2, h3, h4⟩ := view_store_of_ne { sl₀ with level := max sl₀.level lvl }
      ⟨score, member, List.replicate lvl ⟨none, 0⟩⟩ (show p ≠ sl₀.fresh by rwa [hsame₀.fresh]) i
    rw [← hs₁]
    exact ⟨h1.trans (congrFun hsame₀.height p), h4.trans (congrFun hsame₀.entry p),
      h2.trans (hraise p i).1, fun hi => h3.trans ((hraise p i).2 hi)⟩
  have hnew : sl₁.height sl.fresh = lvl ∧ sl₁.entry sl.fresh = some (score, member) := by
    rw [← hs₁]
    simp [SkipList.height, SkipList.entry, store, hsame₀.fresh]
  obtain ⟨sl₂, hr₂, hsame₂, hlink, hkeep₂⟩ := linkLevels_spec sl.fresh (before.length : UInt64)
    (update'.take lvl) 0 sl₁ (fun k x hk => by
      rw [getElem?_take] at hk
      split_ifs at hk with hlt
      obtain ⟨tail, hs⟩ := hget hk
      rw [(hview x.1 (hne hs) 0).1, hnew.1, Nat.zero_add]
      exact ⟨hne hs, hs.2.1, hlt⟩)
  obtain ⟨sl₃, hr₃, hsame₃, hbump, hkeep₃⟩ := bumpLevels_spec (update'.drop lvl) lvl sl₂
    (fun k x hk => by
      rw [getElem?_drop] at hk
      obtain ⟨tail, hs⟩ := hget hk
      rw [hsame₂.height, (hview x.1 (hne hs) 0).1]
      exact hs.2.1)
  rw [length_take] at hkeep₂
  rw [length_drop] at hkeep₃
  -- The links of a level that the new node reaches, of one in use above it, and of the others.
  have hlow : ∀ {i u tail}, Splits sl.height i (sl.header :: before) u tail → i < lvl →
      sl₃.lane i = Function.update (Function.update (sl₁.lane i) sl.fresh
        ⟨sl₁.fwd u i, sl₁.spanAt u i - tail.length⟩) u ⟨some sl.fresh, tail.length + 1⟩ := by
    intro i u tail hs hi
    obtain ⟨v, t, hs', hv⟩ := hext (by omega : i < max sl.level lvl)
    obtain ⟨rfl, rfl⟩ := hs.unique hs'
    have hlane := hlink i _ (by rw [getElem?_take, if_pos hi]; exact hv)
    rw [Nat.zero_add, rank_sub hs] at hlane
    rw [hkeep₃ i (.inl hi), hlane]
  have hhigh : ∀ {i u tail}, Splits sl.height i (sl.header :: before) u tail → lvl ≤ i →
      i < max sl.level lvl →
      sl₃.lane i = Function.update (sl₁.lane i) u ⟨sl₁.fwd u i, sl₁.spanAt u i + 1⟩ := by
    intro i u tail hs hge hi
    obtain ⟨v, t, hs', hv⟩ := hext hi
    obtain ⟨rfl, rfl⟩ := hs.unique hs'
    obtain ⟨k, rfl⟩ := Nat.exists_eq_add_of_le hge
    have hsame : sl₂.lane (lvl + k) = sl₁.lane (lvl + k) := hkeep₂ _ (.inr (by omega))
    rw [hbump k _ (by rw [getElem?_drop]; exact hv), hsame,
      show sl₂.fwd u (lvl + k) = sl₁.fwd u (lvl + k) from
        congrArg Link.forward (congrFun hsame u),
      show sl₂.spanAt u (lvl + k) = sl₁.spanAt u (lvl + k) from
        congrArg Link.span (congrFun hsame u)]
  have habove : ∀ {i}, max sl.level lvl ≤ i → sl₃.lane i = sl₁.lane i := fun hi => by
    rw [hkeep₃ _ (.inr (by omega)), hkeep₂ _ (.inr (by omega))]
  refine ⟨{ sl₃ with length := sl₃.length + 1 }, ?_, ?_, ?_, ?_, ?_, ?_, ?_, fun p hp => ?_,
    fun p hp => ?_, fun i p tail hs hi => ?_, fun i p tail hs hi => ?_, fun i p hp hnone => ?_⟩
  · unfold insertNode
    rw [hr₀, ok_bind]
    dsimp only
    rw [if_neg (by rw [hsame₀.length]; omega), hs₁, hupd, hrank, hsame₀.fresh, hr₂, ok_bind, hr₃,
      ok_bind]
  · exact hsame₃.header.trans (hsame₂.header.trans (by rw [← hs₁]; exact hsame₀.header))
  · refine hsame₃.level.trans (hsame₂.level.trans ?_)
    rw [← hs₁]
    exact congrArg (max · lvl) hsame₀.level
  · refine hsame₃.fresh.trans (hsame₂.fresh.trans ?_)
    rw [← hs₁]
    exact congrArg (· + 1) hsame₀.fresh
  · refine congrArg (· + 1) (hsame₃.length.trans (hsame₂.length.trans ?_))
    rw [← hs₁]
    exact hsame₀.length
  · exact (congrFun (hsame₃.height.trans hsame₂.height) _).trans hnew.1
  · exact (congrFun (hsame₃.entry.trans hsame₂.entry) _).trans hnew.2
  · exact (congrFun (hsame₃.height.trans hsame₂.height) p).trans (hview p hp 0).1
  · exact (congrFun (hsame₃.entry.trans hsame₂.entry) p).trans (hview p hp 0).2.1
  · obtain ⟨-, -, hf, hspan⟩ := hview p (hne hs) i
    have hp : sl₃.lane i p = ⟨some sl.fresh, tail.length + 1⟩ := by
      rw [hlow hs hi, Function.update_self]
    have hn : sl₃.lane i sl.fresh = ⟨sl₁.fwd p i, sl₁.spanAt p i - tail.length⟩ := by
      rw [hlow hs hi, Function.update_of_ne (hne hs).symm, Function.update_self]
    refine ⟨congrArg Link.forward hp, (congrArg Link.span hp).trans (by push_cast; rfl),
      (congrArg Link.forward hn).trans hf, fun hfi => (congrArg Link.span hn).trans ?_⟩
    dsimp only
    rw [hspan (.inr (h.lt_level_of_fwd (hmem hs) hs.2.1 hfi))]
  · obtain ⟨-, -, hf, hspan⟩ := hview p (hne hs) i
    rcases lt_or_ge i (max sl.level lvl) with hlt | hge
    · have hp : sl₃.lane i p = ⟨sl₁.fwd p i, sl₁.spanAt p i + 1⟩ := by
        rw [hhigh hs hi hlt, Function.update_self]
      refine ⟨(congrArg Link.forward hp).trans hf, fun hfi => (congrArg Link.span hp).trans ?_⟩
      dsimp only
      rw [hspan (.inr (h.lt_level_of_fwd (hmem hs) hs.2.1 hfi))]
    · refine ⟨(congrArg Link.forward (congrFun (habove hge) p)).trans hf, fun hfi => ?_⟩
      have := h.lt_level_of_fwd (hmem hs) hs.2.1 hfi
      omega
  · obtain ⟨-, -, hf, hspan⟩ := hview p hp i
    have hlane : sl₃.lane i p = sl₁.lane i p := by
      rcases lt_or_ge i (max sl.level lvl) with hi | hi
      · obtain ⟨u, tail, hs, -⟩ := hext hi
        have hpu : p ≠ u := fun heq => hnone tail (heq ▸ hs)
        rcases lt_or_ge i lvl with hlt | hge
        · rw [hlow hs hlt, Function.update_of_ne hpu, Function.update_of_ne hp]
        · rw [hhigh hs hge hi, Function.update_of_ne hpu]
      · rw [habove hi]
    refine ⟨(congrArg Link.forward hlane).trans hf, fun hi =>
      (congrArg Link.span hlane).trans (hspan ?_)⟩
    by_contra hc
    push Not at hc
    obtain ⟨rfl, hge⟩ := hc
    refine hnone before ⟨⟨[], rfl⟩, hi, fun r hr => ?_⟩
    have := h.height_le r (by rw [c.split]; simp [hr])
    omega

/-- The list with the new node has the shape of its nodes. -/
theorem Inserted.shape {e : σ × Bytes} (hins : Inserted sl before lvl e sl') (h : Shape sl ps)
    (c : Cut sl ps less update before after) (hpos : 0 < lvl) (hlvl : lvl ≤ kMaxLevel)
    (hroom : sl.length < maxNodes) :
    Shape sl' (before ++ sl.fresh :: after) := by
  have hne : ∀ {p}, p ∈ sl.header :: ps → p ≠ sl.fresh := fun hp => (h.fresh _ hp).ne
  have hcat : sl.header :: before ++ after = sl.header :: ps := by rw [c.split]; rfl
  have hperm : ∀ p, p ∈ before ++ sl.fresh :: after ↔ p = sl.fresh ∨ p ∈ ps := fun p => by
    rw [c.split]; simp only [mem_append, mem_cons]; tauto
  have hlen : sl.length = (before ++ after).length := h.length.trans (by rw [c.split])
  rw [length_append] at hlen
  refine ⟨?_, ?_, ?_, fun p hp => ?_, fun p hp => ?_, ?_, ?_, fun p hp => ?_, ?_, ?_⟩
  · rw [hins.header]
    refine Linked.insert (hcat ▸ h.linked) (fun p hp => hins.height p (hne (hcat ▸ hp)))
      hins.height_new (hcat ▸ h.nodup) (fun i p hp hi hnone => ?_) hins.low hins.high
      fun i hi => ?_
    · exact (hins.keep i p (hne (hcat ▸ hp)) hnone).imp id fun hspan => hspan hi
    · obtain ⟨u, t, hs, -⟩ := c.extend h lvl hlvl (by omega : i < max sl.level lvl)
      exact ⟨u, t, hs⟩
  · rw [hins.header, ← cons_append, nodup_middle, nodup_cons, hcat]
    exact ⟨fun hmem => hne hmem rfl, h.nodup⟩
  · rw [hins.header, hins.height _ (hne (by simp)), h.header_height]
  · rcases (hperm p).1 hp with rfl | hp
    · rw [hins.height_new]; exact hpos
    · rw [hins.height p (hne (by simp [hp]))]; exact h.height_pos p hp
  · rw [hins.level]
    rcases (hperm p).1 hp with rfl | hp
    · rw [hins.height_new]; omega
    · rw [hins.height p (hne (by simp [hp]))]
      have := h.height_le p hp
      omega
  · rw [hins.level]; omega
  · rw [hins.level]
    have := h.level_le
    omega
  · rw [hins.header, mem_cons, hperm] at hp
    rw [hins.fresh]
    rcases hp with rfl | rfl | hp
    · exact Nat.lt_succ_of_lt (h.fresh _ (by simp))
    · exact Nat.lt_succ_self _
    · exact Nat.lt_succ_of_lt (h.fresh p (by simp [hp]))
  · rw [hins.length, hlen, length_append, length_cons]
    omega
  · rw [length_append, length_cons]
    omega

/-- `insertNode` at a cut links a new node in there. -/
theorem insertNode_spec (h : Shape sl ps) (c : Cut sl ps less update before after) (hpos : 0 < lvl)
    (hlvl : lvl ≤ kMaxLevel) (hroom : sl.length < maxNodes) (score : σ) (member : Bytes) :
    ∃ sl', sl.insertNode update lvl score member = .ok sl' ∧
      Shape sl' (before ++ sl.fresh :: after) ∧ Inserted sl before lvl (score, member) sl' := by
  obtain ⟨sl', hr, hins⟩ := insertNode_returns h c hlvl hroom score member
  exact ⟨sl', hr, hins.shape h c hpos hlvl hroom, hins⟩

end Cut

/-- `new` fails when there is no address left. -/
theorem insertNode_full (h : Shape sl ps) (update : List (Ptr × UInt64)) (hlvl : lvl ≤ kMaxLevel)
    (hfull : maxNodes ≤ sl.length) (score : σ) (member : Bytes) :
    sl.insertNode update lvl score member = .error .badAlloc := by
  obtain ⟨sl₀, hr₀, hsame₀, -⟩ := raiseHeader_spec (lvl - sl.level) sl.level sl
    (by rw [h.header_height]; have := h.level_le; omega)
  unfold insertNode
  simp only [hr₀, ok_bind]
  rw [if_pos (by rw [hsame₀.length]; exact hfull)]

/-- The level grows, by one for every flip at most. -/
theorem climb_le (flips : ℕ → Bool) (n level : ℕ) :
    level ≤ climb flips n level ∧ climb flips n level ≤ level + n := by
  induction n generalizing level with
  | zero => exact ⟨le_rfl, le_rfl⟩
  | succ n ih =>
    have := ih (level + 1)
    unfold climb
    split_ifs <;> omega

/-- `RandomLevel` returns a level from 1 to `kMaxLevel`. -/
theorem randomLevel_bounds (flips : ℕ → Bool) :
    0 < randomLevel flips ∧ randomLevel flips ≤ kMaxLevel := by
  have := climb_le flips (kMaxLevel - 1) 1
  unfold randomLevel kMaxLevel at *
  omega

end TinyRedis.SkipList

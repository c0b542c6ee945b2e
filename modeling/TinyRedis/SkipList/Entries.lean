import TinyRedis.SkipList.Delete

/-!
# The pairs in a skip list

`Holds sl es` says that `sl` is a skip list with the pairs `es`, in the order of level 0. `Insert`
and `Erase` are described here by what they do to this list, for any scores whatsoever: the pairs
are cut in two where the descent ends, and the change happens at the cut. That a pair is found
whenever it is there is a matter of order, which is left to `Refinement.lean`.
-/

namespace TinyRedis.SkipList

open List

open scoped UInt64.CommRing

variable {σ : Type} {sl sl' : SkipList σ} {ps after : List Ptr} {es : List (σ × Bytes)}
  {update : List (Ptr × UInt64)} {before : List Ptr} {p c : Ptr} {e : σ × Bytes} {n : Node σ}
  {level : ℕ} {score : σ} {member : Bytes} {added : Bool}

/-- `sl` is a skip list with the pairs `es`. -/
def Holds (sl : SkipList σ) (es : List (σ × Bytes)) : Prop :=
  ∃ ps, Shape sl ps ∧ ps.map sl.entry = es.map some

/-- The length counts the entries. -/
theorem Holds.length (h : Holds sl es) : sl.length = es.length := by
  obtain ⟨ps, hs, he⟩ := h
  have := congrArg List.length he
  rw [length_map, length_map] at this
  rw [hs.length, this]

/-- There are no more entries than nodes. -/
theorem Holds.length_le (h : Holds sl es) : es.length ≤ maxNodes := by
  obtain ⟨ps, hs, he⟩ := h
  have := congrArg List.length he
  rw [length_map, length_map] at this
  rw [← this]
  exact hs.length_le

/-- The empty skip list holds nothing. -/
theorem holds_empty [Score σ] : Holds (empty : SkipList σ) [] := ⟨[], shape_empty, rfl⟩

/-- The test of a walk, on the pair of a node. -/
theorem test_of_entry (h : sl.entry p = some e) (f : σ → Bytes → Bool) :
    sl.test (fun n => f n.score n.member) p = f e.1 e.2 := by
  unfold entry at h
  cases hn : sl.heap p with
  | none => rw [hn] at h; simp at h
  | some n =>
    rw [hn, Option.map_some, Option.some.injEq] at h
    rw [test_eq hn, ← h]

/-- An entry is that of an allocated node. -/
theorem deref_of_entry (h : sl.entry p = some e) :
    ∃ n, sl.heap p = some n ∧ n.score = e.1 ∧ n.member = e.2 := by
  unfold entry at h
  cases hn : sl.heap p with
  | none => rw [hn] at h; simp at h
  | some n =>
    rw [hn, Option.map_some, Option.some.injEq] at h
    exact ⟨n, rfl, by rw [← h], by rw [← h]⟩

/-- A new score for a node leaves the links as they are. -/
theorem fwd_store (hn : sl.heap c = some n) (score : σ) :
    (sl.store c { n with score := score }).fwd = sl.fwd := by
  funext q i
  by_cases hq : q = c
  · subst hq; simp [fwd, SkipList.store, hn]
  · exact (view_store_of_ne sl _ hq i).2.1

/-- A new score for a node leaves the shape as it is. -/
theorem Shape.store (h : Shape sl ps) (hn : sl.heap c = some n) (score : σ) :
    Shape (sl.store c { n with score := score }) ps := by
  have hheight : (sl.store c { n with score := score }).height = sl.height := by
    funext q
    by_cases hq : q = c
    · subst hq; simp [height, SkipList.store, hn]
    · exact (view_store_of_ne sl _ hq 0).1
  have hfwd := fwd_store hn score
  have hspan : (sl.store c { n with score := score }).spanAt = sl.spanAt := by
    funext q i
    by_cases hq : q = c
    · subst hq; simp [spanAt, SkipList.store, hn]
    · exact (view_store_of_ne sl _ hq i).2.2.1
  obtain ⟨h1, h2, h3, h4, h5, h6, h7, h8, h9, h10⟩ := h
  exact ⟨by rw [hheight, hfwd, hspan]; exact h1, h2, by rw [hheight]; exact h3,
    by rw [hheight]; exact h4, by rw [hheight]; exact h5, h6, h7, h8, h9, h10⟩

/-- A cut of the nodes is one of the pairs. -/
theorem Cut.entries {f : σ → Bytes → Bool}
    (c : Cut sl ps (fun n => f n.score n.member) update before after)
    (he : ps.map sl.entry = es.map some) :
    ∃ as bs, es = as ++ bs ∧ before.map sl.entry = as.map some ∧
      after.map sl.entry = bs.map some ∧ (∀ a ∈ as.getLast?, f a.1 a.2 = true) ∧
      ∀ b ∈ bs.head?, f b.1 b.2 = false := by
  rw [c.split, map_append] at he
  obtain ⟨as, bs, rfl, has, hbs⟩ := map_eq_append_iff.1 he.symm
  refine ⟨as, bs, rfl, has.symm, hbs.symm, fun a ha => ?_, fun b hb => ?_⟩
  · have hlast : (before.getLast?).map sl.entry = some (some a) := by
      rw [← getLast?_map, ← has, getLast?_map, Option.mem_def.1 ha]
      rfl
    obtain ⟨p, hp, hpa⟩ := Option.map_eq_some_iff.1 hlast
    rw [← test_of_entry hpa f]
    exact c.pass p hp
  · have hhead : (after.head?).map sl.entry = some (some b) := by
      rw [← head?_map, ← hbs, head?_map, Option.mem_def.1 hb]
      rfl
    obtain ⟨p, hp, hpb⟩ := Option.map_eq_some_iff.1 hhead
    rw [← test_of_entry hpb f]
    exact c.stop p hp

/-- The node right after a cut is taken out. -/
theorem deleteNode_entries {f : Node σ → Bool} {x : Ptr} {as bs : List (σ × Bytes)}
    (h : Shape sl ps) (c : Cut sl ps f update before (x :: after))
    (has : before.map sl.entry = as.map some) (hbs : after.map sl.entry = bs.map some) :
    ∃ sl', sl.deleteNode x update = .ok sl' ∧ Holds sl' (as ++ bs) := by
  have hsplit := c.split
  subst hsplit
  obtain ⟨sl', hr, hs', -, hold⟩ := deleteNode_spec h c
  refine ⟨sl', hr, before ++ after, hs', ?_⟩
  rw [map_congr_left fun q hq => (hold q (mem_cons_of_mem _ hq)).2, map_append, has,
    hbs, map_append]

variable [Score σ]

/-- What a search finds, as a cut of the pairs `es` into `as` and `bs`. -/
structure EntryCut (es : List (σ × Bytes)) (score : σ) (member : Bytes)
    (as bs : List (σ × Bytes)) : Prop where
  split : es = as ++ bs
  pass : ∀ a ∈ as.getLast?, keyLess a.1 a.2 score member = true
  stop : ∀ b ∈ bs.head?, keyLess b.1 b.2 score member = false

/-- A pair that is found has the member that was looked for. -/
theorem member_eq_of_keyEqual {s₁ s₂ : σ} {m₁ m₂ : Bytes} (h : keyEqual s₁ m₁ s₂ m₂ = true) :
    m₁ = m₂ := by
  unfold keyEqual at h
  rw [Bool.and_eq_true, decide_eq_true_eq] at h
  exact h.2

/-- `FindNode` finds the pair right after the cut, if it is the one it looks for. -/
theorem findNode_entries (h : Shape sl ps) (he : ps.map sl.entry = es.map some) (score : σ)
    (member : Bytes) :
    ∃ cand update before after as bs, sl.findNode score member = .ok (cand, update) ∧
      Cut sl ps (fun n => keyLess n.score n.member score member) update before after ∧
      EntryCut es score member as bs ∧ before.map sl.entry = as.map some ∧
      after.map sl.entry = bs.map some ∧
      ((∃ x rest b bs', after = x :: rest ∧ bs = b :: bs' ∧ cand = some x ∧
          keyEqual b.1 b.2 score member = true) ∨
        (cand = none ∧ ∀ b ∈ bs.head?, keyEqual b.1 b.2 score member = false)) := by
  obtain ⟨update, before, after, hf, hc, -⟩ := findNode_spec h score member
  obtain ⟨as, bs, hsplit, has, hbs, hpass, hstop⟩ :=
    Cut.entries (f := fun s m => keyLess s m score member) hc he
  refine ⟨_, update, before, after, as, bs, hf, hc, ⟨hsplit, hpass, hstop⟩, has, hbs, ?_⟩
  cases after with
  | nil =>
    have hnil : bs = [] := by simpa using hbs.symm
    exact .inr ⟨rfl, by simp [hnil]⟩
  | cons x rest =>
    cases bs with
    | nil => simp at hbs
    | cons b bs' =>
      have hx : sl.entry x = some b := (List.cons.inj hbs).1
      have htest := test_of_entry hx fun s m => keyEqual s m score member
      rw [head?_cons, Option.filter_some]
      by_cases hq : keyEqual b.1 b.2 score member = true
      · exact .inl ⟨x, rest, b, bs', rfl, rfl, if_pos (by rw [htest]; exact hq), hq⟩
      · refine .inr ⟨if_neg (by rw [htest]; exact hq), fun c hc' => ?_⟩
        rw [head?_cons, Option.mem_def, Option.some.injEq] at hc'
        rw [← hc']
        simpa using hq

/-- `Contains` looks at the pair right after the cut. -/
theorem contains_spec (h : Holds sl es) (score : σ) (member : Bytes) :
    ∃ as bs, EntryCut es score member as bs ∧
      sl.contains score member = .ok (bs.head?.any fun b => keyEqual b.1 b.2 score member) := by
  obtain ⟨ps, hs, he⟩ := h
  obtain ⟨cand, update, before, after, as, bs, hf, -, hcut, -, -, hcand⟩ :=
    findNode_entries hs he score member
  refine ⟨as, bs, hcut, ?_⟩
  unfold contains
  rw [hf, ok_bind]
  rcases hcand with ⟨x, rest, b, bs', -, rfl, rfl, hq⟩ | ⟨rfl, hq⟩
  · simp [hq]
  · cases bs with
    | nil => rfl
    | cons b bs => simp [hq b rfl]

/-- `Insert` of a pair: the score of an equal pair is overwritten, and a pair that is not found is
put in at the cut, if there is memory for its node. On a list with one level, the search has passed
all pairs before the cut. -/
theorem insert_spec (h : Holds sl es) (hpos : 0 < level) (hle : level ≤ kMaxLevel) (score : σ)
    (member : Bytes) :
    ∃ as bs, EntryCut es score member as bs ∧
      (sl.level = 1 → ∀ a ∈ as, keyLess a.1 a.2 score member = true) ∧
      ((∃ b bs' sl', bs = b :: bs' ∧ keyEqual b.1 b.2 score member = true ∧
          sl.insert level score member = .ok (false, sl') ∧
          Holds sl' (as ++ (score, member) :: bs')) ∨
        ((∀ b ∈ bs.head?, keyEqual b.1 b.2 score member = false) ∧
          ((∃ sl', sl.insert level score member = .ok (true, sl') ∧
            Holds sl' (as ++ (score, member) :: bs)) ∨
          (sl.insert level score member = .error .badAlloc ∧ maxNodes ≤ es.length)))) := by
  have hlen := h.length
  obtain ⟨ps, hs, he⟩ := h
  obtain ⟨cand, update, before, after, as, bs, hf, hc, hcut, has, hbs, hcand⟩ :=
    findNode_entries hs he score member
  refine ⟨as, bs, hcut, fun hflat a ha => ?_, ?_⟩
  · obtain ⟨p, hp, hpa⟩ : ∃ p ∈ before, sl.entry p = some a := by
      rw [← mem_map, has]
      exact mem_map_of_mem ha
    rw [← test_of_entry hpa fun s m => keyLess s m score member]
    refine hc.high p hp ?_
    rw [hflat]
    exact hs.height_pos p (by rw [hc.split]; simp [hp])
  unfold SkipList.insert
  rw [hf, ok_bind]
  rcases hcand with ⟨x, rest, b, bs', rfl, rfl, rfl, hq⟩ | ⟨rfl, hq⟩
  · -- The pair is there: only its score is written.
    left
    have hmem := member_eq_of_keyEqual hq
    obtain ⟨hx, hrest⟩ := List.cons.inj hbs
    obtain ⟨n, hn, -, hnm⟩ := deref_of_entry hx
    refine ⟨b, bs', _, rfl, hq, by simp only [deref_eq_ok hn, ok_bind], ps, hs.store hn score, ?_⟩
    have hentry : ∀ q, q ≠ x → (sl.store x { n with score := score }).entry q = sl.entry q :=
      fun q hq' => (view_store_of_ne sl _ hq' 0).2.2.2
    have hnd := (nodup_cons.1 hs.nodup).2
    rw [hc.split] at hnd ⊢
    have hnx : x ∉ before ++ rest := (nodup_cons.1 (nodup_middle.1 hnd)).1
    have hb : before.map (sl.store x { n with score := score }).entry = before.map sl.entry :=
      map_congr_left fun q hq' => hentry q (by rintro rfl; exact hnx (by simp [hq']))
    have hr : rest.map (sl.store x { n with score := score }).entry = rest.map sl.entry :=
      map_congr_left fun q hq' => hentry q (by rintro rfl; exact hnx (by simp [hq']))
    have hself : (sl.store x { n with score := score }).entry x = some (score, member) := by
      simp [entry, SkipList.store, hnm, hmem]
    rw [map_append, map_cons, hb, hr, has, hrest, hself, map_append, map_cons]
  · refine .inr ⟨hq, ?_⟩
    rcases lt_or_ge sl.length maxNodes with hroom | hfull
    · -- A new node goes in.
      left
      obtain ⟨sl', hr, hs', hins⟩ := insertNode_spec hs hc hpos hle hroom score member
      refine ⟨sl', by simp only [hr, ok_bind], before ++ sl.fresh :: after, hs', ?_⟩
      have hmem : ∀ q, q ∈ before ++ after → sl'.entry q = sl.entry q := fun q hq' =>
        hins.entry q (hs.fresh q (by rw [hc.split]; exact mem_cons_of_mem _ hq')).ne
      rw [map_append, map_cons, hins.entry_new,
        map_congr_left fun q hq' => hmem q (mem_append_left _ hq'),
        map_congr_left fun q hq' => hmem q (mem_append_right _ hq'), has, hbs, map_append, map_cons]
    · right
      have hr := insertNode_full hs update hle hfull score member
      exact ⟨by simp only [hr, error_bind], by rw [← hlen]; exact hfull⟩

/-- A list that has one level, and gets a node with one level, still has one. -/
theorem insert_flat (h : Holds sl es) (hflat : sl.level = 1)
    (hr : sl.insert 1 score member = .ok (added, sl')) : sl'.level = 1 := by
  obtain ⟨ps, hs, -⟩ := h
  obtain ⟨update, before, after, hf, hc, -⟩ := findNode_spec hs score member
  unfold SkipList.insert at hr
  rw [hf, ok_bind] at hr
  generalize Option.filter _ _ = cand at hr
  cases cand with
  | some c =>
    obtain ⟨n, -, hr⟩ := bind_eq_ok hr
    cases hr
    exact hflat
  | none =>
    obtain ⟨sl'', hr', hr⟩ := bind_eq_ok hr
    cases hr
    rcases lt_or_ge sl.length maxNodes with hroom | hfull
    · obtain ⟨sl'', hr'', hins⟩ :=
        insertNode_returns hs hc (show 1 ≤ kMaxLevel by decide) hroom score member
      rw [hr''] at hr'
      cases hr'
      rw [hins.level, hflat]
      rfl
    · rw [insertNode_full hs update (by decide) hfull score member] at hr'
      cases hr'

/-- `Insert` of a pair that is found puts in no node. -/
theorem insert_of_contains (hfound : sl.contains score member = .ok true)
    (hr : sl.insert level score member = .ok (added, sl')) : added = false := by
  unfold contains at hfound
  unfold SkipList.insert at hr
  obtain ⟨⟨cand, update⟩, hf, hfound⟩ := bind_eq_ok hfound
  rw [hf, ok_bind] at hr
  cases cand with
  | none => cases hfound
  | some c =>
    obtain ⟨n, -, hr⟩ := bind_eq_ok hr
    cases hr
    rfl

/-- `Erase` takes out the pair it finds. -/
theorem erase_spec (h : Holds sl es) (score : σ) (member : Bytes) :
    ∃ as bs, EntryCut es score member as bs ∧
      ((∃ b bs' sl', bs = b :: bs' ∧ keyEqual b.1 b.2 score member = true ∧
          sl.erase score member = .ok (true, sl') ∧ Holds sl' (as ++ bs')) ∨
        ((∀ b ∈ bs.head?, keyEqual b.1 b.2 score member = false) ∧
          sl.erase score member = .ok (false, sl))) := by
  obtain ⟨ps, hs, he⟩ := h
  obtain ⟨cand, update, before, after, as, bs, hf, hc, hcut, has, hbs, hcand⟩ :=
    findNode_entries hs he score member
  refine ⟨as, bs, hcut, ?_⟩
  unfold erase
  rw [hf, ok_bind]
  rcases hcand with ⟨x, rest, b, bs', rfl, rfl, rfl, hq⟩ | ⟨rfl, hq⟩
  · obtain ⟨sl', hr, hh⟩ := deleteNode_entries hs hc has (List.cons.inj hbs).2
    exact .inl ⟨b, bs', sl', rfl, hq, by simp only [hr, ok_bind], hh⟩
  · exact .inr ⟨hq, rfl⟩

end TinyRedis.SkipList

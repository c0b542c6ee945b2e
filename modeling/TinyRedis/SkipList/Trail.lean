import TinyRedis.Lib.SkipTrail
import TinyRedis.SkipList.Entries
import TinyRedis.SkipList.Order

/-!
# Pairs that are found stay found

The pairs of a list need not be in order: a pair whose score is NaN goes to the front, and stops the
searches for the pairs behind it. But as long as no such pair is put in, what was found is found
again. `contains_insert` is the rule for `Insert`: a pair with a score that compares is found after
it was put in, and other pairs that were found are found.
-/

namespace TinyRedis.SkipList

open Lib

variable {σ : Type} {sl sl' : SkipList σ} {ps : List Ptr} {less : Node σ → Bool} {score s : σ}
  {member m : Bytes} {p : Ptr} {i : ℕ}

/-! ## The trail of a descent -/

/-- The forward pointer is that of the link. -/
theorem fwd_of_link {l : Link} (h : sl.link p i = .ok l) : sl.fwd p i = l.forward := by
  unfold link deref at h
  unfold fwd
  cases hn : sl.heap p with
  | none => rw [hn] at h; cases h
  | some n =>
    simp only [hn, ok_bind] at h
    cases hl : n.links[i]? with
    | none => rw [hl] at h; cases h
    | some l' =>
      rw [hl] at h
      cases h
      simp [hl]

/-- A walk goes along a level, up to a node that does not pass. -/
theorem walk_along (fuel : ℕ) {x y : Ptr} {rank r : UInt64}
    (h : sl.walk less i fuel x rank = .ok (y, r)) :
    Along sl.fwd (fun p => sl.test less p = true) i x y ∧
      ∀ w, sl.fwd y i = some w → ¬sl.test less w = true := by
  induction fuel generalizing x rank with
  | zero => cases h
  | succ fuel ih =>
    unfold walk at h
    obtain ⟨l, hl, h⟩ := bind_eq_ok h
    have hfwd := fwd_of_link hl
    cases hf : l.forward with
    | none =>
      rw [hf] at h hfwd
      cases h
      exact ⟨.refl _, fun w hw => by rw [hfwd] at hw; cases hw⟩
    | some q =>
      rw [hf] at h hfwd
      dsimp only at h
      obtain ⟨n, hn, h⟩ := bind_eq_ok h
      have hheap : sl.heap q = some n := by
        unfold deref at hn
        cases hq : sl.heap q with
        | none => rw [hq] at hn; cases hn
        | some n' => rw [hq] at hn; cases hn; rfl
      rw [← test_eq hheap less] at h
      split_ifs at h with htest
      · obtain ⟨h1, h2⟩ := ih h
        exact ⟨.step hfwd htest h1, h2⟩
      · cases h
        refine ⟨.refl _, fun w hw => ?_⟩
        rw [hfwd] at hw
        cases hw
        exact htest

/-- A descent is a search over its levels. -/
theorem descend_trail (n : ℕ) {x : Ptr} {rank : UInt64} {update : List (Ptr × UInt64)}
    (h : sl.descend less n x rank = .ok update) :
    ∃ u, Trail sl.fwd (fun p => sl.test less p = true) n u ∧ u n = x ∧ update.length = n ∧
      ∀ i < n, ∃ r, update[i]? = some (u i, r) := by
  induction n generalizing x rank update with
  | zero =>
    cases h
    exact ⟨fun _ => x, ⟨fun i hi => by omega, fun i hi => by omega⟩, rfl, rfl, fun i hi => by omega⟩
  | succ n ih =>
    unfold descend at h
    obtain ⟨⟨y, r⟩, hw, h⟩ := bind_eq_ok h
    obtain ⟨below, hbelow, h⟩ := bind_eq_ok h
    cases h
    obtain ⟨halong, hstop⟩ := walk_along _ hw
    obtain ⟨u, htrail, rfl, hlen, hget⟩ := ih hbelow
    have hne : ∀ {i}, i ≤ n → (if i = n + 1 then x else u i) = u i := fun hi => if_neg (by omega)
    refine ⟨fun i => if i = n + 1 then x else u i, ⟨fun i hi => ?_, fun i hi => ?_⟩, if_pos rfl,
      by simp [hlen], fun i hi => ?_⟩
    · rw [hne (by omega : i ≤ n)]
      rcases Nat.lt_succ_iff_lt_or_eq.1 hi with hi | rfl
      · rw [hne (by omega : i + 1 ≤ n)]
        exact htrail.along i hi
      · rw [if_pos rfl]
        exact halong
    · rw [hne (by omega : i ≤ n)]
      rcases Nat.lt_succ_iff_lt_or_eq.1 hi with hi | rfl
      · exact htrail.stop i hi
      · exact hstop
    · dsimp only
      rw [hne (by omega : i ≤ n)]
      rcases Nat.lt_succ_iff_lt_or_eq.1 hi with hi | rfl
      · obtain ⟨r', hr'⟩ := hget i hi
        exact ⟨r', by rw [List.getElem?_append_left (by omega), hr']⟩
      · exact ⟨r, by rw [List.getElem?_append_right (by omega), hlen]; simp⟩

/-- No link leaves the list. -/
theorem Shape.fwd_mem (h : Shape sl ps) {q : Ptr} (hp : p ∈ sl.header :: ps)
    (hf : sl.fwd p i = some q) : q ∈ sl.header :: ps := by
  have hi : i < sl.height p := by
    unfold fwd at hf
    unfold height
    cases hn : sl.heap p with
    | none => rw [hn] at hf; cases hf
    | some n =>
      rw [hn] at hf
      by_contra hc
      rw [Option.map_some, Option.getD_some, Nat.not_lt] at hc
      rw [Option.bind_some, List.getElem?_eq_none hc] at hf
      cases hf
  obtain ⟨pre, rest, hl⟩ := List.append_of_mem hp
  rcases h.linked pre p rest hl i hi with ⟨hnone, -⟩ | ⟨mid, q', rest', hrest, -, -, hq', -⟩
  · rw [hnone] at hf
    cases hf
  · rw [hq'] at hf
    cases hf
    rw [hl, hrest]
    simp

/-- A test of the pair of a node. -/
theorem test_iff {f : σ → Bytes → Bool} :
    sl.test (fun n => f n.score n.member) p = true ↔
      ∃ e, sl.entry p = some e ∧ f e.1 e.2 = true := by
  unfold test entry
  cases sl.heap p with
  | none => simp
  | some n => simp

section Find

variable [Score σ]

/-- The nodes that a search for a pair passes. -/
def Passes (sl : SkipList σ) (score : σ) (member : Bytes) (p : Ptr) : Prop :=
  sl.test (fun n => keyLess n.score n.member score member) p = true

/-- `FindNode` is a search over all levels. -/
theorem findNode_trail (h : Shape sl ps) (score : σ) (member : Bytes) :
    ∃ v update before after,
      sl.findNode score member = .ok ((sl.fwd (v 0) 0).filter
        (sl.test fun n => keyEqual n.score n.member score member), update) ∧
      Cut sl ps (fun n => keyLess n.score n.member score member) update before after ∧
      Trail sl.fwd (sl.Passes score member) kMaxLevel v ∧ v kMaxLevel = sl.header ∧
      ∀ i < kMaxLevel, ∃ tail, Splits sl.height i (sl.header :: before) (v i) tail := by
  obtain ⟨update, before, after, hf, hc, hd⟩ := findNode_spec h score member
  obtain ⟨u, htrail, hstart, -, hget⟩ := descend_trail sl.level hd
  have hpos := h.level_pos
  have hle := h.level_le
  have hlast : sl.lastOf update = u 0 := by
    obtain ⟨r, hr⟩ := hget 0 hpos
    unfold lastOf
    rw [List.head?_eq_getElem?, hr]
    rfl
  obtain ⟨s, hs⟩ := hc.link_lastOf h
  rw [hlast] at hs
  -- Above the levels in use, the search stays at the header.
  refine ⟨fun i => if i < sl.level then u i else sl.header, update, before, after, ?_, hc,
    ⟨fun i hi => ?_, fun i hi => ?_⟩, if_neg (by omega), fun i hi => ?_⟩
  · have hzero : (if 0 < sl.level then u 0 else sl.header) = u 0 := if_pos hpos
    rw [hf]
    dsimp only
    rw [hzero, fwd_of_link hs]
  · by_cases hlt : i < sl.level
    · rw [if_pos hlt]
      have hal := htrail.along i hlt
      by_cases hlt' : i + 1 < sl.level
      · rw [if_pos hlt']
        exact hal
      · rw [if_neg hlt', ← hstart, show sl.level = i + 1 by omega]
        exact hal
    · rw [if_neg hlt, if_neg (by omega)]
      exact .refl _
  · by_cases hlt : i < sl.level
    · rw [if_pos hlt]
      exact htrail.stop i hlt
    · rw [if_neg hlt, h.fwd_header_eq_none (by omega)]
      exact fun y hy => nomatch hy
  · dsimp only
    by_cases hlt : i < sl.level
    · rw [if_pos hlt]
      obtain ⟨r, hr⟩ := hget i hlt
      obtain ⟨w, tail, hsplit, hw⟩ := hc.update i hlt
      rw [hr] at hw
      cases hw
      exact ⟨tail, hsplit⟩
    · rw [if_neg hlt]
      refine ⟨before, ⟨[], rfl⟩, by rw [h.header_height]; exact hi, fun r hr => ?_⟩
      have := h.height_le r (by rw [hc.split]; simp [hr])
      omega

/-- A search for a pair ends right before a node that has it. -/
def Finds (sl : SkipList σ) (score : σ) (member : Bytes) : Prop :=
  ∃ u c, Trail sl.fwd (sl.Passes score member) kMaxLevel u ∧ u kMaxLevel = sl.header ∧
    sl.fwd (u 0) 0 = some c ∧ sl.test (fun n => keyEqual n.score n.member score member) c = true

/-- `Contains` says whether the search finds the pair. -/
theorem contains_iff_finds (h : Shape sl ps) (score : σ) (member : Bytes) :
    sl.contains score member = .ok true ↔ sl.Finds score member := by
  obtain ⟨v, update, before, after, hf, -, htrail, hstart, -⟩ := findNode_trail h score member
  have hcontains : sl.contains score member = .ok ((sl.fwd (v 0) 0).filter
      (sl.test fun n => keyEqual n.score n.member score member)).isSome := by
    unfold contains
    rw [hf]
    rfl
  rw [hcontains, Except.ok.injEq, Option.isSome_iff_exists]
  constructor
  · rintro ⟨c, hc⟩
    rw [Option.filter_eq_some_iff] at hc
    exact ⟨v, c, htrail, hstart, hc.1, hc.2⟩
  · rintro ⟨u, c, htrail', hstart', hc, htest⟩
    rw [← htrail'.unique htrail (hstart'.trans hstart.symm) 0 (Nat.zero_le _), hc]
    exact ⟨c, by rw [Option.filter_some, if_pos htest]⟩

/-! ## Insertion -/

variable {κ : Type} [LinearOrder κ] {key : σ → κ} {ok : σ → Prop} {es : List (σ × Bytes)}

/-- The search passes the entries below the pair. -/
theorem passes_iff (hk : OrderedBy key ok) :
    sl.Passes score member p ↔
      ∃ e, sl.entry p = some e ∧ ok e.1 ∧ ok score ∧ keyOf key e < keyOf key (score, member) := by
  unfold Passes
  rw [test_iff (f := fun s m => keyLess s m score member)]
  simp only [keyLess_iff_and hk]

/-- The node is the pair's when their keys are equal. -/
theorem isPair_iff (hk : OrderedBy key ok) :
    sl.test (fun n => keyEqual n.score n.member score member) p = true ↔
      ∃ e, sl.entry p = some e ∧ ok e.1 ∧ ok score ∧ keyOf key e = keyOf key (score, member) := by
  rw [test_iff (f := fun s m => keyEqual s m score member)]
  simp only [keyEqual_iff_and hk]

/-- A search looks at a pair as the order sees it. -/
theorem Finds.congr (hk : OrderedBy key ok) (h : sl.Finds score member) (hscore : ok score)
    (hs : ok s) (heq : keyOf key (score, member) = keyOf key (s, m)) : sl.Finds s m := by
  obtain ⟨u, c, htrail, hstart, hc, htest⟩ := h
  have hpass : ∀ p, sl.Passes s m p ↔ sl.Passes score member p := by
    intro p
    rw [passes_iff hk, passes_iff hk, heq]
    simp only [hscore, hs, true_and]
  refine ⟨u, c, ?_, hstart, hc, ?_⟩
  · rwa [show sl.Passes s m = sl.Passes score member from funext fun p => propext (hpass p)]
  · rw [isPair_iff hk] at htest ⊢
    rw [← heq]
    simpa only [hscore, hs] using htest

/-- A new score for a pair that compares in the same way leads no search astray. -/
theorem Finds.store (hk : OrderedBy key ok) {c : Ptr} {n : Node σ} (hn : sl.heap c = some n)
    (hq : keyEqual n.score n.member score member = true) (h : sl.Finds s m) :
    (sl.store c { n with score := score }).Finds s m := by
  obtain ⟨hok, hscore, heq⟩ := (keyEqual_iff_and hk (a := (n.score, n.member))).1 hq
  obtain ⟨u, d, htrail, hstart, hd, htest⟩ := h
  have hold : sl.entry c = some (n.score, n.member) := by simp [entry, hn]
  have hnew : (sl.store c { n with score := score }).entry c = some (score, n.member) := by
    simp [entry, SkipList.store]
  have hkey : keyOf key (score, n.member) = keyOf key (n.score, n.member) := by
    rw [keyOf_eq_iff] at heq ⊢
    exact ⟨heq.1.symm, rfl⟩
  -- The pair of a node is the same, as the order sees it.
  have hentry : ∀ p (P : κ ×ₗ Bytes → Prop),
      (∃ e, (sl.store c { n with score := score }).entry p = some e ∧ ok e.1 ∧ P (keyOf key e)) ↔
        ∃ e, sl.entry p = some e ∧ ok e.1 ∧ P (keyOf key e) := by
    intro p P
    by_cases hp : p = c
    · rw [hp, hold, hnew]
      simp [hscore, hok, hkey]
    · rw [(view_store_of_ne sl _ hp 0).2.2.2]
  refine ⟨u, d, ?_, hstart, ?_, ?_⟩
  · have hpass : (sl.store c { n with score := score }).Passes s m = sl.Passes s m := by
      funext p
      rw [passes_iff hk, passes_iff hk]
      exact propext (hentry p fun k => ok s ∧ k < keyOf key (s, m))
    rw [hpass, fwd_store hn]
    exact htrail
  · rw [fwd_store hn]
    exact hd
  · rw [isPair_iff hk] at htest ⊢
    exact (hentry d fun k => ok s ∧ k = keyOf key (s, m)).2 htest

/-- A new node is found, and leads no search astray. -/
theorem finds_insertNode (hk : OrderedBy key ok) {v : ℕ → Ptr} {lvl : ℕ} (hpos : 0 < lvl)
    (hlvl : lvl ≤ kMaxLevel) (hscore : ok score) (hs : ok s)
    (hv : Trail sl.fwd (sl.Passes score member) kMaxLevel v) (hstart : v kMaxLevel = sl.header)
    (hin : LinkedIn sl.fwd sl'.fwd (· ∈ sl.header :: ps) v lvl sl.fresh)
    (hheader : sl'.header = sl.header) (hnew : sl'.entry sl.fresh = some (score, member))
    (hold : ∀ p ∈ sl.header :: ps, sl'.entry p = sl.entry p)
    (hfind : keyOf key (score, member) = keyOf key (s, m) ∨ sl.Finds s m) : sl'.Finds s m := by
  have hL : v kMaxLevel ∈ sl.header :: ps := by rw [hstart]; simp
  have hpass : ∀ s m p, p ∈ sl.header :: ps → (sl'.Passes s m p ↔ sl.Passes s m p) := by
    intro s m p hp
    rw [passes_iff hk, passes_iff hk, hold p hp]
  have hv' : Trail sl.fwd (sl'.Passes score member) kMaxLevel v :=
    hv.congr hin.closed hL (hpass score member)
  have hfresh : sl'.Passes s m sl.fresh ↔ keyOf key (score, member) < keyOf key (s, m) := by
    rw [passes_iff hk, hnew]
    simp [hscore, hs]
  by_cases heq : keyOf key (score, member) = keyOf key (s, m)
  · -- The search for the pair is the one for the new node, which now ends right before it.
    refine Finds.congr hk ?_ hscore hs heq
    refine ⟨v, sl.fresh, ?_, hstart.trans hheader.symm, (hin.link 0 hpos).1, ?_⟩
    · refine hv'.insert_stop hin hL hv' (fun _ _ h => h) ?_
      rw [passes_iff hk, hnew]
      simp
    · rw [isPair_iff hk]
      exact ⟨_, hnew, hscore, hscore, rfl⟩
  · obtain ⟨u, c, hu, hustart, hc, htest⟩ := hfind.resolve_left heq
    have hLu : u kMaxLevel ∈ sl.header :: ps := by rw [hustart]; simp
    have hu' : Trail sl.fwd (sl'.Passes s m) kMaxLevel u := hu.congr hin.closed hLu (hpass s m)
    have hmem0 := hu.mem hin.closed hLu 0 (Nat.zero_le _)
    have hcL : c ∈ sl.header :: ps := hin.closed _ _ _ hmem0 hc
    have htest' : sl'.test (fun n => keyEqual n.score n.member s m) c = true := by
      rw [isPair_iff hk] at htest ⊢
      rwa [hold c hcL]
    rcases lt_or_gt_of_ne heq with hlt | hgt
    · -- The search passes the new node.
      obtain ⟨u', htrail, hstart', hends⟩ := hu'.insert_pass hin hLu hv' (hustart.trans hstart.symm)
        (fun w hw => by
          rw [passes_iff hk] at hw ⊢
          obtain ⟨e, he, h1, -, h2⟩ := hw
          exact ⟨e, he, h1, hs, h2.trans hlt⟩) (hfresh.2 hlt) hlvl
      refine ⟨u', c, htrail, (hstart'.trans hustart).trans hheader.symm, ?_, htest'⟩
      by_cases hsame : u 0 = v 0 ∧ 0 < lvl
      · rw [(hends 0 (by decide)).1 hsame, (hin.link 0 hpos).2, ← hsame.1]
        exact hc
      · rw [(hends 0 (by decide)).2 hsame, hin.keep _ _ hmem0 hsame]
        exact hc
    · -- The new node stops the search.
      refine ⟨u, c, hu'.insert_stop hin hLu hv' (fun w _ hw => ?_) ?_,
        hustart.trans hheader.symm, ?_, htest'⟩
      · rw [passes_iff hk] at hw ⊢
        obtain ⟨e, he, h1, -, h2⟩ := hw
        exact ⟨e, he, h1, hscore, h2.trans hgt⟩
      · rw [hfresh]
        exact not_lt_of_gt hgt
      · rw [hin.keep _ _ hmem0, hc]
        -- The search for the new node would have passed the pair.
        rintro ⟨hsame, -⟩
        rw [hsame] at hc
        refine hv.stop 0 (by decide) c hc ?_
        rw [passes_iff hk]
        obtain ⟨e, he, h1, -, h2⟩ := (isPair_iff hk).1 htest
        exact ⟨e, he, h1, hscore, h2 ▸ hgt⟩

/-- `Insert` of a pair whose score compares: it is found then, and so is every other pair that was
found before. -/
theorem contains_insert (hk : OrderedBy key ok) (h : Holds sl es) {level : ℕ} (hpos : 0 < level)
    (hle : level ≤ kMaxLevel) {added : Bool} (hscore : ok score) (hs : ok s)
    (hr : sl.insert level score member = .ok (added, sl'))
    (hfind : keyOf key (score, member) = keyOf key (s, m) ∨ sl.contains s m = .ok true) :
    sl'.contains s m = .ok true := by
  obtain ⟨ps, hshape, -⟩ := h
  rw [contains_iff_finds hshape] at hfind
  obtain ⟨v, update, before, after, hf, hc, hv, hstart, hsplits⟩ :=
    findNode_trail hshape score member
  unfold SkipList.insert at hr
  rw [hf, ok_bind] at hr
  cases hcand : (sl.fwd (v 0) 0).filter
      (sl.test fun n => keyEqual n.score n.member score member) with
  | some c =>
    -- The pair was there, and gets a score that compares in the same way.
    obtain ⟨hfwd, htest⟩ := Option.filter_eq_some_iff.1 hcand
    rw [hcand] at hr
    dsimp only at hr
    obtain ⟨n, hn, hr⟩ := bind_eq_ok hr
    have hheap : sl.heap c = some n := by
      unfold deref at hn
      cases hq : sl.heap c with
      | none => rw [hq] at hn; cases hn
      | some n' => rw [hq] at hn; cases hn; rfl
    cases hr
    rw [contains_iff_finds (hshape.store hheap score)]
    have hfinds : sl.Finds s m := by
      rcases hfind with heq | hfind
      · exact Finds.congr hk ⟨v, c, hv, hstart, hfwd, htest⟩ hscore hs heq
      · exact hfind
    rw [test_eq hheap] at htest
    exact hfinds.store hk hheap htest
  | none =>
    rw [hcand] at hr
    dsimp only at hr
    obtain ⟨sl'', hr', hr⟩ := bind_eq_ok hr
    cases hr
    have hroom : sl.length < maxNodes := by
      by_contra hfull
      rw [insertNode_full hshape update hle (Nat.not_lt.1 hfull) score member] at hr'
      cases hr'
    obtain ⟨sl'', hr'', hshape', hins⟩ := insertNode_spec hshape hc hpos hle hroom score member
    rw [hr''] at hr'
    cases hr'
    rw [contains_iff_finds hshape']
    refine finds_insertNode hk hpos hle hscore hs hv hstart ⟨?_, ?_, ?_, ?_⟩ hins.header
      hins.entry_new (fun p hp => hins.entry p (hshape.fresh p hp).ne) hfind
    · exact fun p i q hp hq => hshape.fwd_mem hp hq
    · exact fun hmem => absurd (hshape.fresh _ hmem) (lt_irrefl _)
    · intro i hi
      obtain ⟨tail, hsplit⟩ := hsplits i (by omega)
      obtain ⟨hto, -, hfrom, -⟩ := hins.low i (v i) tail hsplit hi
      exact ⟨hto, hfrom⟩
    · intro p i hp hne
      by_cases hsplit : ∃ tail, Splits sl.height i (sl.header :: before) p tail
      · obtain ⟨tail, hsplit⟩ := hsplit
        refine (hins.high i p tail hsplit ?_).1
        by_contra hlt
        obtain ⟨tail', hsplit'⟩ := hsplits i (by omega)
        exact hne ⟨(hsplit.unique hsplit').1, by omega⟩
      · exact (hins.keep i p (hshape.fresh p hp).ne fun tail h => hsplit ⟨tail, h⟩).1

end Find

end TinyRedis.SkipList

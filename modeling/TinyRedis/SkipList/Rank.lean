import TinyRedis.SkipList.Runs

/-!
# Ranks

`Rank` adds up the spans along a descent. The spans are right in every list that has the shape of
`Shape.lean`, so the sum is the position of the node where a walk ends. A pair that is not there is
never met (`rankFrom_absent`). For a pair that is there, the walks stay before its node until one of
them ends on it, at level 0 at the latest (`rankFrom_present`).
-/

namespace TinyRedis.SkipList

open Lib Lib.SortedSet List
open scoped UInt64.CommRing

variable {σ κ : Type} [Score σ] [LinearOrder κ] {key : σ → κ} {ok : σ → Prop} {sl : SkipList σ}
  {ps pre rest : List Ptr} {es as bs : List (σ × Bytes)} {score : σ} {member : Bytes}
  {e : σ × Bytes} {y : Ptr}

/-! ## Positions -/

omit [Score σ] in
/-- A span counts the positions between two nodes, below `2^64`. -/
theorem Shape.span_toNat (h : Shape sl ps) {a i : ℕ} {p q : Ptr} {s : UInt64}
    (ha : (sl.header :: ps)[a]? = some p) (hl : sl.link p i = .ok ⟨some q, s⟩) :
    ∃ b, (sl.header :: ps)[b]? = some q ∧ a < b ∧ s.toNat = b - a := by
  obtain ⟨hlt, hget⟩ := List.getElem?_eq_some_iff.1 ha
  have hsplit :
      sl.header :: ps = (sl.header :: ps).take a ++ p :: (sl.header :: ps).drop (a + 1) := by
    rw [← hget, ← drop_eq_getElem_cons, take_append_drop]
  have hi : i < sl.height p := by
    by_contra hc
    obtain ⟨n, hn⟩ := heap_of_height_pos (h.pos_of_mem (p := p) (by rw [hsplit]; simp))
    have hlen : n.links.length ≤ i := by simpa [height, hn] using hc
    unfold link at hl
    rw [deref_eq_ok hn, ok_bind, getElem?_eq_none hlen] at hl
    exact absurd hl (by simp)
  rw [link_eq_ok hi, Except.ok.injEq, Link.mk.injEq] at hl
  obtain ⟨hf, rfl⟩ := hl
  rcases h.linked _ _ _ hsplit i hi with ⟨hf', -⟩ | ⟨mid, r, rest, hr, -, -, hf', hs⟩
  · rw [hf'] at hf
    exact absurd hf (by simp)
  · obtain rfl : r = q := by rw [hf'] at hf; exact Option.some.inj hf
    have hlen := congrArg List.length hsplit
    rw [hr] at hsplit hlen
    have htake : ((sl.header :: ps).take a).length = a := by
      rw [length_take]
      omega
    refine ⟨a + (mid.length + 1), ?_, by omega, ?_⟩
    · rw [hsplit, getElem?_append_right (by omega), htake]
      simp [show a + (mid.length + 1) - a = mid.length + 1 by omega]
    · have hbound := h.length_le
      unfold maxNodes at hbound
      simp only [length_append, length_cons, htake] at hlen
      rw [hs, Nat.add_sub_cancel_left]
      exact UInt64.toNat_ofNat_of_lt' (by rw [UInt64.size]; omega)

omit [Score σ] in
/-- The pair at a position after the header. -/
theorem entry_at (he : ps.map sl.entry = es.map some) (hl : sl.header :: ps = pre ++ y :: rest)
    (hpre : pre ≠ []) :
    ∃ as e bs, es = as ++ e :: bs ∧ sl.entry y = some e ∧ pre.length = as.length + 1 := by
  obtain ⟨h, pre, rfl⟩ := exists_cons_of_ne_nil hpre
  have hps : ps = pre ++ y :: rest := (List.cons.inj hl).2
  rw [hps, map_append, map_cons] at he
  obtain ⟨as, cs, rfl, has, hcs⟩ := map_eq_append_iff.1 he.symm
  obtain ⟨e, bs, rfl, hey, -⟩ := map_eq_cons_iff.1 hcs
  have hlen := congrArg List.length has
  rw [length_map, length_map] at hlen
  exact ⟨as, e, bs, rfl, hey.symm, by rw [length_cons, hlen]⟩

omit [Score σ] in
/-- Only the first position is the header's. -/
theorem Shape.eq_header_iff (h : Shape sl ps) (hl : sl.header :: ps = pre ++ y :: rest) :
    y = sl.header ↔ pre = [] := by
  constructor
  · rintro rfl
    cases pre with
    | nil => rfl
    | cons z pre =>
      have hps := (List.cons.inj hl).2
      exact absurd (show sl.header ∈ ps by rw [hps]; simp) (nodup_cons.1 h.nodup).1
  · rintro rfl
    exact (List.cons.inj hl).1.symm

/-! ## `Rank` -/

/-- A pair that is not in the list has no rank. -/
theorem rankFrom_absent (h : Shape sl ps) (he : ps.map sl.entry = es.map some)
    (habs : ∀ e ∈ es, keyEqual e.1 e.2 score member = false) (i : ℕ) (pre : List Ptr) (x : Ptr)
    (rest : List Ptr) (hl : sl.header :: ps = pre ++ x :: rest) (hx : i ≤ sl.height x) :
    sl.rankFrom score member i x (pre.length : UInt64) = .ok sizeMax := by
  induction i generalizing pre x rest with
  | zero => rfl
  | succ i ih =>
    have hlen : rest.length < sl.length + 1 := by
      have := congrArg List.length hl
      simp only [length_cons, length_append] at this
      rw [h.length]
      omega
    obtain ⟨mid, y, rest', hr, hy, hw, -, -⟩ := walk_spec h (fun n => Score.lt n.score score ||
      (Score.eq n.score score && decide (n.member ≤ member))) (sl.length + 1) pre x rest
      (pre.length : UInt64) hl hx hlen
    have hl' : sl.header :: ps = (pre ++ mid) ++ y :: rest' := by rw [hl, hr]; simp
    have hnext := ih (pre ++ mid) y rest' hl' (by omega)
    rw [length_append, Nat.cast_add] at hnext
    unfold rankFrom
    simp only [hw, ok_bind]
    by_cases hhead : y = sl.header
    · rw [if_pos hhead, hnext]
    · obtain ⟨as, e, bs, rfl, hey, -⟩ :=
        entry_at he hl' (fun hc => hhead ((h.eq_header_iff hl').2 hc))
      obtain ⟨n, hn, hn1, hn2⟩ := deref_of_entry hey
      rw [if_neg hhead, deref_eq_ok hn, ok_bind, hn1, hn2, habs e (by simp)]
      exact hnext

omit [Score σ] in
/-- The order of two pairs is the order of their positions. -/
theorem Represents.le_iff {e' : σ × Bytes} {as' bs' : List (σ × Bytes)}
    (h : Represents key ok sl (as ++ e :: bs)) (hsplit : as ++ e :: bs = as' ++ e' :: bs') :
    keyOf key e' ≤ keyOf key e ↔ as'.length ≤ as.length := by
  have hsorted := h.sorted
  have hkeys := congrArg (List.map (keyOf key)) hsplit
  rw [map_append, map_cons, map_append, map_cons] at hkeys
  rw [map_append, map_cons] at hsorted
  have := le_iff_length_le hsorted hkeys
  rwa [length_map, length_map] at this

/-- The rank of a pair is the number of pairs before it. -/
theorem rankFrom_present (hk : OrderedBy key ok) (h : Represents key ok sl (as ++ e :: bs))
    (hs : Shape sl ps) (he : ps.map sl.entry = (as ++ e :: bs).map some)
    (hq : keyEqual e.1 e.2 score member = true) (i : ℕ) (hi : 0 < i) (pre : List Ptr) (x : Ptr)
    (rest : List Ptr) (hl : sl.header :: ps = pre ++ x :: rest) (hx : i ≤ sl.height x)
    (hpre : pre.length ≤ as.length) :
    sl.rankFrom score member i x (pre.length : UInt64) = .ok (as.length : UInt64) := by
  have hke : keyOf key e = keyOf key (score, member) :=
    (keyEqual_iff hk member (h.ok e (by simp))).1 hq
  have hscore : ok score := hk.ok_of_key_eq _ _ (h.ok e (by simp)) (keyOf_eq_iff.1 hke).1
  -- A pair passes the test of the walks if and only if its position is at most that of `e`.
  have htest : ∀ as' e' bs' y, as ++ e :: bs = as' ++ e' :: bs' → sl.entry y = some e' →
      (sl.test (fun n => Score.lt n.score score ||
        (Score.eq n.score score && decide (n.member ≤ member))) y = true ↔
        as'.length ≤ as.length) := by
    intro as' e' bs' y hsplit hy
    have hok : ok e'.1 := h.ok e' (by rw [hsplit]; simp)
    rw [test_of_entry hy fun s m => Score.lt s score || (Score.eq s score && decide (m ≤ member)),
      rankTest_iff hk member hok hscore, ← hke, h.le_iff hsplit]
  induction i generalizing pre x rest with
  | zero => omega
  | succ i ih =>
    have hlen : rest.length < sl.length + 1 := by
      have := congrArg List.length hl
      simp only [length_cons, length_append] at this
      rw [hs.length]
      omega
    obtain ⟨mid, y, rest', hr, hy, hw, hpass, hstop⟩ := walk_spec hs (fun n =>
      Score.lt n.score score || (Score.eq n.score score && decide (n.member ≤ member)))
      (sl.length + 1) pre x rest (pre.length : UInt64) hl hx hlen
    have hl' : sl.header :: ps = (pre ++ mid) ++ y :: rest' := by rw [hl, hr]; simp
    have hposy : (pre ++ mid).length ≤ as.length + 1 := by
      cases mid with
      | nil => rw [append_nil]; omega
      | cons z mid =>
        obtain ⟨as', e', bs', hsplit, hey, hlen'⟩ := entry_at he hl' (by simp)
        have := (htest as' e' bs' y hsplit hey).1 (hpass y (by simp) hy)
        omega
    -- A walk at level 0 goes on to the node of `e`.
    have hzero : i = 0 → as.length < (pre ++ mid).length := by
      rintro rfl
      by_contra hbefore
      rw [not_lt] at hbefore
      cases rest' with
      | nil =>
        have h1 := congrArg List.length hl'
        have h2 := congrArg List.length he
        simp only [length_cons, length_append, length_map, length_nil]
          at h1 h2 hbefore
        omega
      | cons q rest' =>
        have hlq : sl.header :: ps = (pre ++ mid ++ [y]) ++ q :: rest' := by rw [hl']; simp
        obtain ⟨as', e', bs', hsplit, heq, hlen'⟩ := entry_at he hlq (by simp)
        have hfalse := hstop [] q rest' rfl (by simp) (hs.pos_of_mem (p := q) (by rw [hlq]; simp))
        have htrue := (htest as' e' bs' q hsplit heq).2 (by
          rw [length_append, length_singleton] at hlen'
          omega)
        rw [hfalse] at htrue
        exact absurd htrue (by simp)
    unfold rankFrom
    simp only [hw, ok_bind]
    rw [← Nat.cast_add, ← length_append]
    by_cases hhead : y = sl.header
    · have hnil := (hs.eq_header_iff hl').1 hhead
      rw [hnil] at hzero
      have hipos : 0 < i := Nat.pos_of_ne_zero fun hc => absurd (hzero hc) (by simp)
      rw [if_pos hhead, ih hipos (pre ++ mid) y rest' hl' (by omega) (by rw [hnil]; simp)]
    · obtain ⟨as', e', bs', hsplit, hey, hlen'⟩ :=
        entry_at he hl' (fun hc => hhead ((hs.eq_header_iff hl').2 hc))
      obtain ⟨n, hn, hn1, hn2⟩ := deref_of_entry hey
      have hok : ok e'.1 := h.ok e' (by rw [hsplit]; simp)
      rw [if_neg hhead, deref_eq_ok hn, ok_bind, hn1, hn2]
      by_cases hq' : keyEqual e'.1 e'.2 score member = true
      · -- The walk ended on the node of `e`.
        rw [keyEqual_iff hk member hok, ← hke] at hq'
        have h1 := (h.le_iff hsplit).1 hq'.le
        have h2 : as.length ≤ as'.length :=
          (Represents.le_iff (hsplit ▸ h) hsplit.symm).1 hq'.ge
        have hpos : (pre ++ mid).length = as.length + 1 := by omega
        rw [if_pos ((keyEqual_iff hk member hok).2 (by rw [hq', hke])), hpos]
        congr 1
        push_cast
        abel
      · -- It ended before it.
        have hbefore : (pre ++ mid).length ≤ as.length := by
          by_contra hc
          obtain ⟨-, hrest⟩ := append_inj hsplit (by omega)
          obtain ⟨rfl, -⟩ := List.cons.inj hrest
          exact hq' hq
        have hipos : 0 < i := Nat.pos_of_ne_zero fun hc => by
          have := hzero hc
          omega
        rw [if_neg hq', ih hipos (pre ++ mid) y rest' hl' (by omega) hbefore]

/-- A pair that is not there has no rank in either direction. -/
theorem rank_of_absent (h : Holds sl es)
    (habs : ∀ e ∈ es, keyEqual e.1 e.2 score member = false) :
    sl.rank score member = .ok sizeMax ∧ sl.revRank score member = .ok sizeMax := by
  obtain ⟨ps, hs, he⟩ := h
  have hr : sl.rank score member = .ok sizeMax :=
    rankFrom_absent hs he habs sl.level [] sl.header ps rfl
      (by rw [hs.header_height]; exact hs.level_le)
  refine ⟨hr, ?_⟩
  unfold revRank
  rw [hr, ok_bind, if_pos rfl]

/-- The rank of a pair is the number of the pairs before it. -/
theorem rank_of_present (hk : OrderedBy key ok) (h : Represents key ok sl (as ++ e :: bs))
    (hq : keyEqual e.1 e.2 score member = true) :
    ∃ r r', sl.rank score member = .ok r ∧ r.toNat = as.length ∧
      sl.revRank score member = .ok r' ∧ r'.toNat = sl.length - 1 - as.length := by
  obtain ⟨ps, hs, he⟩ := h.holds
  have hlen := h.holds.length
  have hmax := h.holds.length_le
  rw [length_append, length_cons] at hlen hmax
  unfold maxNodes at hmax
  have hr : sl.rank score member = .ok (UInt64.ofNat as.length) :=
    rankFrom_present hk h hs he hq sl.level hs.level_pos [] sl.header ps rfl
      (by rw [hs.header_height]; exact hs.level_le) (by simp)
  have hrank : (UInt64.ofNat as.length).toNat = as.length :=
    UInt64.toNat_ofNat_of_lt' (by rw [UInt64.size]; omega)
  have hlength : (UInt64.ofNat sl.length).toNat = sl.length :=
    UInt64.toNat_ofNat_of_lt' (by rw [UInt64.size]; omega)
  have hmax' : UInt64.ofNat as.length ≠ sizeMax := by
    intro hc
    have hsize : sizeMax.toNat = 2^64 - 1 := by decide
    rw [← hc, hrank] at hsize
    omega
  have hle : ¬UInt64.ofNat sl.length ≤ UInt64.ofNat as.length := by
    rw [UInt64.le_iff_toNat_le, hrank, hlength]
    omega
  refine ⟨_, UInt64.ofNat sl.length - 1 - UInt64.ofNat as.length, hr, hrank, ?_, ?_⟩
  · unfold revRank
    rw [hr, ok_bind, if_neg hmax', if_neg hle]
  · have hone : (1 : UInt64) ≤ UInt64.ofNat sl.length := by
      rw [UInt64.le_iff_toNat_le, hlength]
      show 1 ≤ sl.length
      omega
    have hsub : (UInt64.ofNat sl.length - 1).toNat = sl.length - 1 := by
      rw [UInt64.toNat_sub_of_le _ _ hone, hlength]
      rfl
    rw [UInt64.toNat_sub_of_le _ _ (by rw [UInt64.le_iff_toNat_le, hrank, hsub]; omega), hrank,
      hsub]

/-- Spans and ranks in every run from the empty list: a span is the difference of the positions of
the nodes it connects, `Rank` is the index of a pair that is there, `RevRank` its index from the
end, and both are `SIZE_MAX` for a pair that is not. -/
theorem rank_exact (hk : OrderedBy key ok) (ops : List (Op σ)) (hops : ∀ op ∈ ops, op.Valid ok)
    (outs : List (Out (σ × Bytes))) (sl : SkipList σ) (hrun : run ops empty = .ok (outs, sl)) :
    ∃ ps, sl.Path 0 sl.header ps ∧ (sl.header :: ps).Nodup ∧
      (∀ a i p q s, (sl.header :: ps)[a]? = some p → sl.link p i = .ok ⟨some q, s⟩ →
        ∃ b, (sl.header :: ps)[b]? = some q ∧ a < b ∧ s.toNat = b - a) ∧
      ∀ score member,
        (∀ j e, (sl.pairs ps)[j]? = some e → keyEqual e.1 e.2 score member = true →
          ∃ r r', sl.rank score member = .ok r ∧ r.toNat = j ∧
            sl.revRank score member = .ok r' ∧ r'.toNat = sl.length - 1 - j) ∧
        ((∀ e ∈ sl.pairs ps, keyEqual e.1 e.2 score member = false) →
          sl.rank score member = .ok sizeMax ∧ sl.revRank score member = .ok sizeMax) := by
  rcases run_refines hk ops hops represents_empty with
    ⟨outs', sl', es, hr, hrep, -⟩ | ⟨hr, -⟩
  · rw [hrun, Except.ok.injEq, Prod.mk.injEq] at hr
    obtain ⟨-, rfl⟩ := hr
    obtain ⟨ps, hs, he⟩ := hrep.holds
    have hpairs := pairs_eq he
    refine ⟨ps, hs.path_zero, hs.nodup, fun a i p q s ha hl => hs.span_toNat ha hl,
      fun score member => ⟨fun j e hj hq => ?_, fun habs => ?_⟩⟩
    · rw [hpairs] at hj
      obtain ⟨hlt, hget⟩ := List.getElem?_eq_some_iff.1 hj
      have hsplit : es = es.take j ++ e :: es.drop (j + 1) := by
        rw [← hget, ← List.drop_eq_getElem_cons, List.take_append_drop]
      have hlen : (es.take j).length = j := by
        rw [length_take]
        omega
      have := rank_of_present hk (hsplit ▸ hrep) hq
      rwa [hlen] at this
    · rw [hpairs] at habs
      exact rank_of_absent hrep.holds habs
  · rw [hrun] at hr
    exact absurd hr (by simp)

/-- A run with the scores 1 and 2. -/
theorem rank_exact_double :
    ∃ outs sl ps,
      run [.insert 1 (⟨0x3FF0000000000000⟩ : Double) (bytes "a"),
        .insert 3 ⟨0x4000000000000000⟩ (bytes "b")] empty = .ok (outs, sl) ∧
      sl.Path 0 sl.header ps ∧
      ∀ a i p q s, (sl.header :: ps)[a]? = some p → sl.link p i = .ok ⟨some q, s⟩ →
        ∃ b, (sl.header :: ps)[b]? = some q ∧ a < b ∧ s.toNat = b - a := by
  obtain ⟨outs, sl, hrun⟩ : ∃ outs sl,
      run [.insert 1 (⟨0x3FF0000000000000⟩ : Double) (bytes "a"),
        .insert 3 ⟨0x4000000000000000⟩ (bytes "b")] empty = .ok (outs, sl) := ⟨_, _, rfl⟩
  obtain ⟨ps, hpath, -, hspan, -⟩ := rank_exact Double.orderedBy _
    (by decide) outs sl hrun
  exact ⟨outs, sl, ps, hrun, hpath, hspan⟩

/-- NaN is not in the order of the list: once it is in front, the descent for the score 1 stops
before it, and the pair behind it has no rank. -/
theorem rank_behind_nan :
    ∃ outs sl,
      run [.insert 1 (⟨0x3FF0000000000000⟩ : Double) (bytes "a"),
        .insert 1 ⟨0x7FF8000000000000⟩ (bytes "b")] empty = .ok (outs, sl) ∧
      sl.Path 0 sl.header [2, 1] ∧
      sl.pairs [2, 1] = [(⟨0x7FF8000000000000⟩, bytes "b"), (⟨0x3FF0000000000000⟩, bytes "a")] ∧
      sl.rank ⟨0x3FF0000000000000⟩ (bytes "a") = .ok sizeMax :=
  ⟨_, _, rfl, ⟨⟨_, rfl⟩, ⟨_, rfl⟩, ⟨_, rfl⟩⟩, rfl, rfl⟩

end TinyRedis.SkipList

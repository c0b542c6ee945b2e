import TinyRedis.Commands.SortedSets

/-!
# Bounds and limits of score ranges

`ZREVRANGEBYSCORE` counts from the end of what it has selected, and a negative offset takes it past
this end. The ascending command does not mind.

A bound may be NaN, as `strtod` reads the text `nan`. No score is above or below it, so the loops,
which pass over the scores that are, take all.
-/

namespace TinyRedis.Commands

open Lib Lib.Window Resp SkipList List

variable {env : Env} {argv : Args} {tx : Tx} {w : World} {key a b : Bytes} {e : Entry}
  {z : ZSetValue} {es : List (Double × Bytes)} {o : ScoreOptions} {c : Cmd} {r : ScoreRange Double}
  {w' : World} {v : List (Double × Bytes)}

/-! ## Negative offsets -/

/-- A negative offset takes the descending range past its end. -/
theorem zrangeByScoreWith_outside (hkey : argv[1]? = some key) (hmin : argv[3]? = some a)
    (hmax : argv[2]? = some b) (hfinds : Finds env zsetKind key e z w) (hes : Holds z.sl es)
    (ho : HasOptions argv o) (hr : rangeOf env a b = some r)
    (hout : ¬(0 ≤ o.offset ∨ o.count = 0)) :
    ∃ g, zrangeByScoreWith env argv true w = .error (.skipList g) := by
  obtain ⟨g, hg⟩ : ∃ g, z.sl.rangeByScore r true o.offset o.count = .error g := by
    rw [rangeByScore_rev hes, if_neg fun hin => hout hin.symm]
    split_ifs
    · exact ⟨_, rfl⟩
    · exact ⟨_, rfl⟩
  rw [zrangeByScoreWith_found true hkey hmin hmax hfinds ho, hr]
  exact ⟨g, liftSkipList_error_bind hg _ _⟩

/-- `ZREVRANGEBYSCORE` stays within what it has selected, and within 64 bits, if and only if the
offset is not negative, or nothing is asked for. -/
theorem zrevrangebyscore_inside_iff (h : accepts .zrevrangebyscore argv = true)
    (htx : tx.inMulti = false) (depth : ℕ) (hkey : argv[1]? = some key) (hmax : argv[2]? = some b)
    (hmin : argv[3]? = some a) (hfinds : Finds env zsetKind key e z w) (hes : Holds z.sl es)
    (ho : HasOptions argv o) :
    ((∃ w', dispatch env (depth + 1) argv tx w = .ok (((), tx), w')) ↔
      (rangeOf env a b = none ∨ 0 ≤ o.offset ∨ o.count = 0)) ∧
    ∀ r, rangeOf env a b = some r → 0 ≤ o.offset ∨ o.count = 0 →
      ∃ w', dispatch env (depth + 1) argv tx w = .ok (((), tx), w') ∧
        w'.out = w.out ++ (scoredReply env o.withScores
          (page o.offset o.count (es.filter (selects r)).reverse)).encode := by
  have hdispatch : dispatch env (depth + 1) argv tx w =
      (zrangeByScoreWith env argv true w >>= fun p => .ok (((), tx), p.2)) :=
    Enters.dispatch_eq (.mk h htx (gated_of_read rfl) rfl) depth
  have hinside : ∀ r, rangeOf env a b = some r → 0 ≤ o.offset ∨ o.count = 0 →
      ∃ w', dispatch env (depth + 1) argv tx w = .ok (((), tx), w') ∧
        w'.out = w.out ++ (scoredReply env o.withScores
          (page o.offset o.count (es.filter (selects r)).reverse)).encode := by
    intro r hr hin
    have hv := rangeByScore_rev hes r o.offset o.count
    rw [if_pos hin.symm] at hv
    rw [hdispatch, zrangeByScoreWith_run true hkey hmin hmax hfinds ho hr hv]
    exact ⟨_, rfl, rfl⟩
  refine ⟨⟨fun ⟨w', hw'⟩ => ?_, fun hcond => ?_⟩, hinside⟩
  · -- A call that returns has not met the fault of the skip list.
    rw [or_iff_not_imp_left]
    intro hr
    obtain ⟨r, hr⟩ := Option.ne_none_iff_exists'.1 hr
    by_contra hout
    obtain ⟨g, hg⟩ := zrangeByScoreWith_outside hkey hmin hmax hfinds hes ho hr hout
    rw [hdispatch, hg] at hw'
    cases hw'
  · cases hr : rangeOf env a b with
    | none =>
      rw [hdispatch, zrangeByScoreWith_found true hkey hmin hmax hfinds ho, hr]
      exact ⟨_, rfl⟩
    | some r =>
      obtain ⟨w', hw', -⟩ := hinside r hr (hcond.resolve_left (by rw [hr]; exact nofun))
      exact ⟨w', hw'⟩

/-- `LIMIT 1 1`, which takes the middle one of three members. -/
theorem zrevrangebyscore_inside_iff_limit : ∃ z : ZSetValue, ∃ w',
    z.IndexedBy threePairs ∧
    dispatch stillEnv 2 [bytes "ZREVRANGEBYSCORE", bytes "k", bytes "+inf", bytes "-inf",
      bytes "LIMIT", bytes "1", bytes "1"] .idle (worldWith (.zset z)) = .ok (((), .idle), w') ∧
    w'.out = (worldWith (.zset z)).out ++ (scoredReply stillEnv false
      [(⟨0x3FF0000000000000⟩, bytes "b")]).encode := by
  obtain ⟨z, hz⟩ := exists_threePairs
  have haccepts : accepts .zrevrangebyscore [bytes "ZREVRANGEBYSCORE", bytes "k", bytes "+inf",
      bytes "-inf", bytes "LIMIT", bytes "1", bytes "1"] = true := by decide +kernel
  have hidle : Tx.inMulti .idle = false := rfl
  have hinside := (zrevrangebyscore_inside_iff (o := ⟨false, 1, 1⟩) haccepts hidle 1 rfl rfl rfl
    (finds_worldWith stillEnv zsetKind z) hz.represents.holds fun w => ⟨7, rfl⟩).2
  obtain ⟨w', hw', hout⟩ := hinside _ rfl (.inl (by decide))
  exact ⟨z, w', hz, hw', hout⟩

/-- `LIMIT -1 1`, on a set with one member: the window ends after the last pair. -/
theorem zrevrangebyscore_outside : ∃ z : ZSetValue, z.IndexedBy [(⟨0⟩, bytes "a")] ∧
    dispatch stillEnv 2 [bytes "ZREVRANGEBYSCORE", bytes "k", bytes "+inf", bytes "-inf",
      bytes "LIMIT", bytes "-1", bytes "1"] .idle (worldWith (.zset z)) =
        .error (.skipList .outOfRange) := by
  obtain ⟨z, hz⟩ := exists_scored
  refine ⟨z, hz, ?_⟩
  have hout : z.sl.rangeByScore ⟨Double.negHugeVal, Double.hugeVal, false, false⟩ true (-1) 1 =
      .error .outOfRange := by
    rw [rangeByScore_rev hz.represents.holds]
    decide
  have haccepts : accepts .zrevrangebyscore [bytes "ZREVRANGEBYSCORE", bytes "k", bytes "+inf",
      bytes "-inf", bytes "LIMIT", bytes "-1", bytes "1"] = true := by decide +kernel
  have hoptions : HasOptions [bytes "ZREVRANGEBYSCORE", bytes "k", bytes "+inf", bytes "-inf",
      bytes "LIMIT", bytes "-1", bytes "1"] ⟨false, -1, 1⟩ := fun w => ⟨7, rfl⟩
  have hrun := zrangeByScoreWith_found true rfl rfl rfl (finds_worldWith stillEnv zsetKind z)
    hoptions
  rw [Enters.dispatch_eq (.mk haccepts rfl rfl rfl)]
  refine (congrArg (· >>= _) (hrun.trans ?_)).trans (error_bind _ _)
  exact liftSkipList_error_bind hout _ _

/-! ## Bounds that do not compare -/

/-- The commands that take bounds of scores. -/
def scoreCommands : List Cmd := [.zcount, .zrangebyscore, .zrevrangebyscore, .zremrangebyscore]

/-- The argument that is the minimum. -/
def minAt : Cmd → ℕ
  | .zrevrangebyscore => 3
  | _ => 2

/-- The argument that is the maximum. -/
def maxAt : Cmd → ℕ
  | .zrevrangebyscore => 2
  | _ => 3

/-- Neither bound is NaN. -/
def Compares (r : ScoreRange Double) : Prop := r.min.isNaN = false ∧ r.max.isNaN = false

/-- The pairs of a set that the loops do not pass over, as far as a command asks for them. -/
def unpassed (c : Cmd) (o : ScoreOptions) (r : ScoreRange Double) (es : List (Double × Bytes)) :
    List (Double × Bytes) :=
  match c with
  | .zrangebyscore => page o.offset o.count (es.filter (selects r))
  | .zrevrangebyscore => page o.offset o.count (es.filter (selects r)).reverse
  | _ => es.filter (selects r)

/-- The pairs `v` of a set with the pairs `es` are what a call counts, or returns, or removes. -/
def Takes (env : Env) (c : Cmd) (o : ScoreOptions) (key : Bytes) (e : Entry)
    (es v : List (Double × Bytes)) (w w' : World) : Prop :=
  match c with
  | .zcount => w'.out = w.out ++ (Reply.int v.length).encode
  | .zremrangebyscore => w'.out = w.out ++ (Reply.int v.length).encode ∧
      HasPairs key e (es.diff v) w'
  | _ => w'.out = w.out ++ (scoredReply env o.withScores v).encode

/-- What the command leaves out is among the pairs. -/
theorem unpassed_subperm (c : Cmd) (o : ScoreOptions) (r : ScoreRange Double)
    (es : List (Double × Bytes)) : (unpassed c o r es).Subperm es := by
  have hfilter : (es.filter (selects r)).Subperm es := filter_sublist.subperm
  unfold unpassed
  split
  · exact (page_sublist _ _ _).subperm.trans hfilter
  · exact (page_sublist _ _ _).subperm.trans ((reverse_perm _).subperm.trans hfilter)
  · exact hfilter

/-- If the scores compare, only pairs in the range are not passed over. -/
theorem inRange_of_unpassed (hr : Compares r) (hes : z.IndexedBy es) {p : Double × Bytes}
    (hp : p ∈ unpassed c o r es) : inRange r p.1 = true := by
  have hselects : p ∈ es.filter (selects r) := by
    unfold unpassed at hp
    split at hp
    · exact (page_sublist _ _ _).subset hp
    · exact mem_reverse.1 ((page_sublist _ _ _).subset hp)
    · exact hp
  obtain ⟨hmem, hsel⟩ := mem_filter.1 hselects
  rw [← selects_eq_inRange Double.orderedBy hr.1 hr.2 (hes.represents.ok p hmem)]
  exact hsel

/-- A call takes what is not passed over. -/
theorem handler_takes (hc : c ∈ scoreCommands) (hkey : argv[1]? = some key)
    (hmin : argv[minAt c]? = some a) (hmax : argv[maxAt c]? = some b)
    (hfinds : Finds env zsetKind key e z w) (hes : z.IndexedBy es) (ho : HasOptions argv o)
    (hr : rangeOf env a b = some r) (hin : c = .zrevrangebyscore → 0 ≤ o.offset ∨ o.count = 0)
    (lower : Bytes) :
    ∃ w', handler env lower argv c w = .ok ((), w') ∧
      Takes env c o key e es (unpassed c o r es) w w' := by
  have hrange := rangeByScore_eq Double.orderedBy hes.represents r
  simp only [scoreCommands, mem_cons, not_mem_nil, or_false] at hc
  rcases hc with rfl | rfl | rfl | rfl
  · exact ⟨_, zcount_run hkey hmin hmax hfinds hes hr, rfl⟩
  · exact ⟨_, zrangeByScoreWith_run false hkey hmin hmax hfinds ho hr (hrange _ _), rfl⟩
  · have hrev := rangeByScore_rev hes.represents.holds r o.offset o.count
    rw [if_pos (hin rfl).symm] at hrev
    exact ⟨_, zrangeByScoreWith_run true hkey hmin hmax hfinds ho hr hrev, rfl⟩
  · exact zremrangebyscore_run hkey hmin hmax hfinds hes hr

/-- A bound that is no number is an error, and nothing changes. -/
theorem handler_errBound (hc : c ∈ scoreCommands) (hkey : argv[1]? = some key)
    (hmin : argv[minAt c]? = some a) (hmax : argv[maxAt c]? = some b)
    (hfinds : Finds env zsetKind key e z w) (ho : HasOptions argv o) (hr : rangeOf env a b = none)
    (lower : Bytes) : handler env lower argv c w = errBound { w with tick := w.tick + 1 } := by
  rw [← hfinds.afterLookup_eq]
  simp only [scoreCommands, mem_cons, not_mem_nil, or_false] at hc
  rcases hc with rfl | rfl | rfl | rfl
  · refine (zcount_found hkey hmin hmax hfinds).trans ?_
    rw [hr]
  · refine (zrangeByScoreWith_found false hkey hmin hmax hfinds ho).trans ?_
    rw [hr]
  · refine (zrangeByScoreWith_found true hkey hmin hmax hfinds ho).trans ?_
    rw [hr]
  · refine (zremrangebyscore_found hkey hmin hmax hfinds).trans ?_
    rw [hr]

/-- If the reply to what was taken is that to nothing, then nothing was taken. -/
theorem Takes.eq_nil (hc : c ∈ scoreCommands) (h : Takes env c o key e es v w w')
    (hnil : Takes env c o key e es [] w w') : v = [] := by
  have hint : w'.out = w.out ++ (Reply.int v.length).encode →
      w'.out = w.out ++ (Reply.int 0).encode → v = [] := fun hv h0 =>
    eq_nil_of_length_eq_zero (Int.natCast_eq_zero.1
      (Reply.int.inj (replied_inj trivial trivial hv h0)))
  have hpairs : w'.out = w.out ++ (scoredReply env o.withScores v).encode →
      w'.out = w.out ++ (scoredReply env o.withScores []).encode → v = [] := fun hv h0 =>
    eq_nil_of_scoredReply
      (replied_inj (wellFormed_scoredReply _ _) (wellFormed_scoredReply _ _) hv h0)
  simp only [scoreCommands, mem_cons, not_mem_nil, or_false] at hc
  rcases hc with rfl | rfl | rfl | rfl
  · exact hint h hnil
  · exact hpairs h hnil
  · exact hpairs h hnil
  · exact hint h.1 hnil.1

/-- What is taken is no error. -/
theorem Takes.ne_error (hc : c ∈ scoreCommands) (h : Takes env c o key e es v w w') (s : Bytes) :
    w'.out ≠ w.out ++ 45 :: s := by
  have hne : ∀ u : Reply, u.isError = false → w'.out = w.out ++ u.encode →
      w'.out ≠ w.out ++ 45 :: s := fun u hu hout herr =>
    Reply.encode_ne_error hu s (append_cancel_left (hout.symm.trans herr))
  simp only [scoreCommands, mem_cons, not_mem_nil, or_false] at hc
  rcases hc with rfl | rfl | rfl | rfl
  · exact hne _ rfl h
  · exact hne _ rfl h
  · exact hne _ rfl h
  · exact hne _ rfl h.1

/-- The call replies an error, and nothing has changed, or it takes only pairs whose scores are in
the range of its bounds. -/
def StaysInRange (env : Env) (c : Cmd) (o : ScoreOptions) (key a b : Bytes) (e : Entry)
    (es : List (Double × Bytes)) (w w' : World) : Prop :=
  ((∃ s, w'.out = w.out ++ 45 :: s) ∧ Undisturbed env w.tick w'.tick w.db w'.db) ∨
    ∃ r v, rangeOf env a b = some r ∧ v.Subperm es ∧ (∀ p ∈ v, inRange r p.1 = true) ∧
      Takes env c o key e es v w w'

/-- An error that is replied without a write. -/
theorem staysInRange_of_error {s : Bytes} {n : ℕ} :
    StaysInRange env c o key a b e es w
      { w with tick := w.tick + n, out := appendErrorReply w.out s } :=
  .inl ⟨⟨s ++ crlf, by simp [appendErrorReply]⟩, .refl env _ _ w.db⟩

/-- A call that returns what it does not pass over stays in the range if and only if neither bound
is NaN, or that is nothing. -/
theorem Takes.staysInRange_iff (hc : c ∈ scoreCommands) (hes : z.IndexedBy es)
    (hr : rangeOf env a b = some r) (h : Takes env c o key e es (unpassed c o r es) w w') :
    StaysInRange env c o key a b e es w w' ↔ Compares r ∨ unpassed c o r es = [] := by
  refine ⟨fun hstays => or_iff_not_imp_left.2 fun hnan => ?_, fun hcond => .inr ?_⟩
  · rcases hstays with ⟨⟨s, hs⟩, -⟩ | ⟨r', v, hr', -, hall, hv⟩
    · exact absurd hs (h.ne_error hc s)
    · rw [hr] at hr'
      cases hr'
      -- No score is in a range with a bound that is NaN.
      have hnil : v = [] := eq_nil_iff_forall_not_mem.2 fun p hp => by
        have hnone := inRange_of_not_ok (a := p.1) Double.orderedBy hnan
        rw [hall p hp] at hnone
        cases hnone
      rw [hnil] at hv
      exact h.eq_nil hc hv
  · refine ⟨r, unpassed c o r es, hr, unpassed_subperm c o r es, fun p hp => ?_, h⟩
    rcases hcond with hcompares | hnil
    · exact inRange_of_unpassed hcompares hes hp
    · rw [hnil] at hp
      exact absurd hp not_mem_nil

/-- A command with bounds on the scores stays in the range if and only if it is refused, or a bound
is no number, or neither bound is NaN, or there is nothing that is not passed over; and the
descending one, if the offset is not negative. -/
theorem scoreCommand_staysInRange_iff {c : Cmd} (hc : c ∈ scoreCommands)
    (h : accepts c argv = true) (htx : tx.inMulti = false) (depth : ℕ) (hkey : argv[1]? = some key)
    (hmin : argv[minAt c]? = some a) (hmax : argv[maxAt c]? = some b)
    (hfinds : Finds env zsetKind key e z w) (hes : z.IndexedBy es) (ho : HasOptions argv o) :
    (∃ w', dispatch env (depth + 1) argv tx w = .ok (((), tx), w') ∧
      StaysInRange env c o key a b e es w w') ↔
    gated env c w = true ∨ ∀ r, rangeOf env a b = some r →
      (c = .zrevrangebyscore → 0 ≤ o.offset ∨ o.count = 0) ∧
      (Compares r ∨ unpassed c o r es = []) := by
  have hcontrol : isControl c = false := by
    simp only [scoreCommands, mem_cons, not_mem_nil, or_false] at hc
    rcases hc with rfl | rfl | rfl | rfl <;> rfl
  cases hg : gated env c w with
  | true =>
    rw [dispatch_of_gated h hcontrol htx hg]
    exact iff_of_true ⟨_, rfl, staysInRange_of_error (n := 0)⟩ (.inl rfl)
  | false =>
    rw [Enters.dispatch_eq (.mk h htx hg hcontrol)]
    cases hr : rangeOf env a b with
    | none =>
      rw [handler_errBound hc hkey hmin hmax hfinds ho hr]
      refine iff_of_true ⟨_, rfl, staysInRange_of_error (n := 1)⟩ (.inr fun r hr' => ?_)
      cases hr'
    | some r =>
      by_cases hin : c = .zrevrangebyscore → 0 ≤ o.offset ∨ o.count = 0
      · obtain ⟨w', hw', htakes⟩ :=
          handler_takes hc hkey hmin hmax hfinds hes ho hr hin (lowerName argv)
        have hiff := htakes.staysInRange_iff hc hes hr
        rw [hw']
        refine ⟨fun ⟨w₁, hw₁, hstays⟩ => .inr fun r' hr' => ?_, fun hcond => ⟨w', rfl, ?_⟩⟩
        · cases hr'
          cases hw₁
          exact ⟨hin, hiff.1 hstays⟩
        · exact hiff.2 (hcond.resolve_left Bool.false_ne_true r rfl).2
      · -- The call does not return.
        refine iff_of_false (fun ⟨w₁, hw₁, _⟩ => ?_) fun hcond =>
          hin (hcond.resolve_left Bool.false_ne_true r rfl).1
        obtain ⟨rfl, hout⟩ := Classical.not_imp.1 hin
        obtain ⟨g, hg⟩ :=
          zrangeByScoreWith_outside hkey hmin hmax hfinds hes.represents.holds ho hr hout
        have herr :
            handler env (lowerName argv) argv .zrevrangebyscore w = .error (.skipList g) := hg
        rw [herr] at hw₁
        cases hw₁

/-- `ZCOUNT k -inf 0`, which leaves two of three members out. -/
theorem scoreCommand_staysInRange_iff_zcount : ∃ z : ZSetValue, ∃ w',
    dispatch stillEnv 2 [bytes "ZCOUNT", bytes "k", bytes "-inf", bytes "0"] .idle
      (worldWith (.zset z)) = .ok (((), .idle), w') ∧
    StaysInRange stillEnv .zcount ⟨false, 0, -1⟩ (bytes "k") (bytes "-inf") (bytes "0")
      ⟨.zset z, 0⟩ threePairs (worldWith (.zset z)) w' := by
  obtain ⟨z, hz⟩ := exists_threePairs
  have haccepts :
      accepts .zcount [bytes "ZCOUNT", bytes "k", bytes "-inf", bytes "0"] = true := by
    decide +kernel
  have hidle : Tx.inMulti .idle = false := rfl
  have hiff := scoreCommand_staysInRange_iff (o := ⟨false, 0, -1⟩) (by decide) haccepts hidle 1 rfl
    rfl rfl (finds_worldWith stillEnv zsetKind z) hz fun w => ⟨4, rfl⟩
  obtain ⟨w', hw', hstays⟩ := hiff.2 (.inr fun r hr => by
    cases hr
    exact ⟨nofun, .inl ⟨rfl, rfl⟩⟩)
  exact ⟨z, w', hw', hstays⟩

/-- `ZREMRANGEBYSCORE k nan nan` removes a member, although no score is in the range. -/
theorem zremrangebyscore_nan :
    (∃ r, rangeOf nanEnv (bytes "nan") (bytes "nan") = some r ∧ ∀ d, inRange r d = false) ∧
    ∃ z : ZSetValue, z.IndexedBy [(⟨0⟩, bytes "a")] ∧ ∃ w',
      dispatch nanEnv 2 [bytes "ZREMRANGEBYSCORE", bytes "k", bytes "nan", bytes "nan"] .idle
        (worldWith (.zset z)) = .ok (((), .idle), w') ∧
      w'.out = (worldWith (.zset z)).out ++ (Reply.int 1).encode ∧
      HasPairs (bytes "k") ⟨.zset z, 0⟩ [] w' := by
  obtain ⟨z, hz⟩ := exists_scored
  have haccepts : accepts .zremrangebyscore [bytes "ZREMRANGEBYSCORE", bytes "k", bytes "nan",
      bytes "nan"] = true := by decide +kernel
  have hoptions : HasOptions [bytes "ZREMRANGEBYSCORE", bytes "k", bytes "nan", bytes "nan"]
      ⟨false, 0, -1⟩ := fun w => ⟨4, rfl⟩
  obtain ⟨w', hw', hout, hpairs⟩ := handler_takes (c := .zremrangebyscore) (by decide) rfl rfl rfl
    (finds_worldWith nanEnv zsetKind z) hz hoptions rfl nofun (lowerName _)
  exact ⟨⟨_, rfl, fun d => inRange_of_not_ok Double.orderedBy (by decide)⟩, z, hz, w',
    Enters.dispatch_ok (.mk haccepts rfl rfl rfl) 1 hw', hout, hpairs⟩

end TinyRedis.Commands

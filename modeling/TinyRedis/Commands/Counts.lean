import TinyRedis.Commands.ListMoves

/-!
# Counts

The second argument of `LREM` and `SRANDMEMBER` is any signed 64-bit number, and its sign says how
to count. `LREM` removes the occurrences that it says. Both commands negate a negative count, which
overflows for the least number, and for no other.
-/

namespace TinyRedis.Commands

open Lib Resp

variable {env : Env} {argv : Args} {tx : Tx} {c : Cmd} {w : World} {e : Entry} {l : List Bytes}
  {v key : Bytes} {count : ℤ} {s : Dict Bytes Unit}

/-! ## Negation -/

/-- Every negative count but the smallest integer can be negated. -/
theorem checked_neg (hmin : -2^63 < count) (hle : count < 0) : checked (-count) = pure (-count) :=
  if_pos ⟨by omega, by omega⟩

/-- The negation of the smallest integer overflows. -/
theorem checked_neg_min : checked (-(-2^63)) = fault .signedOverflow := if_neg (by decide)

/-! ## Removals -/

/-- What is left of a list without the occurrences that `count` says, and how many these are. -/
def removals (v : Bytes) (count : ℤ) (l : List Bytes) : List Bytes × ℕ :=
  if count = 0 then (l.filter (· ≠ v), l.count v)
  else if 0 < count then (removeFirst v count.toNat l, min count.toNat (l.count v))
  else (removeLast v (-count).toNat l, min (-count).toNat (l.count v))

/-- A count that can be negated removes as `removals` says. -/
theorem removeCount_of_fits (hmin : -2^63 < count) (v : Bytes) (l : List Bytes) :
    removeCount v count l = pure ((removals v count l).1, ((removals v count l).2 : ℤ)) := by
  rw [removeCount_eq]
  unfold removals
  split_ifs with hzero hpos
  · rfl
  · rfl
  · rw [checked_neg hmin (by omega), pure_bind]

/-- The smallest count overflows before anything is removed. -/
theorem removeCount_min (v : Bytes) (l : List Bytes) :
    removeCount v (-2^63) l = fault .signedOverflow := by
  rw [removeCount_eq, if_neg (by decide), if_neg (by decide), checked_neg_min]
  rfl

/-- A list loses `n` occurrences of a value: all of them if `count` is 0, and otherwise the first or
the last ones, as far as there are that many. All other elements stay in their order. -/
def Removes (v : Bytes) (count : ℤ) (l l' : List Bytes) (n : ℕ) : Prop :=
  if count = 0 then n = l.count v ∧ l' = l.filter (· ≠ v)
  else if 0 < count then n = min count.toNat (l.count v) ∧ RemovesFirst v n l l'
  else n = min (-count).toNat (l.count v) ∧ RemovesLast v n l l'

/-- The removals are those the count asks for. -/
theorem removes_removals (v : Bytes) (count : ℤ) (l : List Bytes) :
    Removes v count l (removals v count l).1 (removals v count l).2 := by
  unfold Removes removals
  split_ifs with hzero hpos
  · exact ⟨rfl, rfl⟩
  · exact ⟨rfl, removesFirst_removeFirst v _ l⟩
  · exact ⟨rfl, removesLast_removeLast v _ l⟩

/-- A removal from the tail is the mirror image of one from the head. -/
theorem removals_reverse (hneg : count < 0) (v : Bytes) (l : List Bytes) :
    removals v (-count) l.reverse = ((removals v count l).1.reverse, (removals v count l).2) := by
  unfold removals
  rw [if_neg (by omega), if_pos (by omega), if_neg (by omega), if_neg (by omega),
    List.count_reverse, removeLast, List.reverse_reverse]

/-- What is removed are occurrences of the value. -/
theorem Removes.le_count {l' : List Bytes} {n : ℕ} (h : Removes v count l l' n) :
    n ≤ l.count v ∧ l'.length + n = l.length := by
  unfold Removes at h
  split_ifs at h
  · obtain ⟨rfl, rfl⟩ := h
    exact ⟨le_rfl, length_filter_ne v l⟩
  · obtain ⟨rfl, hremoves⟩ := h
    exact ⟨Nat.min_le_right _ _, hremoves.length_eq⟩
  · obtain ⟨rfl, hremoves⟩ := h
    exact ⟨Nat.min_le_right _ _, hremoves.length_eq⟩

/-! ## `LREM` -/

section

variable (hargs : 3 < argv.length) (hcount : parseIntStrict (argv.getD 2 []) = some count)
include hargs hcount

/-- `LREM` on a list that is found. -/
theorem lrem_found (h : Finds env listKind (argv.getD 1 []) e l w) :
    lrem env argv w = (removeCount (argv.getD 3 []) count l >>= fun r =>
      store listKind (some (argv.getD 1 [])) r.1 >>= fun _ => replyInt r.2)
        { w with tick := w.tick + 1 } := by
  have hstores := h.stores
  rw [h.afterLookup_eq] at hstores
  unfold lrem
  rw [arg_bind (by omega), h.withTyped_eq, h.afterLookup_eq, arg_bind (by omega), hcount]
  dsimp only
  rw [hstores.deref_bind, arg_bind hargs]

/-- The world after `LREM`. -/
def afterLrem (argv : Args) (count : ℤ) (e : Entry) (l : List Bytes) (w : World) : World :=
  replied (.int (removals (argv.getD 3 []) count l).2) { w with
    db := w.db.assign w.cs.dbIndex (argv.getD 1 [])
      { e with value := .list (removals (argv.getD 3 []) count l).1 },
    tick := w.tick + 1 }

/-- `LREM` on a list, with a count that can be negated. -/
theorem lrem_of_fits (hmin : -2^63 < count) (h : Finds env listKind (argv.getD 1 []) e l w) :
    lrem env argv w = .ok ((), afterLrem argv count e l w) := by
  have hstores := h.stores
  rw [h.afterLookup_eq] at hstores
  rw [lrem_found hargs hcount h, removeCount_of_fits hmin, pure_bind, hstores.store_bind]
  exact replyInt_eq _ _

/-- `LREM` where no list is found. -/
theorem lrem_not_found (h : probe env .kList (argv.getD 1 []) w ≠ .found) :
    ∃ w', lrem env argv w = .ok ((), w') := by
  unfold lrem
  rw [arg_bind (by omega)]
  cases hprobe : probe env .kList (argv.getD 1 []) w with
  | found => exact absurd hprobe h
  | wrongType =>
    exact (withTyped_of_wrongType (k := listKind) hprobe _).imp fun _ h => h.1
  | missing =>
    rw [withTyped_of_missing (live_of_probe hprobe), arg_bind (by omega), hcount]
    exact ⟨_, replyInt_eq _ _⟩

end

/-- `LREM` removes the occurrences that its count says, all other elements stay in their order, and
it replies how many were removed. A removal from the tail is one from the head of the reversed
list. -/
theorem lrem_removes (hmem : env.opts.maxmemory = 0) (haccepts : accepts .lrem argv = true)
    (htx : tx.inMulti = false) (hcount : parseIntStrict (argv.getD 2 []) = some count)
    (hmin : -2^63 < count) (h : Finds env listKind (argv.getD 1 []) e l w) (depth : ℕ) :
    ∃ (l' : List Bytes) (n : ℕ) (w' : World), Answers env depth argv tx w (.int n) w' ∧
      w'.db = w.db.assign w.cs.dbIndex (argv.getD 1 []) { e with value := .list l' } ∧
      Removes (argv.getD 3 []) count l l' n ∧
      (count < 0 →
        removeCount (argv.getD 3 []) (-count) l.reverse = pure (l'.reverse, (n : ℤ))) := by
  have hargs : 4 ≤ argv.length := minArgs_le_of_accepts haccepts
  refine ⟨_, _, _, Enters.answers (.mk haccepts htx (gated_of_unlimited hmem) rfl) depth
    (lrem_of_fits hargs hcount hmin h) rfl, rfl, removes_removals _ count l, fun hneg => ?_⟩
  rw [removeCount_of_fits (by omega), removals_reverse hneg]

/-- `LREM k -1 a` on a list with two occurrences. -/
theorem lrem_removes_last : ∃ (l' : List Bytes) (n : ℕ) (w' : World), Answers stillEnv 0
    [bytes "LREM", bytes "k", bytes "-1", bytes "a"] .idle
      (worldWith (.list [bytes "a", bytes "b", bytes "a"])) (.int n) w' ∧
    Removes (bytes "a") (-1) [bytes "a", bytes "b", bytes "a"] l' n := by
  have haccepts : accepts .lrem [bytes "LREM", bytes "k", bytes "-1", bytes "a"] = true := by
    decide +kernel
  have hcount : parseIntStrict (bytes "-1") = some (-1) := by decide +kernel
  have hfinds := finds_worldWith stillEnv listKind [bytes "a", bytes "b", bytes "a"]
  have hidle : Tx.idle.inMulti = false := rfl
  obtain ⟨l', n, w', hanswers, -, hremoves, -⟩ :=
    lrem_removes rfl haccepts hidle hcount (by decide) hfinds 0
  exact ⟨l', n, w', hanswers, hremoves⟩

/-! ## `SRANDMEMBER` -/

/-- A program that meets no fault returns. -/
theorem exists_ok_of_runs {α : Type} {m : M α} (h : Runs (fun _ => True) (fun _ => False) m)
    (w : World) : ∃ a w', m w = .ok (a, w') := by
  have hout := h.triple.outcome (s := w) trivial
  cases hm : m w with
  | ok r => exact ⟨r.1, r.2, rfl⟩
  | error f =>
    rw [hm] at hout
    exact hout.elim

section

variable {I : Database → Prop}

/-- A draw from a set that is not empty. -/
theorem returns_randomMember (hs : s.entries.isEmpty = false) :
    Runs I (fun _ => False) (randomMember env s) := by
  have hiterate : Keeps I (fun _ => False) (iterate env s.toList)
      fun items => items.Perm s.toList :=
    keeps_tick.bind fun t _ => Safe.pure (env.order_perm t _)
  refine Safe.bind hiterate fun items hperm => ?_
  have hpos : 0 < items.length := by
    rw [hperm.length_eq]
    unfold Dict.toList
    rw [List.length_map]
    exact List.length_pos_iff.2 (List.isEmpty_eq_false_iff.1 hs)
  have hbelow : Keeps I (fun _ => False) (randomBelow env items.length)
      fun i => i < items.length :=
    keeps_tick.bind fun t _ => Safe.pure (Nat.mod_lt _ hpos)
  refine Safe.bind hbelow fun i hi => ?_
  rw [List.getElem?_eq_getElem hi]
  exact Safe.pure trivial

/-- Drawing from a set that is not empty returns. -/
theorem returns_randomMembers (hs : s.entries.isEmpty = false) (n : ℕ) :
    Runs I (fun _ => False) (randomMembers env s n) := by
  induction n with
  | zero => exact Safe.pure trivial
  | succ n ih =>
    exact Safe.bind (returns_randomMember hs) fun m _ =>
      Safe.bind ih fun rest _ => Safe.pure trivial

/-- A call whose count can be negated returns. -/
theorem returns_srandmemberBody (hs : s.entries.isEmpty = false) (hmin : -2^63 < count) :
    Runs I (fun _ => False) (srandmemberBody env argv count s) := by
  refine Safe.ite (fun _ => ?_) fun _ => Safe.ite (fun _ => ?_) fun hneg => ?_
  · exact Safe.bind (returns_randomMember hs) fun m _ => keeps_emit _
  · exact Safe.bind keeps_iterate fun items _ => Safe.bind keeps_iterate fun pool _ => keeps_emit _
  · rw [checked_neg hmin (by omega), pure_bind]
    exact Safe.bind (returns_randomMembers hs _) fun items _ => keeps_emit _

end

/-- `SRANDMEMBER` after its lookup, and with its count. -/
def drawMembers (env : Env) (argv : Args) (count : ℤ) (st : LookupResult) (p : Handle) : M Unit :=
  match st with
  | .found => do
    let s ← deref setKind p
    if s.entries.isEmpty then
      if count < 0 ∨ argv.length = 2 then replyNullBulk else replyEmptyArray
    else srandmemberBody env argv count s
  | _ => if count < 0 ∨ argv.length = 2 then replyNullBulk else replyEmptyArray

/-- The count is read if there are three arguments. -/
theorem srandmember_eq (hargs : 1 < argv.length)
    (hcount : parseIntStrict (argv.getD 2 []) = some count) :
    srandmember env argv = withTyped env setKind (argv.getD 1 [])
      (drawMembers env argv (if argv.length = 3 then count else -1)) := by
  unfold srandmember argIf
  rw [arg_bind hargs]
  by_cases hlen : argv.length = 3
  · rw [if_pos hlen, if_pos hlen, arg_eq (by omega)]
    simp only [pure_bind, hcount]
    rfl
  · rw [if_neg hlen, if_neg hlen]
    simp only [pure_bind]
    rfl

/-- `SRANDMEMBER` returns, if it has nothing to draw from or its count can be negated. -/
theorem drawMembers_ok {st : LookupResult} {p : Handle}
    (h : st = .found → ∃ key e s, p = some key ∧ Stores setKind key e s w ∧
      (s.entries.isEmpty = true ∨ -2^63 < count)) :
    ∃ w', drawMembers env argv count st p w = .ok ((), w') := by
  have hnone : ∀ w : World, ∃ w', (if count < 0 ∨ argv.length = 2 then replyNullBulk
      else replyEmptyArray) w = .ok ((), w') := by
    intro w
    split_ifs
    · exact ⟨_, replyNullBulk_eq w⟩
    · exact ⟨_, replyEmptyArray_eq w⟩
  unfold drawMembers
  cases st with
  | found =>
    obtain ⟨key, e, s, rfl, hstores, hs⟩ := h rfl
    dsimp only
    rw [hstores.deref_bind]
    by_cases hempty : s.entries.isEmpty = true
    · rw [if_pos hempty]
      exact hnone w
    · rw [if_neg hempty]
      have hmin := hs.resolve_left hempty
      obtain ⟨⟨⟩, w', hrun⟩ := exists_ok_of_runs
        (returns_srandmemberBody (Bool.eq_false_of_not_eq_true hempty) hmin) w
      exact ⟨w', hrun⟩
  | wrongType => exact hnone w
  | missing => exact hnone w

/-- The least count overflows, where there is something to draw from. -/
theorem drawMembers_min (hlen : argv.length = 3) (hs : s.entries.isEmpty = false)
    (h : Stores setKind key e s w) :
    drawMembers env argv (-2^63) .found (some key) w = .error .signedOverflow := by
  unfold drawMembers
  dsimp only
  rw [h.deref_bind, hs, if_neg Bool.false_ne_true]
  unfold srandmemberBody
  rw [if_neg (by omega), if_neg (by decide), checked_neg_min]
  rfl

/-! ## Both commands -/

/-- The command negates its count, if this is negative. -/
def negates (env : Env) (c : Cmd) (argv : Args) (w : World) : Bool :=
  match c with
  | .lrem => (typedAt env listKind (argv.getD 1 []) w).isSome
  | .srandmember => decide (argv.length = 3) &&
      (typedAt env setKind (argv.getD 1 []) w).any fun s => !s.entries.isEmpty
  | _ => false

/-- At most as many elements of a list are gone as match. -/
def RemovesMatching (key v : Bytes) (e : Entry) (l : List Bytes) (i : DbIndex) (db : Database) :
    Prop :=
  ∃ l' n, (db.table i).lookup key = some { e with value := .list l' } ∧ n ≤ l.count v ∧
    l'.length + n = l.length

/-- `hits.size() - want` is in range, for a number of hits and a count that is negative. -/
def WantInRange (hits : ℕ) (count : ℤ) : Prop :=
  0 ≤ (hits : ℤ) - min (hits : ℤ) (-count) ∧ (hits : ℤ) - min (hits : ℤ) (-count) ≤ hits

/-- The call returns, so that no number overflows and no iterator is out of range. `LREM` removes at
most as many elements as match, and its loop over the hits ends within them. -/
def CountSafe (env : Env) (depth : ℕ) (c : Cmd) (argv : Args) (tx : Tx) (count : ℤ) (w : World) :
    Prop :=
  ∃ tx' w', dispatch env (depth + 1) argv tx w = .ok (((), tx'), w') ∧
    (c = .lrem → ∀ e l, Finds env listKind (argv.getD 1 []) e l w →
      RemovesMatching (argv.getD 1 []) (argv.getD 3 []) e l w.cs.dbIndex w'.db ∧
        (count < 0 → WantInRange (hitsOf (argv.getD 3 []) l).length count))

/-- `LREM` returns unless it negates the smallest integer. -/
theorem lrem_ok_iff (hargs : 3 < argv.length)
    (hcount : parseIntStrict (argv.getD 2 []) = some count) :
    (∃ w', lrem env argv w = .ok ((), w')) ↔
      ¬(negates env .lrem argv w = true ∧ count = -2^63) := by
  rw [negates]
  by_cases hfound : probe env .kList (argv.getD 1 []) w = .found
  · obtain ⟨e, l, h⟩ := exists_finds (k := listKind) hfound
    rw [typedAt_eq_some.2 ⟨e, h⟩, Option.isSome_some, and_iff_right rfl]
    by_cases hmin : count = -2^63
    · subst hmin
      rw [lrem_found hargs hcount h, removeCount_min]
      exact iff_of_false nofun (not_not.2 rfl)
    · have hbounds := parseIntStrict_bounds hcount
      exact iff_of_true ⟨_, lrem_of_fits hargs hcount (by omega) h⟩ hmin
  · rw [typedAt_of_not_found (k := listKind) hfound]
    exact iff_of_true (lrem_not_found hargs hcount hfound) fun h => Bool.false_ne_true h.1

/-- `SRANDMEMBER` returns unless it negates the smallest integer. -/
theorem srandmember_ok_iff (hargs : 1 < argv.length)
    (hcount : parseIntStrict (argv.getD 2 []) = some count) :
    (∃ w', srandmember env argv w = .ok ((), w')) ↔
      ¬(negates env .srandmember argv w = true ∧ count = -2^63) := by
  have hbounds := parseIntStrict_bounds hcount
  rw [srandmember_eq hargs hcount, negates]
  cases hprobe : probe env .kSet (argv.getD 1 []) w with
  | wrongType =>
    rw [typedAt_of_not_found (k := setKind) (hprobe.trans_ne nofun), Option.any_none,
      Bool.and_false]
    exact iff_of_true ((withTyped_of_wrongType (k := setKind) hprobe _).imp fun _ h => h.1) fun h =>
      Bool.false_ne_true h.1
  | missing =>
    rw [typedAt_of_not_found (k := setKind) (hprobe.trans_ne nofun), Option.any_none,
      Bool.and_false, withTyped_of_missing (live_of_probe hprobe)]
    exact iff_of_true (drawMembers_ok nofun) fun h => Bool.false_ne_true h.1
  | found =>
    obtain ⟨e, s, h⟩ := exists_finds (k := setKind) hprobe
    rw [typedAt_eq_some.2 ⟨e, h⟩, Option.any_some, h.withTyped_eq]
    by_cases hneg : argv.length = 3 ∧ s.entries.isEmpty = false ∧ count = -2^63
    · obtain ⟨hlen, hs, rfl⟩ := hneg
      rw [if_pos hlen, drawMembers_min hlen hs h.stores, decide_eq_true hlen, hs]
      exact iff_of_false nofun (not_not.2 ⟨rfl, rfl⟩)
    · refine iff_of_true (drawMembers_ok fun _ => ⟨_, e, s, rfl, h.stores, ?_⟩) fun hcon => ?_
      · cases hs : s.entries.isEmpty with
        | true => exact .inl rfl
        | false =>
          refine .inr ?_
          split_ifs with hlen
          · have hne : count ≠ -2^63 := fun hmin => hneg ⟨hlen, hs, hmin⟩
            omega
          · decide
      · rw [Bool.and_eq_true, decide_eq_true_iff, Bool.not_eq_true'] at hcon
        exact hneg ⟨hcon.1.1, hcon.1.2, hcon.2⟩

/-- Nothing is removed. -/
theorem removesMatching_of_same (h : Finds env listKind key e l w) (v : Bytes) :
    RemovesMatching key v e l w.cs.dbIndex w.db := by
  have hvalue : .list l = e.value := listKind.put_of_get _ _ h.value
  refine ⟨l, 0, (lookup_of_live h.live).1.trans ?_, Nat.zero_le _, rfl⟩
  rw [hvalue]

/-- The arithmetic on the counts of `LREM` and `SRANDMEMBER` is safe, if and only if the count is
not the least number where it is negated: by `LREM` on a list that is found, and by `SRANDMEMBER` on
a set that has members. -/
theorem count_safe_iff (hcmd : commandOf argv = some c) (hc : c = .lrem ∨ c = .srandmember)
    (hcount : parseIntStrict (argv.getD 2 []) = some count) (depth : ℕ) :
    CountSafe env depth c argv tx count w ↔
      ¬(reaches env c argv tx w = true ∧ negates env c argv w = true ∧ count = -2^63) := by
  have hwant : ∀ n : ℕ, count < 0 → WantInRange n count := by
    intro n hneg
    unfold WantInRange
    omega
  have hcontrol : isControl c = false := by
    rcases hc with rfl | rfl <;> rfl
  cases hreaches : reaches env c argv tx w with
  | false =>
    obtain ⟨tx', w', hrun, hdb⟩ := dispatch_of_not_reaches hcmd hcontrol hreaches depth
    refine iff_of_true ⟨tx', w', hrun, fun _ e l h => ⟨?_, hwant _⟩⟩ fun h => Bool.false_ne_true h.1
    rw [hdb]
    exact removesMatching_of_same h _
  | true =>
    rw [and_iff_right rfl]
    have henters := enters_of_reaches hreaches hcontrol
    have hargs := minArgs_le_of_accepts henters.accepts
    rcases hc with rfl | rfl
    · have hok : (∃ w', lrem env argv w = .ok ((), w')) ↔ _ := lrem_ok_iff hargs hcount
      constructor
      · rintro ⟨tx', w', hrun, -⟩
        exact hok.1 ⟨w', henters.handler_ok hrun⟩
      · intro hneg
        obtain ⟨w', hrun⟩ := hok.2 hneg
        refine ⟨tx, w', henters.dispatch_ok depth hrun, fun _ e l h => ?_⟩
        refine ⟨?_, hwant _⟩
        -- Where a list is found, the count is not the least number.
        have hbounds := parseIntStrict_bounds hcount
        have hmin : count ≠ -2^63 := fun hmin => hneg ⟨by
          rw [negates, typedAt_eq_some.2 ⟨e, h⟩]
          rfl, hmin⟩
        cases hrun.symm.trans (lrem_of_fits hargs hcount (by omega) h)
        have hremoves := (removes_removals (argv.getD 3 []) count l).le_count
        exact ⟨_, _, (Database.lookup_assign _ _ _ _ _ _).trans (if_pos ⟨rfl, rfl⟩), hremoves⟩
    · have hok : (∃ w', srandmember env argv w = .ok ((), w')) ↔ _ :=
        srandmember_ok_iff hargs hcount
      constructor
      · rintro ⟨tx', w', hrun, -⟩
        exact hok.1 ⟨w', henters.handler_ok hrun⟩
      · intro hneg
        obtain ⟨w', hrun⟩ := hok.2 hneg
        exact ⟨tx, w', henters.dispatch_ok depth hrun, nofun⟩

/-- `LREM k -1 a` on a list. -/
theorem count_safe_iff_last :
    CountSafe stillEnv 0 .lrem [bytes "LREM", bytes "k", bytes "-1", bytes "a"] .idle (-1)
      (worldWith (.list [bytes "a", bytes "b"])) :=
  (count_safe_iff (by decide +kernel) (.inl rfl) (by decide +kernel) 0).2 fun h => by
    cases h.2.2

/-- `LREM k -9223372036854775808 a` on a list. -/
theorem lrem_overflows :
    dispatch stillEnv 1 [bytes "LREM", bytes "k", bytes "-9223372036854775808", bytes "a"] .idle
      (worldWith (.list [bytes "a", bytes "b"])) = .error .signedOverflow :=
  eq_error_of_errorOf (by decide +kernel)

end TinyRedis.Commands

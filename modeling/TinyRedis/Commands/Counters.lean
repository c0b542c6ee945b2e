import TinyRedis.Commands.OneEntry

/-!
# Counters

`INCR`, `DECR`, `INCRBY`, and `DECRBY` all go through `CmdIncrBy`, which reads the stored string as
a number, adds to it, and stores the sum as a string. Between two calls the number is only there as
text, so what a run of calls counts rests on `ParseIntStrict` reading back what `std::to_string`
writes (`parseIntStrict_printInt`).

A string that was just created is empty, and an empty string counts as zero, also if it was stored
by a client.
-/

namespace TinyRedis.Commands

open Lib Resp

variable {env : Env} {argv : Args} {tx : Tx} {c : Cmd} {w w' : World} {key s : Bytes} {e : Entry}
  {i : DbIndex} {d n : ℤ}

/-! ## Numbers in strings -/

/-- `ParseIntStrict` reads what `std::to_string` writes. -/
theorem parseIntStrict_printInt (h : -2^63 ≤ n) (h' : n < 2^63) :
    parseIntStrict (printInt n) = some n := by
  have hne : printInt n ≠ [] := by
    unfold printInt
    split_ifs
    · exact List.cons_ne_nil _ _
    · exact Decimal.print_ne_nil _
  unfold parseIntStrict
  rw [if_neg hne, strtoll_printInt h h']
  exact if_neg fun hrefused => hrefused.elim Bool.false_ne_true (· rfl)

/-- The number that `CmdIncrBy` finds in a string. -/
def current (s : Bytes) : Option ℤ := if s = [] then some 0 else parseIntStrict s

/-- A counter reads back what was printed. -/
theorem current_printInt (h : -2^63 ≤ n) (h' : n < 2^63) : current (printInt n) = some n := by
  have hparse := parseIntStrict_printInt h h'
  have hne : printInt n ≠ [] := by
    intro hnil
    rw [hnil] at hparse
    cases hparse
  rw [current, if_neg hne, hparse]

/-- The sum that is stored and replied, if there is a number in the string, and the sum is in
range. -/
def sumOf (s : Bytes) (d : ℤ) : Option ℤ :=
  (current s).bind fun n => if n + d < -2^63 ∨ 2^63 ≤ n + d then none else some (n + d)

/-- A number is a `long long`. -/
def InRange (n : ℤ) : Prop := -2^63 ≤ n ∧ n < 2^63

/-- The sum is there when the string is a number and the result is in range. -/
theorem sumOf_eq_some_iff :
    sumOf s d = some n ↔ ∃ m, current s = some m ∧ InRange (m + d) ∧ m + d = n := by
  unfold sumOf InRange
  rw [Option.bind_eq_some_iff]
  refine exists_congr fun m => and_congr_right fun _ => ?_
  split_ifs with hrange
  · exact ⟨nofun, fun h => absurd h.1 (by omega)⟩
  · rw [Option.some_inj]
    exact (and_iff_right (by omega)).symm

/-- The reply to a number that is not accepted. -/
def notInt : Reply := .error (bytes "ERR value is not an integer or out of range")

/-! ## `CmdIncrBy` -/

/-- `incrByInt` stores the sum and replies it. -/
theorem incrByInt_of_sum (h : Stores stringKind key e s w) (hsum : sumOf s d = some n) :
    incrByInt (some key) s d w = .ok ((), replied (.int n) { w with
      db := w.db.assign w.cs.dbIndex key { e with value := .rawString (printInt n) } }) := by
  obtain ⟨cur, hcur, hn⟩ := Option.bind_eq_some_iff.1 hsum
  unfold incrByInt
  rw [← current, hcur]
  dsimp only
  split_ifs at hn ⊢ with hrange
  cases hn
  rw [h.store_bind, replyInt_eq]
  rfl

/-- `incrByInt` replies an error when there is no sum. -/
theorem incrByInt_of_none (p : Handle) (hsum : sumOf s d = none) (w : World) :
    incrByInt p s d w = .ok ((), replied notInt w) := by
  unfold sumOf at hsum
  unfold incrByInt
  rw [← current]
  cases hcur : current s with
  | none => exact replyError_eq _ w
  | some cur =>
    rw [hcur, Option.bind_some] at hsum
    dsimp only
    split_ifs at hsum ⊢
    exact replyError_eq _ w

/-- The string is found or created, and then its number is added to. -/
theorem cmdIncrBy_eq (hkey : argv[1]? = some key) (h : Gets env stringKind [] key e s w) (d : ℤ) :
    ∃ w₁, Altered w key e w₁ ∧ cmdIncrBy env argv d false w = incrByInt (some key) s d w₁ := by
  obtain ⟨w₁, hw₁, haltered, -⟩ := h.findOrCreate_eq
  refine ⟨w₁, haltered, ?_⟩
  unfold cmdIncrBy getOrCreateString
  rw [arg_bind_some hkey, bind_apply, hw₁, ok_bind]
  dsimp only
  rw [(haltered.stores h.value).deref_bind]
  rfl

/-! ## The four commands -/

/-- The commands on counters. -/
def isCounter (c : Cmd) : Bool :=
  decide (c = .incr) || decide (c = .decr) || decide (c = .incrby) || decide (c = .decrby)

/-- What a call adds to its counter: `none` if `ParseIntStrict` does not accept its argument, or the
negation of this overflows. -/
def deltaOf (c : Cmd) (argv : Args) : Option ℤ :=
  match c with
  | .incr => some 1
  | .decr => some (-1)
  | .incrby => parseIntStrict (argv.getD 2 [])
  | .decrby => (parseIntStrict (argv.getD 2 [])).bind fun v => if 2^63 ≤ -v then none else some (-v)
  | _ => none

/-- A call of one of the commands on the counter under a key, outside a transaction. -/
structure CounterCall (i : DbIndex) (key : Bytes) (c : Cmd) (argv : Args) (tx : Tx) (w : World) :
    Prop where
  counter : isCounter c = true
  accepts : accepts c argv = true
  outside : tx.inMulti = false
  table : w.cs.dbIndex = i
  key : argv[1]? = some key

namespace CounterCall

/-- What is added is a `long long`. -/
theorem delta_bounds (hd : deltaOf c argv = some d) : InRange d := by
  unfold deltaOf at hd
  unfold InRange
  cases c with
  | incr =>
    cases hd
    omega
  | decr =>
    cases hd
    omega
  | incrby => exact parseIntStrict_bounds hd
  | decrby =>
    obtain ⟨v, hv, hneg⟩ := Option.bind_eq_some_iff.1 hd
    have hbounds := parseIntStrict_bounds hv
    split_ifs at hneg
    cases hneg
    omega
  | _ => cases hd

variable (h : CounterCall i key c argv tx w)

include h

/-- A counter command is queued in a transaction. -/
theorem control : isControl c = false := by
  have hc := h.counter
  cases c <;> first | rfl | cases hc

/-- A command that takes an increment has it. -/
theorem argument (hc : 3 ≤ minArgs c) : argv[2]? = some (argv.getD 2 []) :=
  argv_getElem? (hc.trans (minArgs_le_of_accepts h.accepts))

/-- A call whose argument is accepted goes on with `CmdIncrBy`. -/
theorem handler_eq (hd : deltaOf c argv = some d)
    (lower : Bytes) : ∃ argv', argv'[1]? = some key ∧
      handler env lower argv c = cmdIncrBy env argv' d false := by
  have hzero : argv[0]? = some (argv.getD 0 []) := by
    cases argv with
    | nil => cases h.key
    | cons name args => rfl
  obtain ⟨hc, hkey⟩ := And.intro h.counter h.key
  cases c with
  | incr =>
    cases hd
    refine ⟨[argv.getD 0 [], key, bytes "1"], rfl, ?_⟩
    show incr env argv = _
    unfold incr
    rw [arg_bind_some hzero, arg_bind_some hkey]
  | decr =>
    cases hd
    refine ⟨[argv.getD 0 [], key, bytes "-1"], rfl, ?_⟩
    show decr env argv = _
    unfold decr
    rw [arg_bind_some hzero, arg_bind_some hkey]
  | incrby =>
    refine ⟨argv, hkey, ?_⟩
    show incrby env argv = _
    rw [deltaOf] at hd
    unfold incrby
    rw [arg_bind_some (h.argument (by decide)), hd]
  | decrby =>
    refine ⟨argv, hkey, ?_⟩
    show decrby env argv = _
    rw [deltaOf] at hd
    obtain ⟨v, hv, hneg⟩ := Option.bind_eq_some_iff.1 hd
    unfold decrby
    rw [arg_bind_some (h.argument (by decide)), hv]
    dsimp only
    split_ifs at hneg ⊢
    cases hneg
    rfl
  | _ => cases hc

/-- A call whose argument is not accepted is an error, before the key is looked up. -/
theorem handler_refuses (hd : deltaOf c argv = none)
    (lower : Bytes) (w : World) :
    handler env lower argv c w = .ok ((), replied notInt w) := by
  have hc := h.counter
  cases c with
  | incr => cases hd
  | decr => cases hd
  | incrby =>
    show incrby env argv w = _
    rw [deltaOf] at hd
    unfold incrby
    rw [arg_bind_some (h.argument (by decide)), hd]
    exact replyError_eq _ w
  | decrby =>
    show decrby env argv w = _
    rw [deltaOf] at hd
    unfold decrby
    rw [arg_bind_some (h.argument (by decide))]
    cases hv : parseIntStrict (argv.getD 2 []) with
    | none => exact replyError_eq _ w
    | some v =>
      rw [hv, Option.bind_some] at hd
      dsimp only
      split_ifs at hd ⊢
      exact replyError_eq _ w
  | _ => cases hc

variable (hmem : env.opts.maxmemory = 0)

include hmem

/-- The call runs the handler. -/
theorem enters : Enters env c argv tx w :=
  .mk h.accepts h.outside (gated_of_unlimited hmem) h.control

/-- A call that finds or creates the string `s` replies the sum, and stores it. -/
theorem answers_of_sum (hd : deltaOf c argv = some d)
    (hgets : Gets env stringKind [] key e s w) (hsum : sumOf s d = some n) (depth : ℕ) :
    ∃ w₁, Altered w key { e with value := .rawString (printInt n) } w₁ ∧
      Answers env depth argv tx w (.int n) (replied (.int n) w₁) := by
  obtain ⟨argv', hkey, hhandler⟩ := h.handler_eq hd (lowerName argv)
  obtain ⟨w₁, haltered, hrun⟩ := cmdIncrBy_eq hkey hgets d
  rw [incrByInt_of_sum (haltered.stores hgets.value) hsum] at hrun
  have hassigned := haltered.assign { e with value := .rawString (printInt n) }
  refine ⟨_, hassigned, (h.enters hmem).answers depth ((congrFun hhandler w).trans hrun) ?_⟩
  exact congrArg (· ++ _) hassigned.out

/-- If there is no sum, the reply is an error, and the string is as it was found or created. -/
theorem answers_of_no_sum (hd : deltaOf c argv = some d)
    (hgets : Gets env stringKind [] key e s w) (hsum : sumOf s d = none) (depth : ℕ) :
    ∃ w₁, Altered w key e w₁ ∧ Answers env depth argv tx w notInt (replied notInt w₁) := by
  obtain ⟨argv', hkey, hhandler⟩ := h.handler_eq hd (lowerName argv)
  obtain ⟨w₁, haltered, hrun⟩ := cmdIncrBy_eq hkey hgets d
  rw [incrByInt_of_none _ hsum] at hrun
  refine ⟨w₁, haltered, (h.enters hmem).answers depth ((congrFun hhandler w).trans hrun) ?_⟩
  exact congrArg (· ++ _) haltered.out

end CounterCall

/-! ## A stored string -/

/-- The string is a number to `ParseIntStrict`, and its sum with the amount is in range. -/
def Addable (s : Bytes) (d : ℤ) : Prop := ∃ n, parseIntStrict s = some n ∧ InRange (n + d)

/-- A string that is not empty has a sum exactly if it is a number and the sum is in range. -/
theorem addable_iff (hne : s ≠ []) : Addable s d ↔ ∃ n, sumOf s d = some n := by
  have hcurrent : current s = parseIntStrict s := if_neg hne
  constructor
  · rintro ⟨m, hm, hrange⟩
    exact ⟨_, sumOf_eq_some_iff.2 ⟨m, hcurrent.trans hm, hrange, rfl⟩⟩
  · rintro ⟨n, hn⟩
    obtain ⟨m, hm, hrange, -⟩ := sumOf_eq_some_iff.1 hn
    exact ⟨m, hcurrent.symm.trans hm, hrange⟩

/-- A call on a string that is found replies an integer exactly if the string is a number to
`ParseIntStrict` and the sum is in range, and otherwise replies an error and leaves the string as it
is, if and only if the string is not empty. -/
theorem counter_rejects_iff (hmem : env.opts.maxmemory = 0) (h : CounterCall i key c argv tx w)
    (hd : deltaOf c argv = some d) (hfinds : Finds env stringKind key e s w) (depth : ℕ) :
    (∃ v w', Answers env depth argv tx w v w' ∧ ((∃ n, v = .int n) ↔ Addable s d) ∧
      (¬Addable s d → v.isError = true ∧ (w'.db.table i).lookup key = some e)) ↔ s ≠ [] := by
  have hgets : Gets env stringKind [] key e s w := ⟨hfinds.value, .inl hfinds.live⟩
  constructor
  · -- The empty string counts as zero, and so the reply is the amount itself.
    rintro ⟨v, w', hv, -, hrejects⟩ rfl
    have hsum : sumOf [] d = some (0 + d) :=
      sumOf_eq_some_iff.2 ⟨0, rfl, by rw [zero_add]; exact CounterCall.delta_bounds hd, rfl⟩
    obtain ⟨w₁, -, hint⟩ := h.answers_of_sum hmem hd hgets hsum depth
    have herror := (hrejects fun ⟨n, hn, _⟩ => nomatch hn).1
    exact encode_int_ne herror _ (hv.unique hint).1
  · intro hne
    rw [addable_iff hne]
    cases hsum : sumOf s d with
    | some n =>
      obtain ⟨w₁, -, hint⟩ := h.answers_of_sum hmem hd hgets hsum depth
      exact ⟨_, _, hint, iff_of_true ⟨n, rfl⟩ ⟨n, rfl⟩, fun hnot => absurd ⟨n, rfl⟩ hnot⟩
    | none =>
      obtain ⟨w₁, haltered, herror⟩ := h.answers_of_no_sum hmem hd hgets hsum depth
      refine ⟨_, _, herror, iff_of_false nofun nofun, fun _ => ⟨rfl, ?_⟩⟩
      rw [← h.table]
      exact haltered.entry

/-- `INCR k`, where the key holds the string `x`. -/
theorem counter_rejects_iff_word : ∃ v w',
    Answers stillEnv 1 [bytes "INCR", bytes "k"] .idle (worldWith (.rawString (bytes "x"))) v w' ∧
      ((∃ n, v = .int n) ↔ Addable (bytes "x") 1) ∧
      (¬Addable (bytes "x") 1 → v.isError = true ∧
        (w'.db.table ⟨0, by decide⟩).lookup (bytes "k") = some ⟨.rawString (bytes "x"), 0⟩) :=
  (counter_rejects_iff (c := .incr) rfl ⟨rfl, by decide +kernel, rfl, rfl, rfl⟩ rfl
    (finds_worldWith stillEnv stringKind (bytes "x")) 1).2 (by decide)

/-- `INCR k`, where the key holds the empty string, replies one. -/
theorem incr_counts_empty :
    Finds stillEnv stringKind (bytes "k") ⟨.rawString [], 0⟩ [] (worldWith (.rawString [])) ∧
      ¬Addable [] 1 ∧ ∃ w', Answers stillEnv 1 [bytes "INCR", bytes "k"] .idle
        (worldWith (.rawString [])) (.int 1) w' :=
  ⟨finds_worldWith stillEnv stringKind [], (fun ⟨_, hn, _⟩ => nomatch hn),
    _, rfl, by decide +kernel⟩

/-! ## Runs -/

/-- No entry is under the key, or one that has expired, now and later. -/
def Missing (env : Env) (i : DbIndex) (key : Bytes) (w : World) : Prop :=
  ∀ e, (w.db.table i).lookup key = some e →
    ∀ t, w.tick ≤ t → Database.expired e (env.nowMs t) = true

/-- What has been added to the counter under a key since the world was `w₀`: the amounts of the
calls that replied an integer. Between the calls anything may happen that leaves the entry under the
key alone. -/
inductive Counting (env : Env) (i : DbIndex) (key : Bytes) (w₀ : World) :
    List ℤ → World → Prop where
  | start : Counting env i key w₀ [] w₀
  | other {ds : List ℤ} {w w' : World} (h : Counting env i key w₀ ds w) (htick : w.tick ≤ w'.tick)
      (hentry : (w'.db.table i).lookup key = (w.db.table i).lookup key) :
      Counting env i key w₀ ds w'
  | counted {ds : List ℤ} {w w' : World} {c : Cmd} {argv : Args} {tx : Tx} {depth : ℕ} {n : ℤ}
      (h : Counting env i key w₀ ds w) (hcall : CounterCall i key c argv tx w)
      (hint : Answers env depth argv tx w (.int n) w') :
      Counting env i key w₀ (ds ++ (deltaOf c argv).toList) w'
  | refused {ds : List ℤ} {w w' : World} {c : Cmd} {argv : Args} {tx : Tx} {depth : ℕ} {v : Reply}
      (h : Counting env i key w₀ ds w) (hcall : CounterCall i key c argv tx w)
      (herror : v.isError = true) (hrefused : Answers env depth argv tx w v w') :
      Counting env i key w₀ ds w'

/-- The counter is the sum of what was added to it. -/
structure CountsTo (env : Env) (i : DbIndex) (key : Bytes) (ds : List ℤ) (w : World) : Prop where
  missing : ds = [] → Missing env i key w
  stored : ds ≠ [] → (w.db.table i).lookup key = some ⟨.rawString (printInt ds.sum), 0⟩
  range : InRange ds.sum

/-- The call cannot be counted: its argument is not accepted, or the new sum would leave the
range. -/
def Uncountable (ds : List ℤ) (delta : Option ℤ) : Prop :=
  delta = none ∨ ∃ d, delta = some d ∧ ¬InRange (ds.sum + d)

namespace CountsTo

variable {ds : List ℤ}

/-- A world that agrees on the key and is no earlier counts to the same. -/
theorem of_eq (h : CountsTo env i key ds w) (htick : w.tick ≤ w'.tick)
    (hentry : (w'.db.table i).lookup key = (w.db.table i).lookup key) :
    CountsTo env i key ds w' := by
  refine ⟨fun hds e he t ht => ?_, fun hds => hentry.trans (h.stored hds), h.range⟩
  exact h.missing hds e (hentry.symm.trans he) t (htick.trans ht)

/-- A call finds the sum in the string that it finds or creates. -/
theorem gets (h : CountsTo env i key ds w) (htable : w.cs.dbIndex = i) :
    ∃ v s, Gets env stringKind [] key ⟨v, 0⟩ s w ∧ current s = some ds.sum ∧
      (ds ≠ [] → v = .rawString (printInt ds.sum)) := by
  subst htable
  by_cases hds : ds = []
  · subst hds
    have hlive : live env key w = none := by
      unfold live Database.lookup
      cases he : (w.db.table w.cs.dbIndex).lookup key with
      | none => rfl
      | some e =>
        dsimp only
        rw [if_pos (h.missing rfl e he _ le_rfl)]
    exact ⟨_, [], ⟨stringKind.get_put [], .inr ⟨hlive, rfl⟩⟩, rfl, fun hne => absurd rfl hne⟩
  · exact ⟨_, printInt ds.sum, ⟨rfl, .inl (live_of_lookup (h.stored hds))⟩,
      current_printInt h.range.1 h.range.2, fun _ => rfl⟩

/-- A call that can be counted. -/
theorem counted (hmem : env.opts.maxmemory = 0) (h : CountsTo env i key ds w)
    (hcall : CounterCall i key c argv tx w) (hd : deltaOf c argv = some d)
    (hrange : InRange (ds.sum + d)) (depth : ℕ) :
    ∃ w', Answers env depth argv tx w (.int (ds.sum + d)) w' ∧
      CountsTo env i key (ds ++ [d]) w' := by
  obtain ⟨v, s, hgets, hcurrent, -⟩ := h.gets hcall.table
  have hsum := sumOf_eq_some_iff.2 ⟨_, hcurrent, hrange, rfl⟩
  obtain ⟨w₁, haltered, hanswers⟩ := hcall.answers_of_sum hmem hd hgets hsum depth
  have hsums : (ds ++ [d]).sum = ds.sum + d := by
    rw [List.sum_append, List.sum_singleton]
  refine ⟨_, hanswers, fun hnil => absurd hnil (List.append_ne_nil_of_right_ne_nil _ nofun),
    fun _ => ?_, hsums ▸ hrange⟩
  rw [hsums, ← hcall.table]
  exact haltered.entry

/-- A call that cannot be counted leaves the entry as it is. -/
theorem refused (hmem : env.opts.maxmemory = 0) (h : CountsTo env i key ds w)
    (hcall : CounterCall i key c argv tx w) (hnot : Uncountable ds (deltaOf c argv)) (depth : ℕ) :
    ∃ w', Answers env depth argv tx w notInt w' ∧ w.tick ≤ w'.tick ∧
      (w'.db.table i).lookup key = (w.db.table i).lookup key := by
  rcases hnot with hd | ⟨d, hd, hrange⟩
  · exact ⟨_, (hcall.enters hmem).answers depth (hcall.handler_refuses hd _ w) rfl, le_rfl, rfl⟩
  · obtain ⟨v, s, hgets, hcurrent, hvalue⟩ := h.gets hcall.table
    have hsum : sumOf s d = none := by
      refine Option.eq_none_iff_forall_ne_some.2 fun n hn => ?_
      obtain ⟨m, hm, hin, -⟩ := sumOf_eq_some_iff.1 hn
      cases hcurrent.symm.trans hm
      exact hrange hin
    obtain ⟨w₁, haltered, hanswers⟩ := hcall.answers_of_no_sum hmem hd hgets hsum depth
    refine ⟨_, hanswers, haltered.tick, ?_⟩
    -- What is added to nothing is in range, so the key is not new.
    have hds : ds ≠ [] := by
      rintro rfl
      rw [List.sum_nil, zero_add] at hrange
      exact hrange (CounterCall.delta_bounds hd)
    rw [h.stored hds, ← hvalue hds, ← hcall.table]
    exact haltered.entry

end CountsTo

/-- Every call can be counted, or cannot. -/
theorem uncountable_or (ds : List ℤ) (delta : Option ℤ) :
    Uncountable ds delta ∨ ∃ d, delta = some d ∧ InRange (ds.sum + d) := by
  cases delta with
  | none => exact .inl (.inl rfl)
  | some d =>
    by_cases hrange : InRange (ds.sum + d)
    · exact .inr ⟨d, rfl, hrange⟩
    · exact .inl (.inr ⟨d, rfl, hrange⟩)

/-- Along a run of calls, the counter is the sum of what was added to it. -/
theorem counts_of_counting {w₀ : World} {ds : List ℤ} (hmem : env.opts.maxmemory = 0)
    (hmissing : Missing env i key w₀) (hrun : Counting env i key w₀ ds w) :
    CountsTo env i key ds w := by
  induction hrun with
  | start => exact ⟨fun _ => hmissing, fun hds => absurd rfl hds, by decide, by decide⟩
  | other _ htick hentry ih => exact ih.of_eq htick hentry
  | @counted ds w w' c argv tx depth n _ hcall hint ih =>
    rcases uncountable_or ds (deltaOf c argv) with hnot | ⟨d, hd, hrange⟩
    · obtain ⟨w₁, herror, -⟩ := ih.refused hmem hcall hnot depth
      exact absurd (herror.unique hint).1 (encode_int_ne rfl n)
    · obtain ⟨w₁, hanswers, hcounts⟩ := ih.counted hmem hcall hd hrange depth
      rw [hd, (hint.unique hanswers).2]
      exact hcounts
  | @refused ds w w' c argv tx depth v _ hcall herror hrefused ih =>
    rcases uncountable_or ds (deltaOf c argv) with hnot | ⟨d, hd, hrange⟩
    · obtain ⟨w₁, hanswers, htick, hentry⟩ := ih.refused hmem hcall hnot depth
      rw [(hrefused.unique hanswers).2]
      exact ih.of_eq htick hentry
    · obtain ⟨w₁, hanswers, -⟩ := ih.counted hmem hcall hd hrange depth
      exact absurd (hrefused.unique hanswers).1 (encode_int_ne herror _)

/-- Counters neither wrap nor lose updates. After any calls on a key that was missing, the stored
string is the numeral of the exact sum of what the calls that replied an integer were to add, which
is in range. The next call replies an error, and leaves the string as it is, exactly if its argument
is not accepted or the new sum would leave the range; otherwise it replies the new sum. -/
theorem counter_exact {w₀ : World} {ds : List ℤ} (hmem : env.opts.maxmemory = 0)
    (hmissing : Missing env i key w₀) (hrun : Counting env i key w₀ ds w) :
    CountsTo env i key ds w ∧
      ∀ c argv tx, CounterCall i key c argv tx w → ∀ depth,
        ∃ v w', Answers env depth argv tx w v w' ∧
        (v.isError = true ↔ Uncountable ds (deltaOf c argv)) ∧
        (v.isError = true → (w'.db.table i).lookup key = (w.db.table i).lookup key) ∧
        (v.isError = false → ∃ d, deltaOf c argv = some d ∧ v = .int (ds ++ [d]).sum ∧
          CountsTo env i key (ds ++ [d]) w') := by
  have hcounts := counts_of_counting hmem hmissing hrun
  refine ⟨hcounts, fun c argv tx hcall depth => ?_⟩
  rcases uncountable_or ds (deltaOf c argv) with hnot | ⟨d, hd, hrange⟩
  · obtain ⟨w', hanswers, -, hentry⟩ := hcounts.refused hmem hcall hnot depth
    exact ⟨_, w', hanswers, iff_of_true rfl hnot, fun _ => hentry, nofun⟩
  · obtain ⟨w', hanswers, hcounts'⟩ := hcounts.counted hmem hcall hd hrange depth
    refine ⟨_, w', hanswers, iff_of_false nofun ?_, nofun, fun _ => ⟨d, hd, ?_, hcounts'⟩⟩
    · rintro (hnone | ⟨d', hd', hout⟩)
      · cases hd.symm.trans hnone
      · cases hd.symm.trans hd'
        exact hout hrange
    · rw [List.sum_append, List.sum_singleton]

/-- `INCR k`, `INCRBY k x`, which is an error, and `DECRBY k 5`. -/
theorem counter_exact_incr : ∃ w,
    Counting stillEnv ⟨0, by decide⟩ (bytes "k") (freshServer.world 0) [1, -5] w ∧
    CountsTo stillEnv ⟨0, by decide⟩ (bytes "k") [1, -5] w ∧
    ∃ v w', Answers stillEnv 1 [bytes "INCR", bytes "k"] .idle w v w' ∧
      (v.isError = true ↔ Uncountable [1, -5] (some 1)) := by
  obtain ⟨w₁, w₂, w₃, h₁, h₂, h₃, hcs⟩ : ∃ w₁ w₂ w₃,
      Answers stillEnv 1 [bytes "INCR", bytes "k"] .idle (freshServer.world 0) (.int 1) w₁ ∧
      Answers stillEnv 1 [bytes "INCRBY", bytes "k", bytes "x"] .idle w₁ notInt w₂ ∧
      Answers stillEnv 1 [bytes "DECRBY", bytes "k", bytes "5"] .idle w₂ (.int (-4)) w₃ ∧
      w₁.cs.dbIndex = ⟨0, by decide⟩ ∧ w₂.cs.dbIndex = ⟨0, by decide⟩ ∧
      w₃.cs.dbIndex = ⟨0, by decide⟩ :=
    ⟨_, _, _, ⟨rfl, by decide +kernel⟩, ⟨rfl, by decide +kernel⟩, ⟨rfl, by decide +kernel⟩,
      rfl, rfl, rfl⟩
  have hrun : Counting stillEnv ⟨0, by decide⟩ (bytes "k") (freshServer.world 0) [1, -5] w₃ :=
    .counted (c := .decrby) (.refused (c := .incrby) (.counted (c := .incr) .start
      ⟨rfl, by decide +kernel, rfl, rfl, rfl⟩ h₁) ⟨rfl, by decide +kernel, rfl, hcs.1, rfl⟩ rfl h₂)
      ⟨rfl, by decide +kernel, rfl, hcs.2.1, rfl⟩ h₃
  obtain ⟨hcounts, hnext⟩ := counter_exact rfl (fun _ he => by cases he) hrun
  obtain ⟨v, w', hanswers, hiff, -⟩ := hnext .incr [bytes "INCR", bytes "k"] .idle
    ⟨rfl, by decide +kernel, rfl, hcs.2.2, rfl⟩ 1
  exact ⟨w₃, hrun, hcounts, v, w', hanswers, hiff⟩

end TinyRedis.Commands

import TinyRedis.Commands.SetOps

/-!
# Unions, intersections, and differences

What `SUNION`, `SINTER`, `SDIFF`, and the commands that store the result do, against the operations
on sets that they are named after (`InOperation`), where a missing key stands for the empty set.

A key may come twice, and may expire between its two lookups. A union then reads a set that is gone;
an intersection has ended by then. The base of a difference is the first set that is found, which is
the first key only if this is not missing.
-/

namespace TinyRedis.Commands

open Lib Resp List

variable {env : Env} {argv : Args} {tx : Tx} {c : Cmd} {op : SetOp} {store : Bool} {w w' : World}
  {keys : List Bytes} {ss : List (LookupResult × Dict Bytes Unit)} {m key : Bytes}
  {res : Dict Bytes Unit} {fs : List FoundSet} {s : LookupResult × Dict Bytes Unit} {w₁ : World}
  {f : CommandFault}

/-! ## The operations -/

/-- The members of the result of an operation. -/
def InOperation : SetOp → List (LookupResult × Dict Bytes Unit) → Bytes → Prop
  | .union, ss, m => ∃ s ∈ ss, m ∈ s.2
  | .inter, ss, m => ∀ s ∈ ss, m ∈ s.2
  | .diff, [], _ => False
  | .diff, s :: ss, m => m ∈ s.2 ∧ ∀ t ∈ ss, m ∉ t.2

/-- What is not found is an empty set. -/
theorem eq_empty_of_sources (h : s ∈ sources env keys w) (hs : s.1 ≠ .found) : s.2 = ∅ := by
  induction keys generalizing w with
  | nil => cases h
  | cons key keys ih =>
    rcases mem_cons.1 h with rfl | h
    · dsimp only at hs ⊢
      rw [typedAt_of_probe hs]
      rfl
    · exact ih h

/-- The found sets are those of the sources that were found. -/
theorem mem_foundSets {t : Dict Bytes Unit} :
    t ∈ foundSets ss ↔ ∃ s ∈ ss, s.1 = .found ∧ s.2 = t := by
  simp only [foundSets, mem_map, mem_filter, decide_eq_true_iff, and_assoc]

/-- A member is in one of the sets exactly if it is in one that was found. -/
theorem exists_mem_sources (h : ∀ s ∈ ss, s.1 ≠ .found → s.2 = ∅) :
    (∃ s ∈ ss, m ∈ s.2) ↔ (foundSets ss).any (fun s => decide (m ∈ s)) = true := by
  simp only [any_eq_true, decide_eq_true_iff]
  constructor
  · rintro ⟨s, hs, hm⟩
    have hfound : s.1 = .found := by
      by_contra hne
      rw [h s hs hne] at hm
      exact AList.notMem_empty m hm
    exact ⟨s.2, mem_foundSets.2 ⟨s, hs, hfound, rfl⟩, hm⟩
  · rintro ⟨t, ht, hm⟩
    obtain ⟨s, hs, -, rfl⟩ := mem_foundSets.1 ht
    exact ⟨s, hs, hm⟩

/-- All sets were found. -/
theorem inResult_inter (hne : ss ≠ []) (h : ∀ s ∈ ss, s.1 = .found) :
    inResult .inter (foundSets ss) m = true ↔ InOperation .inter ss m := by
  have hall : foundSets ss = ss.map Prod.snd := by
    unfold foundSets
    rw [filter_eq_self.2 fun s hs => decide_eq_true (h s hs)]
  have hempty : (foundSets ss).isEmpty = false := by
    rw [hall, isEmpty_eq_false_iff]
    exact fun hnil => hne (map_eq_nil_iff.1 hnil)
  rw [inResult, hempty, Bool.not_false, Bool.true_and, hall, all_eq_true]
  simp only [forall_mem_map, decide_eq_true_iff]
  rfl

/-- The first set was found. -/
theorem inResult_diff (hs : s.1 = .found) (h : ∀ t ∈ ss, t.1 ≠ .found → t.2 = ∅) :
    inResult .diff (foundSets (s :: ss)) m = true ↔ InOperation .diff (s :: ss) m := by
  have hfirst : foundSets (s :: ss) = s.2 :: foundSets ss := by
    unfold foundSets
    rw [filter_cons, if_pos (decide_eq_true hs), map_cons]
  rw [hfirst, inResult, Bool.and_eq_true, decide_eq_true_iff, Bool.not_eq_true', InOperation]
  refine and_congr_right fun _ => ?_
  rw [← Bool.not_eq_true, ← exists_mem_sources h]
  push Not
  rfl

/-! ## Calls -/

/-- The operation of a command, and whether the command stores the result. -/
def setOpOf : Cmd → Option (SetOp × Bool)
  | .sunion => some (.union, false)
  | .sinter => some (.inter, false)
  | .sdiff => some (.diff, false)
  | .sunionstore => some (.union, true)
  | .sinterstore => some (.inter, true)
  | .sdiffstore => some (.diff, true)
  | _ => none

/-- The index of the first key that is read. -/
def firstSource (store : Bool) : ℕ := if store then 2 else 1

/-- A call of one of these commands, outside a transaction. -/
structure SetOpCall (c : Cmd) (op : SetOp) (store : Bool) (argv : Args) (tx : Tx) : Prop where
  command : setOpOf c = some (op, store)
  accepts : accepts c argv = true
  outside : tx.inMulti = false

/-- The call replies the sorted members of a set; or stores the set under the destination, without a
deadline, and replies how many members it has. -/
def Computes (env : Env) (depth : ℕ) (argv : Args) (tx : Tx) (w : World) (store : Bool)
    (P : Bytes → Prop) : Prop :=
  ∃ v w', Answers env depth argv tx w v w' ∧
    if store then ∃ s, (w'.db.table w.cs.dbIndex).lookup (argv.getD 1 []) = some ⟨.set s, 0⟩ ∧
      (∀ m, m ∈ s ↔ P m) ∧ v = .int s.size
    else ∃ l : List Bytes, v = .array (l.map .bulk) ∧ l.Pairwise (· < ·) ∧ ∀ m, m ∈ l ↔ P m

/-- The sorted members are in strictly increasing order. -/
theorem pairwise_setMembersSorted (s : Dict Bytes Unit) :
    (setMembersSorted s).Pairwise (· < ·) := by
  have hnodup : (setMembersSorted s).Nodup :=
    (perm_insertionSort _ _).nodup_iff.2 (Dict.toList_nodup s)
  have hle : (setMembersSorted s).Pairwise (· ≤ ·) := pairwise_insertionSort _ _
  exact (hle.and hnodup).imp fun h => lt_of_le_of_ne h.1 h.2

/-- The sorted members of a set are its members. -/
theorem mem_setMembersSorted (s : Dict Bytes Unit) : m ∈ setMembersSorted s ↔ m ∈ s := by
  rw [Dict.mem_iff_mem_toList]
  exact (perm_insertionSort _ _).mem_iff

/-- What a call with the result `s` replies. -/
def resultReply (store : Bool) (s : Dict Bytes Unit) : Reply :=
  if store then .int s.size else .array ((setMembersSorted s).map .bulk)

/-- Sets with the same members have as many. -/
theorem size_congr {s s' : Dict Bytes Unit} (h : ∀ m, m ∈ s ↔ m ∈ s') : s.size = s'.size := by
  have hperm : (s.toList.map Prod.fst).Perm (s'.toList.map Prod.fst) := by
    refine (perm_ext_iff_of_nodup (Dict.toList_nodup s) (Dict.toList_nodup s')).2 fun m => ?_
    rw [← Dict.mem_iff_mem_toList, ← Dict.mem_iff_mem_toList]
    exact h m
  have hlength := hperm.length_eq
  rw [length_map, length_map] at hlength
  rw [← Dict.length_toList, ← Dict.length_toList]
  exact hlength

/-- Sorted lists with the same members are the same. -/
theorem sorted_congr {l l' : List Bytes} (h : ∀ m, m ∈ l ↔ m ∈ l') (hl : l.Pairwise (· < ·))
    (hl' : l'.Pairwise (· < ·)) : l = l' := by
  have hperm : l.Perm l' :=
    (perm_ext_iff_of_nodup (hl.imp ne_of_lt) (hl'.imp ne_of_lt)).2 h
  exact hperm.eq_of_pairwise' (hl.imp le_of_lt) (hl'.imp le_of_lt)

/-- Calls that compute the same set reply the same. -/
theorem Computes.same_reply {depth : ℕ} {argv' : Args} {tx' : Tx} {P Q : Bytes → Prop}
    (h : Computes env depth argv tx w store P) (h' : Computes env depth argv' tx' w store Q)
    (hPQ : ∀ m, P m ↔ Q m) :
    ∃ v w₁ w₂, Answers env depth argv tx w v w₁ ∧ Answers env depth argv' tx' w v w₂ := by
  obtain ⟨v, w₁, hv, hcomputes⟩ := h
  obtain ⟨v', w₂, hv', hcomputes'⟩ := h'
  have hsame : v' = v := by
    cases store with
    | true =>
      obtain ⟨s, -, hs, rfl⟩ := hcomputes
      obtain ⟨s', -, hs', rfl⟩ := hcomputes'
      rw [size_congr fun m => ((hs' m).trans (hPQ m).symm).trans (hs m).symm]
    | false =>
      obtain ⟨l, rfl, hl, hmem⟩ := hcomputes
      obtain ⟨l', rfl, hl', hmem'⟩ := hcomputes'
      rw [sorted_congr (fun m => ((hmem' m).trans (hPQ m).symm).trans (hmem m).symm) hl' hl]
  exact ⟨v, w₁, w₂, hv, hsame ▸ hv'⟩

/-- What the handlers do with the result. -/
def publish (env : Env) (argv : Args) (store : Bool) : Option (Dict Bytes Unit) → M Unit
  | none => pure ()
  | some res =>
    if store then do
      let e ← setAndLookup env (argv.getD 1 []) (.set res)
      match setKind.get e.value with
      | some s => replyInt s.size
      | none => fault .nullHandle
    else replyBulkArray (setMembersSorted res)

/-- The world with the result under the destination, if there is one. -/
def stored (argv : Args) (store : Bool) (res : Dict Bytes Unit) (w : World) : World :=
  if store then { w with
    db := w.db.set w.cs.dbIndex (argv.getD 1 []) (.set res) 0
    tick := w.tick + 1 }
  else w

/-- A result is stored, or not, and replied. -/
theorem publish_some (env : Env) (argv : Args) (store : Bool) (res : Dict Bytes Unit) (w : World) :
    publish env argv store (some res) w =
      .ok ((), replied (resultReply store res) (stored argv store res w)) := by
  cases store with
  | true =>
    show (setAndLookup env (argv.getD 1 []) (.set res) >>= _) w = _
    rw [bind_apply, setAndLookup_eq, ok_bind]
    exact replyInt_eq _ _
  | false => exact replyBulkArray_eq _ _

namespace SetOpCall

variable (h : SetOpCall c op store argv tx)
include h

/-- The call runs the handler. -/
theorem enters (hmem : env.opts.maxmemory = 0) : Enters env c argv tx w := by
  have hc := h.command
  refine .mk h.accepts h.outside (gated_of_unlimited hmem) ?_
  cases c <;> first | rfl | cases hc

/-- A call with enough arguments names a source. -/
theorem firstSource_lt : firstSource store < argv.length := by
  have hargs := minArgs_le_of_accepts h.accepts
  have hc := h.command
  cases c <;> cases hc <;> exact hargs

/-- The six commands evaluate their operation, and publish the result. -/
theorem handler_eq (lower : Bytes) : handler env lower argv c =
    evalSetOp env argv (firstSource store) op >>= publish env argv store := by
  have hc := h.command
  have hone : 1 < argv.length := lt_of_le_of_lt (by cases store <;> decide) h.firstSource_lt
  have hstore : cmdSetOpStore env argv op = evalSetOp env argv 2 op >>= publish env argv true := by
    unfold cmdSetOpStore
    rw [arg_bind hone]
    exact bind_congr fun r => by cases r <;> rfl
  have hreply : cmdSetOp env argv op = evalSetOp env argv 1 op >>= publish env argv false :=
    bind_congr fun r => by cases r <;> rfl
  cases c <;> cases hc <;> first | exact hreply | exact hstore

/-- The handler meets the faults of the evaluation. -/
theorem handler_error (heval : evalSetOp env argv (firstSource store) op w = .error f)
    (lower : Bytes) : handler env lower argv c w = .error f := by
  rw [h.handler_eq, bind_apply, heval]
  rfl

/-- After the evaluation the handler meets no fault. -/
theorem handler_ok {r : Option (Dict Bytes Unit)}
    (heval : evalSetOp env argv (firstSource store) op w = .ok (r, w₁)) (lower : Bytes) :
    ∃ w', handler env lower argv c w = .ok ((), w') := by
  rw [h.handler_eq, bind_apply, heval, ok_bind]
  cases r with
  | none => exact ⟨_, rfl⟩
  | some res => exact ⟨_, publish_some env argv store res w₁⟩

/-- What a call does with the result of the evaluation. -/
theorem answers_result (hmem : env.opts.maxmemory = 0) (hquiet : w₁.cs = w.cs ∧ w₁.out = w.out)
    (heval : evalSetOp env argv (firstSource store) op w = .ok (some res, w₁)) (depth : ℕ) :
    ∃ w', Answers env depth argv tx w (resultReply store res) w' ∧
      (store = true → (w'.db.table w.cs.dbIndex).lookup (argv.getD 1 []) = some ⟨.set res, 0⟩) := by
  have hrun : handler env (lowerName argv) argv c w =
      .ok ((), replied (resultReply store res) (stored argv store res w₁)) := by
    rw [h.handler_eq, bind_apply, heval, ok_bind, publish_some]
  have hout : (stored argv store res w₁).out = w.out := by
    rw [← hquiet.2]
    cases store <;> rfl
  refine ⟨_, (h.enters hmem).answers depth hrun (congrArg (· ++ _) hout), ?_⟩
  rintro rfl
  show ((w₁.db.set w₁.cs.dbIndex (argv.getD 1 []) (.set res) 0).table w.cs.dbIndex).lookup _ = _
  rw [hquiet.1, Database.table_set, if_pos rfl, AList.lookup_insert]

/-- A call whose evaluation has a result computes what has the members of the result. -/
theorem computes_iff_of_result (hmem : env.opts.maxmemory = 0)
    (hquiet : w₁.cs = w.cs ∧ w₁.out = w.out)
    (heval : evalSetOp env argv (firstSource store) op w = .ok (some res, w₁)) (depth : ℕ)
    (P : Bytes → Prop) : Computes env depth argv tx w store P ↔ ∀ m, m ∈ res ↔ P m := by
  obtain ⟨w', hanswers, hstored⟩ := h.answers_result hmem hquiet heval depth
  constructor
  · rintro ⟨v, w'', hv, hcomputes⟩
    obtain ⟨hencode, rfl⟩ := hv.unique hanswers
    cases store with
    | true =>
      obtain ⟨s, hs, hmem, -⟩ := hcomputes
      cases (hstored rfl).symm.trans hs
      exact hmem
    | false =>
      obtain ⟨l, rfl, -, hmem⟩ := hcomputes
      have hinj := Reply.encode_append_inj (.array (l.map .bulk))
        (.array ((setMembersSorted res).map .bulk)) (x := []) (y := [])
        (Reply.allWellFormed_bulks l) (Reply.allWellFormed_bulks _) (congrArg (· ++ []) hencode)
      have hlist : l = setMembersSorted res :=
        map_injective_iff.2 (fun _ _ hbulk => Reply.bulk.inj hbulk) (Reply.array.inj hinj.1)
      subst hlist
      exact fun m => (mem_setMembersSorted res).symm.trans (hmem m)
  · intro hmem
    refine ⟨_, w', hanswers, ?_⟩
    cases store with
    | true => exact ⟨res, hstored rfl, hmem, rfl⟩
    | false =>
      exact ⟨_, rfl, pairwise_setMembersSorted res, fun m =>
        (mem_setMembersSorted res).trans (hmem m)⟩

end SetOpCall

/-- The lookups leave the connection alone, and append nothing to the output. -/
theorem afterLookups_quiet (env : Env) (keys : List Bytes) (w : World) :
    (afterLookups env keys w).cs = w.cs ∧ (afterLookups env keys w).out = w.out := by
  induction keys generalizing w with
  | nil => exact ⟨rfl, rfl⟩
  | cons key keys ih => exact ih _

/-- Where no source stops the command it computes `P` if and only if no pointer dangles and the
operation on the found sets is `P`. -/
theorem computes_iff_of_go (hmem : env.opts.maxmemory = 0) (h : SetOpCall c op store argv tx)
    (hgo : (sources env (argv.drop (firstSource store)) w).find? (stops op) = none) (depth : ℕ)
    (P : Bytes → Prop) : Computes env depth argv tx w store P ↔
      dangles op (foundBy env (argv.drop (firstSource store)) w) = false ∧
        ∀ m, inResult op (foundSets (sources env (argv.drop (firstSource store)) w)) m = true ↔
          P m := by
  obtain ⟨res, hres, heval⟩ := evalSetOp_go hgo
  cases hdangles : dangles op (foundBy env (argv.drop (firstSource store)) w) with
  | true =>
    rw [hdangles] at heval
    refine iff_of_false (fun ⟨v, w', hv, _⟩ => ?_) nofun
    have hrun := hv.run
    rw [(h.enters hmem).dispatch_eq, h.handler_error heval] at hrun
    cases hrun
  | false =>
    rw [hdangles] at heval
    rw [h.computes_iff_of_result hmem (afterLookups_quiet _ _ _) heval depth P, and_iff_right rfl]
    exact forall_congr' fun m => iff_congr (hres m) Iff.rfl

/-- Only a value of another type stops a union or a difference. -/
theorem find?_stops (hop : op ≠ .inter) (h : ∀ s ∈ ss, s.1 ≠ .wrongType) :
    ss.find? (stops op) = none := by
  refine find?_eq_none.2 fun s hs hstop => h s hs ?_
  simpa [stops, hop] using hstop

/-! ## Unions and intersections -/

/-- The union dangles on every lost set. -/
theorem dangles_union (fs : List FoundSet) : dangles .union fs = fs.any FoundSet.lost := by
  cases fs <;> rfl

/-- If all lookups find their keys, nothing is lost. -/
theorem loses_of_found (h : ∀ s ∈ sources env keys w, s.1 = .found) :
    loses env key keys w = false := by
  induction keys generalizing w with
  | nil => rfl
  | cons k keys ih =>
    obtain ⟨hk, hrest⟩ := forall_mem_cons.1 h
    rw [loses, ih hrest, Bool.or_false, Bool.and_eq_false_iff]
    by_cases hkey : k = key
    · subst hkey
      cases hlive : live env k w with
      | none =>
        unfold probe at hk
        rw [hlive] at hk
        cases hk
      | some e => exact .inr rfl
    · exact .inl (decide_eq_false hkey)

/-- No set is lost when every source is found at its turn. -/
theorem lost_of_found (h : ∀ s ∈ sources env keys w, s.1 = .found) :
    ∀ f ∈ foundBy env keys w, f.lost = false := by
  induction keys generalizing w with
  | nil => exact nofun
  | cons key keys ih =>
    have hrest := (forall_mem_cons.1 h).2
    intro f hf
    rcases mem_append.1 hf with hf | hf
    · obtain ⟨s, -, rfl⟩ := mem_map.1 hf
      exact loses_of_found hrest
    · exact ih hrest f hf

/-- With no set lost there is nothing to dangle on. -/
theorem strays_of_lost {stop : Dict Bytes Unit → Bool} (h : ∀ f ∈ fs, f.lost = false) :
    strays stop fs = false := by
  induction fs with
  | nil => rfl
  | cons f fs ih =>
    obtain ⟨hf, hrest⟩ := forall_mem_cons.1 h
    rw [strays, hf, ih hrest, Bool.and_false, Bool.or_false]

/-- Nothing that is read is lost, if nothing is lost. -/
theorem dangles_of_lost (h : ∀ f ∈ fs, f.lost = false) (op : SetOp) : dangles op fs = false := by
  cases fs with
  | nil => rfl
  | cons f fs =>
    obtain ⟨hf, hrest⟩ := forall_mem_cons.1 h
    unfold dangles
    dsimp only
    rw [hf, Bool.false_or]
    cases op with
    | union => exact any_eq_false.2 fun f hf => by rw [hrest f hf]; exact nofun
    | inter => exact any_eq_false.2 fun m _ => by rw [strays_of_lost hrest]; exact nofun
    | diff => exact any_eq_false.2 fun m _ => by rw [strays_of_lost hrest]; exact nofun

/-- `SINTER` ends at the first key that is missing, so it never reads a set that is lost. -/
theorem inter_computes (hmem : env.opts.maxmemory = 0) (h : SetOpCall c .inter store argv tx)
    (hsets : ∀ s ∈ sources env (argv.drop (firstSource store)) w, s.1 ≠ .wrongType) (depth : ℕ) :
    Computes env depth argv tx w store
      (InOperation .inter (sources env (argv.drop (firstSource store)) w)) := by
  have hkeys : sources env (argv.drop (firstSource store)) w ≠ [] := by
    rw [drop_eq_cons h.firstSource_lt]
    exact cons_ne_nil _ _
  cases hfind : (sources env (argv.drop (firstSource store)) w).find? (stops .inter) with
  | none =>
    have hfound : ∀ s ∈ sources env (argv.drop (firstSource store)) w, s.1 = .found := by
      intro s hs
      have hgo := find?_eq_none.1 hfind s hs
      obtain ⟨r, t⟩ := s
      cases r with
      | found => rfl
      | missing => exact absurd rfl hgo
      | wrongType => exact absurd rfl hgo
    rw [computes_iff_of_go hmem h hfind]
    exact ⟨dangles_of_lost (lost_of_found hfound) _,
      fun m => inResult_inter hkeys hfound⟩
  | some s =>
    have hs := mem_of_find?_eq_some hfind
    obtain ⟨keys, heval⟩ := evalSetOp_stop hfind
    rw [if_neg (hsets s hs)] at heval
    rw [h.computes_iff_of_result hmem (afterLookups_quiet _ _ _) heval]
    -- The set that is missing has no members, and neither has the intersection.
    have hmissing : s.1 ≠ .found := by
      intro hfound
      have hstop := find?_some hfind
      obtain ⟨r, t⟩ := s
      cases hfound
      cases hstop
    refine fun m => iff_of_false (AList.notMem_empty m) fun hm => ?_
    have hin := hm s hs
    rw [eq_empty_of_sources hs hmissing] at hin
    exact AList.notMem_empty m hin

/-- `SUNION` computes the union exactly if no key that a lookup found has expired by a later lookup
of the same key. -/
theorem union_computes_iff (hmem : env.opts.maxmemory = 0) (h : SetOpCall c .union store argv tx)
    (hsets : ∀ s ∈ sources env (argv.drop (firstSource store)) w, s.1 ≠ .wrongType) (depth : ℕ) :
    Computes env depth argv tx w store
      (InOperation .union (sources env (argv.drop (firstSource store)) w)) ↔
        ∀ f ∈ foundBy env (argv.drop (firstSource store)) w, f.lost = false := by
  rw [computes_iff_of_go hmem h (find?_stops (by decide) hsets), dangles_union, any_eq_false]
  refine (and_iff_left fun m => ?_).trans ?_
  · exact (exists_mem_sources fun s hs => eq_empty_of_sources hs).symm
  simp only [Bool.not_eq_true]

/-- While the clock stands still, what a lookup finds depends on its key only. -/
theorem Still.sources_eq (h : Still env w) (keys : List Bytes) : sources env keys w =
    keys.map fun key => (probe env .kSet key w, (typedAt env setKind key w).getD ∅) := by
  have hlive : ∀ (keys : List Bytes) (u : World), Still env u →
      (∀ key, live env key u = live env key w) → sources env keys u =
        keys.map fun key => (probe env .kSet key w, (typedAt env setKind key w).getD ∅) := by
    intro keys
    induction keys with
    | nil => exact fun _ _ _ => rfl
    | cons key keys ih =>
      intro u hu hsame
      rw [sources, map_cons, ih _ (hu.afterLookup key) fun key' =>
        (hu.live_afterLookup key key').trans (hsame key')]
      unfold probe typedAt
      rw [hsame key]
  exact hlive keys w h fun _ => rfl

/-- While the clock stands still, nothing is lost. -/
theorem Still.loses_eq (h : Still env w) (hlive : live env key w ≠ none) (keys : List Bytes) :
    loses env key keys w = false := by
  induction keys generalizing w with
  | nil => rfl
  | cons k keys ih =>
    have hrest := ih (h.afterLookup k) (by rw [h.live_afterLookup]; exact hlive)
    rw [loses, hrest, Bool.or_false, Bool.and_eq_false_iff]
    exact .inr (Option.isNone_eq_false_iff.2 (Option.isSome_iff_ne_none.2 hlive))

/-- Under a still clock no set is lost. -/
theorem Still.lost_eq (h : Still env w) (keys : List Bytes) :
    ∀ f ∈ foundBy env keys w, f.lost = false := by
  induction keys generalizing w with
  | nil => exact nofun
  | cons key keys ih =>
    intro f hf
    rcases mem_append.1 hf with hf | hf
    · obtain ⟨s, hs, rfl⟩ := mem_map.1 hf
      refine (h.afterLookup key).loses_eq ?_ keys
      obtain ⟨e, hlive, -⟩ := Option.bind_eq_some_iff.1 (Option.mem_toList.1 hs)
      rw [h.live_afterLookup, hlive]
      exact nofun
    · exact ih (h.afterLookup key) f hf

/-- Unions and intersections do not depend on the order of the sets. -/
theorem inOperation_congr {ss' : List (LookupResult × Dict Bytes Unit)} (hop : op ≠ .diff)
    (h : ss.Perm ss') : InOperation op ss m ↔ InOperation op ss' m := by
  cases op with
  | union => exact exists_congr fun s => and_congr_left fun _ => h.mem_iff
  | inter => exact forall_congr' fun s => imp_congr_left h.mem_iff
  | diff => exact absurd rfl hop

/-- `SUNION`, `SINTER`, and the commands that store the result compute the union and the
intersection of the sets that their lookups find, where a missing key stands for the empty set. For
unions this is so if and only if no key that a lookup found has expired by a later lookup of the
same key. While the clock stands still, the reply does not depend on the order of the keys. -/
theorem unionInter_computes_iff (hmem : env.opts.maxmemory = 0)
    (h : SetOpCall c op store argv tx) (hop : op ≠ .diff)
    (hsets : ∀ s ∈ sources env (argv.drop (firstSource store)) w, s.1 ≠ .wrongType) (depth : ℕ) :
    (Computes env depth argv tx w store
      (InOperation op (sources env (argv.drop (firstSource store)) w)) ↔
        (op = .union → ∀ f ∈ foundBy env (argv.drop (firstSource store)) w, f.lost = false)) ∧
      ∀ argv' tx', SetOpCall c op store argv' tx' →
        (argv.drop (firstSource store)).Perm (argv'.drop (firstSource store)) → Still env w →
        ∃ v w₁ w₂, Answers env depth argv tx w v w₁ ∧ Answers env depth argv' tx' w v w₂ := by
  have hiff : ∀ argv' tx', SetOpCall c op store argv' tx' →
      (∀ s ∈ sources env (argv'.drop (firstSource store)) w, s.1 ≠ .wrongType) →
      (Computes env depth argv' tx' w store
        (InOperation op (sources env (argv'.drop (firstSource store)) w)) ↔
          (op = .union →
            ∀ f ∈ foundBy env (argv'.drop (firstSource store)) w, f.lost = false)) := by
    intro argv' tx' h' hsets'
    cases op with
    | union =>
      rw [union_computes_iff hmem h' hsets' depth]
      exact ⟨fun hlost _ => hlost, fun hlost => hlost rfl⟩
    | inter => exact iff_of_true (inter_computes hmem h' hsets' depth) nofun
    | diff => exact absurd rfl hop
  refine ⟨hiff argv tx h hsets, fun argv' tx' h' hperm hstill => ?_⟩
  have hsources := hperm.map fun key => (probe env .kSet key w, (typedAt env setKind key w).getD ∅)
  rw [← hstill.sources_eq, ← hstill.sources_eq] at hsources
  have hcomputes := (hiff argv tx h hsets).2 fun _ => hstill.lost_eq _
  have hcomputes' := (hiff argv' tx' h' fun s hs => hsets s (hsources.mem_iff.2 hs)).2
    fun _ => hstill.lost_eq _
  exact hcomputes.same_reply hcomputes' fun m => inOperation_congr hop hsources

/-- `SUNION k k`, where the key holds a set. -/
theorem unionInter_computes_iff_twice :
    Computes stillEnv 1 [bytes "SUNION", bytes "k", bytes "k"] .idle
      (worldWith (.set (setOf [bytes "a"]))) false
      (InOperation .union (sources stillEnv [bytes "k", bytes "k"]
        (worldWith (.set (setOf [bytes "a"]))))) := by
  have hcall : SetOpCall .sunion .union false [bytes "SUNION", bytes "k", bytes "k"] .idle :=
    ⟨rfl, by decide +kernel, rfl⟩
  exact (unionInter_computes_iff rfl hcall nofun (by decide +kernel) 1).1.2 fun _ => by
    decide +kernel

/-- `SUNION k k`, where the key expires between the two lookups. -/
theorem sunion_reads_lost :
    (∀ s ∈ sources tickingEnv [bytes "k", bytes "k"] (fleetingWorld (.set (setOf [bytes "a"]))),
      s.1 ≠ .wrongType) ∧
    dispatch tickingEnv 2 [bytes "SUNION", bytes "k", bytes "k"] .idle
      (fleetingWorld (.set (setOf [bytes "a"]))) = .error .danglingHandle :=
  ⟨by decide +kernel, eq_error_of_errorOf (by decide +kernel)⟩

/-! ## Differences -/

/-- `SDIFF` and `SDIFFSTORE` compute the difference of the first set and the others if and only if
they read no set that is lost, and the first key is found, or all members of the first set that is
found are in later ones. -/
theorem diff_computes_iff (hmem : env.opts.maxmemory = 0) (h : SetOpCall c .diff store argv tx)
    (hsets : ∀ s ∈ sources env (argv.drop (firstSource store)) w, s.1 ≠ .wrongType) (depth : ℕ) :
    Computes env depth argv tx w store
      (InOperation .diff (sources env (argv.drop (firstSource store)) w)) ↔
        dangles .diff (foundBy env (argv.drop (firstSource store)) w) = false ∧
          (probe env .kSet (argv.getD (firstSource store) []) w = .found ∨
            ∀ m, inResult .diff (foundSets (sources env (argv.drop (firstSource store)) w)) m =
              false) := by
  rw [computes_iff_of_go hmem h (find?_stops (by decide) hsets)]
  refine and_congr_right fun _ => ?_
  rw [drop_eq_cons h.firstSource_lt, sources]
  by_cases hfound : probe env .kSet (argv.getD (firstSource store) []) w = .found
  · exact iff_of_true (fun m => inResult_diff hfound fun s hs => eq_empty_of_sources hs)
      (.inl hfound)
  · -- The difference is empty, as the first set is.
    have hempty : (typedAt env setKind (argv.getD (firstSource store) []) w).getD ∅ = ∅ := by
      rw [typedAt_of_probe hfound]
      rfl
    rw [or_iff_right hfound, hempty]
    refine forall_congr' fun m => ?_
    have hnot : ¬InOperation .diff ((probe env .kSet (argv.getD (firstSource store) []) w, ∅) ::
        sources env (argv.drop (firstSource store + 1))
          (afterLookup env (argv.getD (firstSource store) []) w)) m :=
      fun hm => AList.notMem_empty m hm.1
    rw [iff_false_right hnot, Bool.not_eq_true]

/-- `SDIFF k x`, where the first key holds a set. -/
theorem diff_computes_iff_found :
    Computes stillEnv 1 [bytes "SDIFF", bytes "k", bytes "x"] .idle
      (worldWith (.set (setOf [bytes "a"]))) false
      (InOperation .diff (sources stillEnv [bytes "k", bytes "x"]
        (worldWith (.set (setOf [bytes "a"]))))) := by
  have hcall : SetOpCall .sdiff .diff false [bytes "SDIFF", bytes "k", bytes "x"] .idle :=
    ⟨rfl, by decide +kernel, rfl⟩
  exact (diff_computes_iff rfl hcall (by decide +kernel) 1).2
    ⟨by decide +kernel, .inl (by decide +kernel)⟩

/-- `SDIFF x k`, where the first key is missing, replies the members of the second set. -/
theorem sdiff_skips_missing :
    Absent (bytes "x") (worldWith (.set (setOf [bytes "a"]))) ∧
      ∃ w', Answers stillEnv 1 [bytes "SDIFF", bytes "x", bytes "k"] .idle
        (worldWith (.set (setOf [bytes "a"]))) (.array [.bulk (bytes "a")]) w' :=
  ⟨rfl, _, rfl, by decide +kernel⟩

end TinyRedis.Commands

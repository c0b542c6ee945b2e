import TinyRedis.Commands.Pointers

/-!
# What the operations on sets compute

`EvalSetOp` looks up all keys before it reads a set, and keeps pointers to the sets it found. A set
whose key is looked up again, and has expired by then, is lost (`FoundSet.lost`): it would be read
through a pointer to an entry that is gone. What is read otherwise is what was found, and so the
result is a function of what the lookups find one after another (`sources`), and whether there is a
result depends only on which of the sets that are read are lost (`dangles`).

The base of a difference is the first set that is found, whichever key it is under.
-/

namespace TinyRedis.Commands

open Lib List

variable {env : Env} {argv : Args} {op : SetOp} {w : World} {m : Bytes} {i skip : ℕ}

/-- What the lookups of some keys find one after another, with an empty set for no set. -/
def sources (env : Env) : List Bytes → World → List (LookupResult × Dict Bytes Unit)
  | [], _ => []
  | key :: keys, w =>
    (probe env .kSet key w, (typedAt env setKind key w).getD ∅) ::
      sources env keys (afterLookup env key w)

/-- What is found ends the evaluation: a value of another type, or no set for an intersection. -/
def stops (op : SetOp) (s : LookupResult × Dict Bytes Unit) : Bool :=
  decide (s.1 = .wrongType) || (decide (op = .inter) && decide (s.1 = .missing))

/-- The sets that were found. -/
def foundSets (ss : List (LookupResult × Dict Bytes Unit)) : List (Dict Bytes Unit) :=
  (ss.filter fun s => decide (s.1 = .found)).map Prod.snd

/-- Whether a member is in the result of the operation on the sets that were found. -/
def inResult : SetOp → List (Dict Bytes Unit) → Bytes → Bool
  | .union, ss, m => ss.any fun s => decide (m ∈ s)
  | .inter, ss, m => !ss.isEmpty && ss.all fun s => decide (m ∈ s)
  | .diff, [], _ => false
  | .diff, s :: ss, m => decide (m ∈ s) && !ss.any fun s => decide (m ∈ s)

/-- How the evaluation ends on what the lookups found: with an error for a value of another type,
and otherwise with a set. -/
def Evaluates (op : SetOp) (ss : List (LookupResult × Dict Bytes Unit))
    (r : Option (Dict Bytes Unit)) : Prop :=
  match ss.find? (stops op) with
  | some s => r = if s.1 = .wrongType then none else some ∅
  | none => ∃ res, r = some res ∧ ∀ m, m ∈ res ↔ inResult op (foundSets ss) m = true

/-! ## Sets from lists -/

/-- `setOf` holds exactly the members of its list. -/
theorem mem_setOf (ms : List Bytes) (m : Bytes) : m ∈ setOf ms ↔ m ∈ ms := by
  have hfold : ∀ (ms : List Bytes) (s : Dict Bytes Unit),
      m ∈ ms.foldl (fun s m => if m ∈ s then s else s.insert m ()) s ↔ m ∈ ms ∨ m ∈ s := by
    intro ms
    induction ms with
    | nil => exact fun s => ⟨.inr, fun h => h.resolve_left not_mem_nil⟩
    | cons x ms ih =>
      intro s
      rw [foldl_cons, ih, mem_cons]
      split_ifs with hx
      · constructor
        · exact fun h => h.imp .inr id
        · rintro ((rfl | h) | h)
          · exact .inr hx
          · exact .inl h
          · exact .inr h
      · rw [AList.mem_insert, or_assoc, or_left_comm]
  unfold setOf
  rw [hfold]
  exact or_iff_left (AList.notMem_empty m)

/-! ## Sets that were found -/

/-- The state after the lookups of some keys. -/
def afterLookups (env : Env) (keys : List Bytes) (w : World) : World :=
  keys.foldl (fun w key => afterLookup env key w) w

/-- One of the lookups of some keys is of this key, and does not find it. -/
def loses (env : Env) (key : Bytes) : List Bytes → World → Bool
  | [], _ => false
  | k :: keys, w =>
    (decide (k = key) && (live env key w).isNone) || loses env key keys (afterLookup env k w)

/-- A set that a lookup found. -/
structure FoundSet where
  key : Bytes
  set : Dict Bytes Unit
  /-- A later lookup of the key does not find it. -/
  lost : Bool

/-- The sets that the lookups of some keys find. -/
def foundBy (env : Env) : List Bytes → World → List FoundSet
  | [], _ => []
  | key :: keys, w =>
    ((typedAt env setKind key w).toList.map fun s =>
      ⟨key, s, loses env key keys (afterLookup env key w)⟩) ++
      foundBy env keys (afterLookup env key w)

/-- The pointers to the sets. -/
def pointers (fs : List FoundSet) : List Handle := fs.map fun f => some f.key

/-- The sets that are not lost are what was found, and the others are gone. -/
def Standing (fs : List FoundSet) (w : World) : Prop :=
  ∀ f ∈ fs, if f.lost then Absent f.key w else At setKind f.key (· = f.set) w

variable {key : Bytes} {keys : List Bytes} {fs part : List FoundSet} {f : FoundSet}

/-- A lookup leaves an absent key absent. -/
theorem absent_afterLookup (env : Env) (key' : Bytes) (h : Absent key w) :
    Absent key (afterLookup env key' w) := by
  unfold Absent
  by_contra hne
  obtain ⟨e, he⟩ := Option.ne_none_iff_exists'.1 hne
  have hbefore := Database.within_lookup w.db w.cs.dbIndex key' (env.nowMs w.tick) _ _ _ he
  cases h.symm.trans hbefore

/-- Any number of lookups leave an absent key absent. -/
theorem absent_afterLookups (env : Env) (keys : List Bytes) (h : Absent key w) :
    Absent key (afterLookups env keys w) := by
  induction keys generalizing w with
  | nil => exact h
  | cons k keys ih => exact ih (absent_afterLookup env k h)

/-- After the lookups a set is where it was, unless one of them lost it. -/
theorem at_afterLookups {s : Dict Bytes Unit} (h : At setKind key (· = s) w) :
    if loses env key keys w then Absent key (afterLookups env keys w)
    else At setKind key (· = s) (afterLookups env keys w) := by
  induction keys generalizing w with
  | nil => exact h
  | cons k keys ih =>
    rw [loses]
    by_cases hk : k = key
    · subst hk
      rw [decide_eq_true rfl, Bool.true_and]
      cases hlive : live env k w with
      | none => exact absent_afterLookups env keys (lookup_of_not_live hlive)
      | some e =>
        obtain ⟨e', t, hentry, ht⟩ := h
        refine ih ⟨e', t, ?_, ht⟩
        rw [(lookup_of_live hlive).2]
        exact hentry
    · rw [decide_eq_false hk, Bool.false_and, Bool.false_or]
      exact ih (h.afterLookup_of_ne env (Ne.symm hk))

/-- The sets found by the lookups stand as `FoundSet` says once all of them are made. -/
theorem standing_foundBy (env : Env) (keys : List Bytes) (w : World) :
    Standing (foundBy env keys w) (afterLookups env keys w) := by
  induction keys generalizing w with
  | nil => exact nofun
  | cons key keys ih =>
    intro f hf
    rcases mem_append.1 hf with hf | hf
    · obtain ⟨s, hs, rfl⟩ := mem_map.1 hf
      exact at_afterLookups (at_of_typedAt (Option.mem_toList.1 hs))
    · exact ih (afterLookup env key w) f hf

/-! ## Reading the sets -/

/-- In the world `w`, `m` reads the value `a`, unless it goes through a pointer to an entry that is
gone. -/
def Yields {α : Type} (w : World) (m : M α) (gone : Bool) (a : α) : Prop :=
  m w = if gone then .error .danglingHandle else .ok (a, w)

namespace Yields

variable {α β : Type} {m : M α} {g : α → M β} {gone gone' : Bool} {a : α} {b : β}
  {s : LookupResult × Dict Bytes Unit}

/-- A value is yielded as it is. -/
theorem pure (w : World) (a : α) : Yields w (Pure.pure a : M α) false a := rfl

/-- A sequence dangles if one of its parts does. -/
theorem bind (hm : Yields w m gone a) (hg : Yields w (g a) gone' b) :
    Yields w (m >>= g) (gone || gone') b := by
  unfold Yields at *
  rw [bind_apply, hm]
  cases gone with
  | true => rfl
  | false => exact hg

/-- What is read is handed on. -/
theorem map (hm : Yields w m gone a) (g : α → β) :
    Yields w (m >>= fun a => Pure.pure (g a)) gone (g a) := by
  have hbind := hm.bind (g := fun a => Pure.pure (g a)) (.pure w (g a))
  rwa [Bool.or_false] at hbind

end Yields

/-- Dereferencing the pointer to a found set gives that set, or dangles if it was lost. -/
theorem yields_deref (h : Standing fs w) (hf : f ∈ fs) :
    Yields w (deref setKind (some f.key)) f.lost f.set := by
  have hstanding := h f hf
  unfold Yields
  cases hlost : f.lost with
  | true =>
    rw [hlost] at hstanding
    exact deref_of_absent setKind hstanding
  | false =>
    rw [hlost] at hstanding
    obtain ⟨e, s, hentry, hvalue, rfl⟩ := hstanding
    have hstores : Stores setKind f.key e f.set w := ⟨hentry, hvalue⟩
    have hread := hstores.deref_bind Pure.pure
    rw [bind_pure] at hread
    exact hread

/-- The members of a set. -/
def members (s : Dict Bytes Unit) : List Bytes := s.toList.map Prod.fst

/-- `membersOf` lists the members of all the sets and dangles if one of them was lost. -/
theorem yields_membersOf (h : Standing fs w) (hpart : ∀ f ∈ part, f ∈ fs) :
    Yields w (membersOf (pointers part)) (part.any FoundSet.lost)
      (part.flatMap fun f => members f.set) := by
  induction part with
  | nil => exact .pure w _
  | cons f part ih =>
    exact (yields_deref h (hpart f mem_cons_self)).bind
      ((ih fun f hf => hpart f (mem_cons_of_mem _ hf)).map (members f.set ++ ·))

/-- A search through some sets, which ends at the first one with a property, reads a set that is
lost. -/
def strays (stop : Dict Bytes Unit → Bool) : List FoundSet → Bool
  | [] => false
  | f :: fs => f.lost || (!stop f.set && strays stop fs)

/-- `inAll` dangles on a lost set it comes to before one without the member. -/
theorem yields_inAll (h : Standing fs w) (hpart : ∀ f ∈ part, f ∈ fs) (m : Bytes) :
    Yields w (inAll m (pointers part)) (strays (fun s => decide (m ∉ s)) part)
      (part.all fun f => decide (m ∈ f.set)) := by
  induction part with
  | nil => exact .pure w _
  | cons f part ih =>
    refine (yields_deref h (hpart f mem_cons_self)).bind ?_
    rw [all_cons]
    dsimp only
    by_cases hmem : m ∈ f.set
    · rw [if_pos hmem, decide_eq_true hmem, decide_eq_false (not_not.2 hmem), Bool.not_false,
        Bool.true_and, Bool.true_and]
      exact ih fun f hf => hpart f (mem_cons_of_mem _ hf)
    · rw [if_neg hmem, decide_eq_false hmem, decide_eq_true hmem]
      exact .pure w _

/-- `inAny` dangles on a lost set it comes to before one with the member. -/
theorem yields_inAny (h : Standing fs w) (hpart : ∀ f ∈ part, f ∈ fs) (m : Bytes) :
    Yields w (inAny m (pointers part)) (strays (fun s => decide (m ∈ s)) part)
      (part.any fun f => decide (m ∈ f.set)) := by
  induction part with
  | nil => exact .pure w _
  | cons f part ih =>
    refine (yields_deref h (hpart f mem_cons_self)).bind ?_
    rw [any_cons]
    dsimp only
    by_cases hmem : m ∈ f.set
    · rw [if_pos hmem, decide_eq_true hmem]
      exact .pure w _
    · rw [if_neg hmem, decide_eq_false hmem, Bool.not_false, Bool.true_and, Bool.false_or]
      exact ih fun f hf => hpart f (mem_cons_of_mem _ hf)

/-- The filter dangles as soon as the test dangles for one of the members. -/
theorem yields_filterMembers {test : Bytes → M Bool} {gone p : Bytes → Bool}
    (htest : ∀ m, Yields w (test m) (gone m) (p m)) (ms : List Bytes) :
    Yields w (filterMembers test ms) (ms.any gone) (ms.filter p) := by
  induction ms with
  | nil => exact .pure w _
  | cons m ms ih =>
    rw [any_cons, filter_cons]
    exact (htest m).bind (ih.map fun rest => if p m then m :: rest else rest)

/-- The operation reads a set that is lost. -/
def dangles (op : SetOp) : List FoundSet → Bool
  | [] => false
  | f :: fs => f.lost || match op with
    | .union => fs.any FoundSet.lost
    | .inter => (members f.set).any fun m => strays (fun s => decide (m ∉ s)) fs
    | .diff => (members f.set).any fun m => strays (fun s => decide (m ∈ s)) fs

/-- What is computed from the sets that were found. -/
theorem yields_combine (h : Standing (f :: fs) w) : ∃ res,
    Yields w (combine op (some f.key) (pointers fs)) (dangles op (f :: fs)) res ∧
      ∀ m, m ∈ res ↔ inResult op ((f :: fs).map FoundSet.set) m = true := by
  have hpart : ∀ f' ∈ fs, f' ∈ f :: fs := fun f' hf' => mem_cons_of_mem _ hf'
  have hbase := yields_deref h (mem_cons_self (l := fs) (a := f))
  cases op with
  | union =>
    have hrest := (yields_membersOf h hpart).map fun rest => setOf (members f.set ++ rest)
    refine ⟨_, hbase.bind hrest, fun m => ?_⟩
    have hmems : (∃ f' ∈ fs, m ∈ members f'.set) ↔
        (fs.map FoundSet.set).any (fun s => decide (m ∈ s)) = true := by
      simp only [members, ← Dict.mem_iff_mem_toList, any_map, any_eq_true,
        Function.comp_apply, decide_eq_true_iff]
    rw [mem_setOf, mem_append, mem_flatMap, hmems, members, ← Dict.mem_iff_mem_toList,
      inResult, map_cons, any_cons, Bool.or_eq_true, decide_eq_true_iff]
  | inter =>
    have hrest := (yields_filterMembers (yields_inAll h hpart) (members f.set)).map setOf
    refine ⟨_, hbase.bind hrest, fun m => ?_⟩
    rw [mem_setOf, mem_filter, members, ← Dict.mem_iff_mem_toList, inResult, map_cons, isEmpty_cons,
      Bool.not_false, Bool.true_and, all_cons, Bool.and_eq_true, decide_eq_true_iff, all_map]
    rfl
  | diff =>
    have hrest := (yields_filterMembers (fun m => (yields_inAny h hpart m).map not)
      (members f.set)).map setOf
    refine ⟨_, hbase.bind hrest, fun m => ?_⟩
    rw [mem_setOf, mem_filter, members, ← Dict.mem_iff_mem_toList, map_cons, inResult,
      Bool.and_eq_true, decide_eq_true_iff, any_map]
    rfl

/-! ## The lookups -/

/-- A lookup that does not find a set points at none. -/
theorem typedAt_of_probe (h : probe env .kSet key w ≠ .found) : typedAt env setKind key w = none :=
  typedAt_of_not_found (k := setKind) h

/-- The error for a value of another type. -/
def wrongType : Resp.Reply :=
  .error (bytes "WRONGTYPE Operation against a key holding the wrong kind of value")

/-- What is found ends the evaluation, or a pointer to it is kept. -/
theorem evalSetOpOne_eq (hi : i < argv.length) (ps : List Handle) :
    evalSetOpOne env argv op i ps w =
      if stops op (probe env .kSet (argv.getD i []) w,
        (typedAt env setKind (argv.getD i []) w).getD ∅) then
        if probe env .kSet (argv.getD i []) w = .wrongType then
          .ok (.stop none, replied wrongType (afterLookup env (argv.getD i []) w))
        else .ok (.stop (some ∅), afterLookup env (argv.getD i []) w)
      else .ok (.next (i + 1) (ps ++ (typedAt env setKind (argv.getD i []) w).toList.map
        fun _ => some (argv.getD i [])), afterLookup env (argv.getD i []) w) := by
  have hkind : setKind.type = .kSet := rfl
  unfold evalSetOpOne
  rw [arg_bind hi, bind_apply, getTyped_eq, ok_bind, hkind]
  cases hprobe : probe env .kSet (argv.getD i []) w with
  | wrongType =>
    rw [if_pos rfl]
    dsimp only
    unfold errWrongType
    rw [bind_apply, replyError_eq, ok_bind]
    rfl
  | missing =>
    rw [typedAt_of_probe (hprobe.trans_ne nofun), Option.toList_none, map_nil, append_nil]
    cases op <;> rfl
  | found =>
    obtain ⟨s, hs⟩ := exists_typedAt (k := setKind) hprobe
    rw [hs]
    cases op <;> rfl

/-- All keys are looked up. -/
theorem evalLoop_go (n i : ℕ) (ps : List Handle) (w : World) (hn : argv.length ≤ n + i)
    (hgo : (sources env (argv.drop i) w).find? (stops op) = none) :
    ∃ j, argLoop argv (evalSetOpOne env argv op) n i ps w =
      .ok (.next j (ps ++ pointers (foundBy env (argv.drop i) w)),
        afterLookups env (argv.drop i) w) := by
  induction n generalizing i ps w with
  | zero =>
    rw [drop_eq_nil_of_le (by omega)]
    exact ⟨i, by rw [foundBy, pointers, map_nil, append_nil]; rfl⟩
  | succ n ih =>
    unfold argLoop
    by_cases hi : i < argv.length
    · rw [drop_eq_cons hi, sources, find?_eq_none, forall_mem_cons] at hgo
      rw [if_pos hi, bind_apply, evalSetOpOne_eq hi, if_neg hgo.1, ok_bind]
      obtain ⟨j, hj⟩ := ih (i + 1) (ps ++ (typedAt env setKind (argv.getD i []) w).toList.map
        fun _ => some (argv.getD i [])) _ (by omega) (find?_eq_none.2 hgo.2)
      refine ⟨j, hj.trans ?_⟩
      rw [drop_eq_cons hi, foundBy, pointers, pointers, map_append, map_map, append_assoc]
      rfl
    · rw [if_neg hi, drop_eq_nil_of_le (by omega)]
      exact ⟨i, by rw [foundBy, pointers, map_nil, append_nil]; rfl⟩

/-- The lookups end at the first one whose result ends the evaluation. -/
theorem evalLoop_stop (n i : ℕ) (ps : List Handle) (w : World) (hn : argv.length ≤ n + i)
    (hstop : (sources env (argv.drop i) w).find? (stops op) = some s) :
    ∃ keys, argLoop argv (evalSetOpOne env argv op) n i ps w =
      if s.1 = .wrongType then .ok (.stop none, replied wrongType (afterLookups env keys w))
      else .ok (.stop (some ∅), afterLookups env keys w) := by
  induction n generalizing i ps w with
  | zero =>
    rw [drop_eq_nil_of_le (by omega)] at hstop
    cases hstop
  | succ n ih =>
    unfold argLoop
    by_cases hi : i < argv.length
    · rw [drop_eq_cons hi, sources] at hstop
      rw [if_pos hi, bind_apply, evalSetOpOne_eq hi]
      rw [find?_cons] at hstop
      split at hstop
      · next hfirst =>
        cases hstop
        refine ⟨[argv.getD i []], ?_⟩
        rw [if_pos hfirst]
        split_ifs <;> rfl
      · next hfirst =>
        rw [if_neg (ne_true_of_eq_false hfirst)]
        obtain ⟨keys, hkeys⟩ := ih (i + 1) _ _ (by omega) hstop
        exact ⟨argv.getD i [] :: keys, hkeys⟩
    · rw [drop_eq_nil_of_le (by omega)] at hstop
      cases hstop

/-- The sets among the sources are those the lookups found. -/
theorem foundSets_eq (env : Env) (keys : List Bytes) (w : World) :
    foundSets (sources env keys w) = (foundBy env keys w).map FoundSet.set := by
  induction keys generalizing w with
  | nil => rfl
  | cons key keys ih =>
    have hrest := ih (afterLookup env key w)
    unfold foundSets at hrest ⊢
    rw [sources, foundBy, map_append, map_map, ← hrest]
    by_cases hprobe : probe env .kSet key w = .found
    · obtain ⟨s, hs⟩ := exists_typedAt (k := setKind) hprobe
      rw [filter_cons, if_pos (decide_eq_true hprobe), hs]
      rfl
    · rw [filter_cons, if_neg (fun h => hprobe (of_decide_eq_true h)), typedAt_of_probe hprobe]
      rfl

/-! ## The evaluation -/

/-- If no result of a lookup ends the evaluation, it reads the sets that were found. -/
theorem evalSetOp_go
    (hgo : (sources env (argv.drop skip) w).find? (stops op) = none) :
    ∃ res, (∀ m, m ∈ res ↔ inResult op (foundSets (sources env (argv.drop skip) w)) m = true) ∧
      evalSetOp env argv skip op w =
        if dangles op (foundBy env (argv.drop skip) w) then .error .danglingHandle
        else .ok (some res, afterLookups env (argv.drop skip) w) := by
  obtain ⟨j, hj⟩ := evalLoop_go argv.length skip [] w (Nat.le_add_right _ _) hgo
  have hstanding := standing_foundBy env (argv.drop skip) w
  rw [foundSets_eq]
  unfold evalSetOp
  rw [bind_apply, hj, ok_bind, nil_append]
  generalize foundBy env (argv.drop skip) w = fs at hstanding
  generalize afterLookups env (argv.drop skip) w = w₁ at hstanding
  cases fs with
  | nil =>
    refine ⟨∅, fun m => ⟨fun hm => absurd hm (AList.notMem_empty m), fun hm => ?_⟩, rfl⟩
    cases op <;> cases hm
  | cons f fs =>
    obtain ⟨res, hres, hmem⟩ := yields_combine hstanding
    exact ⟨res, hmem, hres.map some⟩

/-- A result of a lookup ends the evaluation. -/
theorem evalSetOp_stop
    (hstop : (sources env (argv.drop skip) w).find? (stops op) = some s) :
    ∃ keys, evalSetOp env argv skip op w =
      if s.1 = .wrongType then .ok (none, replied wrongType (afterLookups env keys w))
      else .ok (some ∅, afterLookups env keys w) := by
  obtain ⟨keys, hkeys⟩ := evalLoop_stop argv.length skip [] w (Nat.le_add_right _ _) hstop
  refine ⟨keys, ?_⟩
  unfold evalSetOp
  rw [bind_apply, hkeys]
  split_ifs <;> rfl

/-- The result is a function of what the lookups find. -/
theorem evalSetOp_evaluates (env : Env) (argv : Args) (op : SetOp) (skip : ℕ) (w₀ : World) :
    Leads (· = w₀) (evalSetOp env argv skip op)
      fun r _ => Evaluates op (sources env (argv.drop skip) w₀) r := by
  refine Triple.intro fun w hw => ?_
  subst hw
  unfold Evaluates
  cases hfind : (sources env (argv.drop skip) w).find? (stops op) with
  | some s =>
    obtain ⟨keys, hkeys⟩ := evalSetOp_stop hfind
    rw [hkeys]
    split_ifs with hwrong
    · exact (if_pos hwrong).symm
    · exact (if_neg hwrong).symm
  | none =>
    obtain ⟨res, hmem, hres⟩ := evalSetOp_go hfind
    rw [hres]
    split_ifs
    · trivial
    · exact ⟨res, rfl, hmem⟩

end TinyRedis.Commands

import TinyRedis.Commands.Rules.Lists

/-!
# Set commands obey the rules
-/

namespace TinyRedis.Commands

open Lib Resp

variable {r : Rules} {p : Phase} {argv : Args} {key src dst : Bytes} {ps : List Handle} {m : Bytes}
  {d : Handle} {op : SetOp} {n : ℕ} {s : Dict Bytes Unit} {count : ℤ}

/-! ## Reading -/

/-- `SMEMBERS`. -/
theorem obeys_smembers (h : r.Serves argv 2) : Obeys r .start (smembers r.env argv) Finished :=
  h.look (fun _ => .done (utters_replyBulkArray _)) fun _ _ =>
    .deref Phase.mem_hold fun _ _ => .done (utters_replyBulkArray _)

/-- `SISMEMBER`. -/
theorem obeys_sismember (h : r.Serves argv 3) : Obeys r .start (sismember r.env argv) Finished :=
  h.look (fun _ => .done (utters_replyInt 0)) fun _ _ =>
    .deref Phase.mem_hold fun _ _ => h.arg fun _ _ => .done (utters_replyInt _)

/-- `SCARD`. -/
theorem obeys_scard (h : r.Serves argv 2) : Obeys r .start (scard r.env argv) Finished :=
  h.look (fun _ => .done (utters_replyInt 0)) fun _ _ =>
    .deref Phase.mem_hold fun _ _ => .done (utters_replyInt _)

/-! ## Random members -/

/-- A member is drawn from the elements as they are iterated over. -/
theorem idle_randomMember (env : Env) (s : Dict Bytes Unit) :
    Idle (randomMember env s) fun _ => True := by
  refine .bind (idle_iterate env _) fun items _ => .bind (idle_randomBelow env _) fun i _ => ?_
  cases items[i]? with
  | none => exact .fault trivial
  | some kv => exact .pure trivial

/-- Members are drawn one after the other. -/
theorem idle_randomMembers (env : Env) (s : Dict Bytes Unit) (n : ℕ) :
    Idle (randomMembers env s n) fun _ => True := by
  induction n with
  | zero => exact .pure trivial
  | succ n ih =>
    exact .bind (idle_randomMember env s) fun _ _ => .bind ih fun _ _ => .pure trivial

/-- `SRANDMEMBER` on a set with members. -/
theorem obeys_srandmemberBody (hp : p.stage = .clean) (ha : p.answer = .none) :
    Obeys r p (srandmemberBody r.env argv count s) Finished := by
  have hp := Phase.settled hp
  refine .ite (fun _ => .idle (idle_randomMember _ s) hp fun m _ => ?_) fun _ => ?_
  · exact .finish (utters_replyBulk m) ha
  refine .ite (fun _ => ?_) fun _ => ?_
  · refine .idle (idle_iterate _ _) hp fun items _ => .idle (idle_iterate _ _) hp fun pool _ => ?_
    exact .finish (utters_replyBulkArray _) ha
  · refine .checked (.idle (idle_randomMembers _ s _) hp fun items _ => ?_)
    exact .finish (utters_replyBulkArray _) ha

/-- `SRANDMEMBER`. -/
theorem obeys_srandmember (h : r.Serves argv 2) :
    Obeys r .start (srandmember r.env argv) Finished := by
  refine h.read fun _ p st d _ hp ha hst => .argIf (fun hlen => by omega) fun s => ?_
  dsimp only
  split
  · exact h.failAt fails_errNotInt hp ha
  · next count _ =>
    have hempty : Obeys r p (if count < 0 ∨ argv.length = 2 then replyNullBulk
        else replyEmptyArray) Finished :=
      .ite (fun _ => .finish utters_replyNullBulk ha) fun _ => .finish utters_replyEmptyArray ha
    rcases hst with ⟨-, rfl, rfl⟩ | ⟨key, hkey, rfl, rfl⟩
    · exact hempty
    · exact .deref hkey fun s _ => .ite (fun _ => hempty) fun _ => obeys_srandmemberBody hp ha

section

variable (hV : ∀ s, r.values (.set s))
include hV

/-! ## Members -/

/-- The loop of `SADD`. -/
theorem obeys_saddLoop (ho : r.Owns key p) :
    Obeys r p (forArgs argv 1 (saddOne argv (some key)) 2 0) fun _ p' => p'.answer = .none := by
  refine (Obeys.forArgs (I := fun _ _ => r.Owns key) Nat.one_pos ?_ 2 0 ho).imp
    fun _ p' ⟨_, _, ho⟩ => ho.answer
  rintro i n p hi ho
  refine .argLt hi fun m _ => .deref ho.held fun s _ => .ite (fun _ => .pure ho) fun _ => ?_
  exact ho.store (hV _) (.pure ho.write)

/-- `SADD`. -/
theorem obeys_sadd (h : r.Serves argv 3) (hw : r.writes = true) (hst : r.Creates .kSet argv) :
    Obeys r .fresh (sadd r.env argv) Finished :=
  h.create hw hst (hV _) (fun _ => rfl) fun _ _ ho _ =>
    (obeys_saddLoop hV ho).bind fun _ _ ha => .finish (utters_replyInt _) ha

/-- `SREM`. -/
theorem obeys_srem (h : r.Serves argv 3) (hw : r.writes = true) (hnull : r.Misses .kSet argv)
    (hst : r.Modifies .kSet argv) : Obeys r .fresh (srem r.env argv) Finished :=
  h.removeArgs (f := fun _ => sremOne argv) hw hnull hst
    (fun _ _ _ hnull _ => .deref_null hnull) fun _ _ _ _ hi ho =>
      .deref ho.held fun _ _ => .argLt hi fun _ _ => ho.store (hV _) (.pure ho.write)

/-- Members are taken out one after the other. -/
theorem obeys_spopMany (ho : r.Owns key p) (n : ℕ) :
    Obeys r p (spopMany r.env (some key) n) fun _ p' => p'.answer = .none := by
  induction n generalizing p with
  | zero => exact .pure ho.answer
  | succ n ih =>
    refine .deref ho.held fun s _ => .idle (idle_randomMember _ s) ho.may.settled fun m _ => ?_
    exact ho.store (hV _) ((ih ho.write).bind fun _ _ ha => .pure ha)

/-- `SPOP` on a set with members. -/
theorem obeys_spopBody (ho : r.Owns key p) :
    Obeys r p (spopBody r.env count (some key) s) Finished := by
  refine .ite (fun _ => .idle (idle_randomMember _ s) ho.may.settled fun m _ => ?_) fun _ => ?_
  · exact ho.put (hV _) (utters_replyBulk m)
  refine .ite (fun _ => .finish utters_replyEmptyArray ho.answer) fun _ => ?_
  exact (obeys_spopMany hV ho _).bind fun items p ha => .finish (utters_replyBulkArray items) ha

/-- `SPOP`. -/
theorem obeys_spop (h : r.Serves argv 2) (hw : r.writes = true) (hst : r.Modifies .kSet argv) :
    Obeys r .fresh (spop r.env argv) Finished := by
  refine h.modify hw hst (fun _ => ?_) fun key _ ho => ?_
  · exact .option (obeys_countArg _) (h.fail fails_errNotInt) fun _ => .done utters_replyNullBulk
  · refine .option (obeys_countArg _) (h.fail fails_errNotInt) fun count => ?_
    refine .deref ho.held fun s _ => .ite (fun _ => .done utters_replyNullBulk) fun _ => ?_
    exact obeys_spopBody hV ho

/-! ## Between sets -/

/-- A member goes from the source to the destination. -/
theorem obeys_moveMember (hs : r.Owns src p) (hd : r.Owns dst p) :
    Obeys r p (moveMember m (some src) (some dst)) Finished :=
  .deref hs.held fun _ _ => hs.store (hV _) (.deref hd.held fun _ _ =>
    hd.write.put (hV _) (utters_replyInt 1))

/-- The rules do not say that the destination is still missing when it is created. -/
theorem obeys_smoveBody (h : r.Serves argv 4) (hnull : r.faults .nullHandle) (hdst : dst ∈ r.keys)
    (hs : r.Owns src p) (hclean : p.stage = .clean) {st : LookupResult}
    (hd : (st = .missing ∧ d = none) ∨ (r.Owns dst p ∧ st = .found ∧ d = some dst)) :
    Obeys r p (smoveBody r.env argv src dst .found (some src) st d) Finished := by
  refine .deref hs.held fun s _ => h.arg fun m _ => ?_
  refine .ite (fun _ => .finish (utters_replyInt 0) hs.answer) fun _ => ?_
  refine .ite (fun _ => .finish (utters_replyInt 1) hs.answer) fun _ => ?_
  rcases hd with ⟨rfl, rfl⟩ | ⟨hd, rfl, rfl⟩
  · refine hs.createBeside hclean hdst (hV _) ?_ fun _ => obeys_moveMember hV
    exact .deref hs.held fun _ _ =>
      .store hs.held hs.may.looked hs.stores (hV _) (.deref_null hnull)
  · exact obeys_moveMember hV hs hd

/-- `SMOVE`. -/
theorem obeys_smove (h : r.Serves argv 4) (hw : r.writes = true) (hnull : r.faults .nullHandle)
    (hst : r.Modifies .kSet argv) : Obeys r .fresh (smove r.env argv) Finished := by
  have hzero : ∀ p : Phase, p.answer = .none → Obeys r p (replyInt 0) Finished :=
    fun p ha => .finish (utters_replyInt 0) ha
  refine h.modify hw hst (fun _ => h.arg fun dst hd => ?_) fun src hs ho => h.arg fun dst hd => ?_
  · exact .withTyped h.lines (h.keys 1 dst hd) (.inl rfl) rfl (fun _ => hzero _ rfl)
      fun _ => hzero _ rfl
  · refine .withTyped h.lines (h.keys 1 dst hd) (.inl rfl) rfl (fun _ => ?_) fun _ => ?_
    · exact obeys_smoveBody hV h hnull (h.keys 1 dst hd) ho rfl (.inl ⟨rfl, rfl⟩)
    · exact obeys_smoveBody hV h hnull (h.keys 1 dst hd) ho.hold rfl
        (.inr ⟨ho.beside, rfl, rfl⟩)

end

/-! ## Combinations of sets -/

/-- All pointers point to keys that were found. -/
def AllHeld (p : Phase) (ps : List Handle) : Prop := ∀ d ∈ ps, ∃ key ∈ p.held, d = some key

/-- The pointers after the first. -/
theorem AllHeld.tail (h : AllHeld p (d :: ps)) : AllHeld p ps :=
  fun d' hd' => h d' (List.mem_cons_of_mem _ hd')

/-- The set of the first pointer. -/
theorem AllHeld.deref_head {β : Type} {Q : β → Phase → Prop} {f : Dict Bytes Unit → M β}
    (h : AllHeld p (d :: ps)) (hf : ∀ s, Obeys r p (f s) Q) :
    Obeys r p (deref setKind d >>= f) Q := by
  obtain ⟨key, hkey, rfl⟩ := h d List.mem_cons_self
  exact .deref hkey fun s _ => hf s

/-- The members of all sets. -/
theorem obeys_membersOf (h : AllHeld p ps) : Obeys r p (membersOf ps) fun _ p' => p' = p := by
  induction ps with
  | nil => exact .pure rfl
  | cons d ps ih => exact h.deref_head fun s => (ih h.tail).bind fun _ _ hp => .pure hp

/-- Whether all sets have a member. -/
theorem obeys_inAll (h : AllHeld p ps) : Obeys r p (inAll m ps) fun _ p' => p' = p := by
  induction ps with
  | nil => exact .pure rfl
  | cons d ps ih => exact h.deref_head fun s => .ite (fun _ => ih h.tail) fun _ => .pure rfl

/-- Whether one of the sets has it. -/
theorem obeys_inAny (h : AllHeld p ps) : Obeys r p (inAny m ps) fun _ p' => p' = p := by
  induction ps with
  | nil => exact .pure rfl
  | cons d ps ih => exact h.deref_head fun s => .ite (fun _ => .pure rfl) fun _ => ih h.tail

/-- The members with a property that is found by reading. -/
theorem obeys_filterMembers {test : Bytes → M Bool}
    (htest : ∀ m, Obeys r p (test m) fun _ p' => p' = p) (ms : List Bytes) :
    Obeys r p (filterMembers test ms) fun _ p' => p' = p := by
  induction ms with
  | nil => exact .pure rfl
  | cons m ms ih =>
    refine (htest m).bind fun b p' hp => ?_
    subst hp
    exact ih.bind fun _ _ hp => .pure hp

/-- The sets are only read. -/
theorem obeys_combine {base : Handle} {others : List Handle} (h : AllHeld p (base :: others)) :
    Obeys r p (combine op base others) fun _ p' => p' = p := by
  refine h.deref_head fun s => ?_
  cases op with
  | union => exact (obeys_membersOf h.tail).bind fun _ _ hp => .pure hp
  | inter =>
    exact (obeys_filterMembers (fun m => obeys_inAll h.tail) _).bind fun _ _ hp => .pure hp
  | diff =>
    refine (obeys_filterMembers (fun m => ?_) _).bind fun _ _ hp => .pure hp
    exact (obeys_inAny h.tail).bind fun _ _ hp => .pure hp

/-- How `EvalSetOp` ends: with an error, or with nothing but lookups. -/
def SetOpEnds (o : Option (Dict Bytes Unit)) (p : Phase) : Prop :=
  (o = none ∧ p.answer = .failed) ∨ (o.isSome ∧ p.stage = .clean ∧ p.answer = .none)

/-- The lookup of one of the sets. -/
theorem obeys_evalSetOpOne (h : r.Serves argv n) {i : ℕ} (hlt : i < argv.length) (hi : 1 ≤ i)
    (hp : p.stage = .clean) (ha : p.answer = .none) (hps : AllHeld p ps) :
    Obeys r p (evalSetOpOne r.env argv op i ps) (Step.Ends (fun j ps p =>
      i < j ∧ 1 ≤ j ∧ p.stage = .clean ∧ p.answer = .none ∧ AllHeld p ps) SetOpEnds) := by
  refine .argLt hlt fun key hkey => ?_
  refine .getTyped (h.key hi hkey) (.inl hp) (fun _ => ?_) ?_ fun _ => ?_
  · refine .ite (fun _ => .pure (.inr ⟨rfl, rfl, ha⟩)) fun _ => ?_
    exact .pure ⟨by omega, by omega, rfl, ha, hps⟩
  · exact .fails fails_errWrongType h.lines (.inl rfl) ha (.pure (.inl ⟨rfl, rfl⟩))
  · refine .pure ⟨by omega, by omega, rfl, ha, fun d hd => ?_⟩
    rcases List.mem_append.1 hd with hd | hd
    · obtain ⟨key', hkey', rfl⟩ := hps d hd
      exact ⟨key', Set.mem_insert_of_mem _ hkey', rfl⟩
    · exact ⟨key, Phase.mem_hold, List.mem_singleton.1 hd⟩

/-- `EvalSetOp`. -/
theorem obeys_evalSetOp (h : r.Serves argv n) {skip : ℕ} (hskip : 1 ≤ skip) :
    Obeys r .start (evalSetOp r.env argv skip op) SetOpEnds := by
  refine (Obeys.argLoop (I := fun i ps p =>
      1 ≤ i ∧ p.stage = .clean ∧ p.answer = .none ∧ AllHeld p ps) (S := SetOpEnds)
    (fun i ps p hlt ⟨hi, hp, ha, hps⟩ => obeys_evalSetOpOne h hlt hi hp ha hps) argv.length skip []
    (by omega) ⟨hskip, rfl, rfl, fun d hd => absurd hd List.not_mem_nil⟩).bind fun s p hs => ?_
  cases s with
  | stop o => exact .pure hs
  | next i ps =>
    obtain ⟨-, -, hp, ha, hps⟩ := hs
    cases ps with
    | nil => exact .pure (.inr ⟨rfl, hp, ha⟩)
    | cons base others =>
      refine (obeys_combine hps).bind fun res p' hp' => ?_
      subst hp'
      exact .pure (.inr ⟨rfl, hp, ha⟩)

/-- `SINTER`, `SUNION` and `SDIFF`. -/
theorem obeys_cmdSetOp (h : r.Serves argv n) (op : SetOp) :
    Obeys r .start (cmdSetOp r.env argv op) Finished := by
  refine (obeys_evalSetOp h (le_refl 1)).bind fun o p ho => ?_
  rcases ho with ⟨rfl, ha⟩ | ⟨ho, -, ha⟩
  · exact .pure (.inl ha)
  · obtain ⟨res, rfl⟩ := Option.isSome_iff_exists.1 ho
    exact .finish (utters_replyBulkArray _) ha

/-- The commands that store the result. -/
theorem obeys_cmdSetOpStore (h : r.Serves argv 3) (hw : r.writes = true)
    (hV : ∀ s, r.values (.set s)) (op : SetOp) :
    Obeys r .start (cmdSetOpStore r.env argv op) Finished := by
  refine h.arg fun dst hdst => ?_
  refine (obeys_evalSetOp h (by decide)).bind fun o p ho => ?_
  rcases ho with ⟨rfl, ha⟩ | ⟨ho, hp, ha⟩
  · exact .pure (.inl ha)
  obtain ⟨res, rfl⟩ := Option.isSome_iff_exists.1 ho
  have hmay : p.MayWrite r := Phase.mayWrite_of_clean hw hp (.inl ha)
  refine (Obeys.setAndLookup (Q := fun e p => e = ⟨.set res, 0⟩ ∧ p.answer = .none)
    (h.keys 0 dst hdst) hmay (hV res) ⟨rfl, ha⟩).bind fun e p' hp' => ?_
  obtain ⟨rfl, ha⟩ := hp'
  exact .finish (utters_replyInt _) ha

end TinyRedis.Commands

import TinyRedis.Commands.Rules.Handler

/-!
# All handlers keep invariants

A command writes into a value through a pointer only as `Access.writes` says, accesses a null
pointer only as `usesNull` says, and reads past the end of `argv` only as `overrun` says.
`Invariant.runsIf_handler` says that it does nothing else that an invariant could mind. This follows
from the rules that it obeys, but for `SMOVE`, which does not look at the pointer of `SetCreate`:
this is not null, as the destination was missing right before.
-/

namespace TinyRedis.Commands

open Lib

variable {V : Value → Prop} {I : Database → Prop} {E : CommandFault → Prop} {env : Env}
  {argv : Args} {lower : Bytes} {A : LookupResult → Prop}

/-! ## `SMOVE` -/

namespace Invariant

variable (h : Invariant V I E) {c : Cmd}
include h

/-- The write, through two pointers that are not null. -/
theorem keeps_moveMember (ha : Assigns V I) (m src dst : Bytes) :
    Runs I E (moveMember m (some src) (some dst)) := by
  refine Safe.bind (h.keeps_deref_some setKind src) fun s _ => ?_
  refine Safe.bind (h.keeps_store ha setKind src (h.members _)) fun _ _ => ?_
  refine Safe.bind (h.keeps_deref_some setKind dst) fun d _ => ?_
  exact Safe.bind (h.keeps_store ha setKind dst (h.members _)) fun _ _ => keeps_emit _

/-- A destination that is missing is created. -/
theorem runsIf_smoveBody_missing (ha : Assigns V I) (hargc : 4 ≤ argv.length)
    (srcKey dstKey : Bytes) :
    RunsIf (Absent dstKey) I E
      (smoveBody env argv srcKey dstKey .found (some srcKey) .missing none) := by
  have hread : Safe (fun w => I w.db ∧ Absent dstKey w) E (deref setKind (some srcKey))
      fun s => V (setKind.put s) :=
    h.keeps_deref_of (fun _ hw => hw.1) setKind nofun
  refine hread.triple_bind fun s _ => ?_
  refine (keeps_arg hargc).triple_bind fun m _ => ?_
  refine Triple.ite (fun _ => runsIf_of_runs (keeps_emit _)) fun _ => ?_
  refine Triple.ite (fun _ => runsIf_of_runs (keeps_emit _)) fun _ => ?_
  have hcreate : RunsIf (fun w => probe env .kSet dstKey w = .missing) I E
      (setCreate env dstKey >>= fun dst => moveMember m (some srcKey) dst) :=
    h.runsIf_findOrCreate (A := (· = .missing)) setKind (h.members _) dstKey nofun fun _ _ _ =>
      h.keeps_moveMember ha m srcKey dstKey
  exact hcreate.imp (fun w hw => ⟨hw.1, probe_of_absent hw.2 _⟩) fun _ _ hw => hw

/-- A destination that is found is written to. -/
theorem keeps_smoveBody_found (ha : Assigns V I) (hargc : 4 ≤ argv.length)
    (srcKey dstKey : Bytes) :
    Runs I E (smoveBody env argv srcKey dstKey .found (some srcKey) .found (some dstKey)) := by
  refine Safe.bind (h.keeps_deref_some setKind srcKey) fun s _ => ?_
  refine Safe.bind (keeps_arg hargc) fun m _ => ?_
  refine Safe.ite (fun _ => keeps_emit _) fun _ => ?_
  exact Safe.ite (fun _ => keeps_emit _) fun _ => h.keeps_moveMember ha m srcKey dstKey

/-- `SMOVE` keeps invariants. -/
theorem keeps_smove (ha : Assigns V I) (hargc : 4 ≤ argv.length) : Runs I E (smove env argv) := by
  refine Safe.bind (keeps_arg (by omega)) fun srcKey _ => h.keeps_withTyped ?_ ?_
  · refine Safe.bind (keeps_arg (by omega)) fun dstKey _ => ?_
    have hmissing : ∀ st p, Runs I E (smoveBody env argv srcKey dstKey .missing none st p) := by
      intro st p
      unfold smoveBody
      exact keeps_emit _
    exact h.keeps_withTyped (hmissing _ _) (hmissing _ _)
  · refine Safe.bind (keeps_arg (by omega)) fun dstKey _ => ?_
    refine runs_of_runsIf (h.runsIf_withTyped_absent (A := fun _ => True) (fun _ => ?_) fun _ => ?_)
    · exact h.runsIf_smoveBody_missing ha hargc srcKey dstKey
    · exact h.keeps_smoveBody_found ha hargc srcKey dstKey

end Invariant

/-! ## Handlers -/

/-- What the first lookup finds, in the words of the rules. -/
theorem probe_eq_ofEntry (t : ValueType) (key : Bytes) (w : World) :
    probe env t key w = .ofEntry t (live env key w) := by
  unfold probe LookupResult.ofEntry
  cases live env key w with
  | none => rfl
  | some e => rfl

/-- Only `ZRANGE` looks before it reads past the end. -/
theorem overrun_of_ne (hc : c ≠ .zrange) (res res' : LookupResult) :
    overrun argv c res = overrun argv c res' := by
  unfold overrun
  split <;> first | rfl | exact absurd rfl hc

section

variable (hs : Strings V argv)
  (happend : c = .append → ∀ s, V (.rawString s) → V (.rawString (s ++ argv.getD 2 [])))
  (hargc : minArgs c ≤ argv.length) (ha : ∀ r, A r → (access c).writes r = true → Assigns V I)
  (hnull : usesNull c = true → A .missing → E .nullHandle)
  (hindex : ∀ r i, A r → overrun argv c r = some i → E (.argvIndex i))
include hs happend hargc ha hnull hindex

/-- All commands but `SMOVE` keep invariants, if they may write the values they make. -/
theorem Stable.runsIf_handler_of_shapes (h : Stable V I E)
    (hshapes : shapesValue c = true → Invariant V I E ∧ ZSetClosed V) (hsmove : c ≠ .smove) :
    RunsIf (fun w => A (probe env (keyType c) (argv.getD 1 []) w)) I E
      (handler env lower argv c) := by
  refine (h.triple_of_obeys env (P := fun _ => True) fun w hA => ?_).imp (fun _ hw => hw)
    fun _ _ hw => hw.1
  -- What the rules call the first key is the one that is probed.
  have hfirst : ∀ key res, argv[1]? = some key →
      (h.rules env fun key o => o = live env key w).Meets .fresh (keyType c) key res → A res := by
    intro key res hkey hm
    obtain ⟨o, rfl, ho⟩ := hm rfl
    rw [List.getD_eq_getElem?_getD, hkey, Option.getD_some, probe_eq_ofEntry, ho] at hA
    exact hA
  refine (obeys_handler (r := h.rules env fun key o => o = live env key w) ?_ trivial).imp
    fun _ _ _ => trivial
  refine
    { toPermits := h.permits
      strings := hs
      shapes := hshapes
      append := happend
      stores := fun key res hkey hm hw => ha res (hfirst key res hkey hm) hw
      misses := fun hc key hkey hm => hnull hc (hfirst key _ hkey hm)
      smove := fun hc => absurd hc hsmove
      reads := fun i hi hlen => absurd (hargc.trans hlen) (Nat.not_le.2 hi)
      overruns := ?_ }
  intro res i hres hi
  by_cases hc : c = .zrange
  · subst hc
    obtain ⟨key, hkey⟩ : ∃ key, argv[1]? = some key := by
      have hlen : 3 ≤ argv.length := hargc
      exact ⟨_, List.getElem?_eq_getElem (by omega)⟩
    exact hindex res i (hfirst key res hkey (hres rfl key hkey)) hi
  · rw [overrun_of_ne hc res (probe env (keyType c) (argv.getD 1 []) w)] at hi
    exact hindex _ i hA hi

/-- The commands that shape no value keep invariants that say something of values. -/
theorem Stable.runsIf_handler (h : Stable V I E) (hc : shapesValue c = false) :
    RunsIf (fun w => A (probe env (keyType c) (argv.getD 1 []) w)) I E
      (handler env lower argv c) := by
  refine h.runsIf_handler_of_shapes hs happend hargc ha hnull hindex (fun hc' => ?_) fun hc' => ?_
  · rw [hc] at hc'
    cases hc'
  · subst hc'
    cases hc

/-- All commands keep invariants that the values they make satisfy. -/
theorem Invariant.runsIf_handler (h : Invariant V I E) (hz : ZSetClosed V) :
    RunsIf (fun w => A (probe env (keyType c) (argv.getD 1 []) w)) I E
      (handler env lower argv c) := by
  by_cases hc : c = .smove
  · subst hc
    refine .of_each fun w hw => ?_
    have hrun : RunsIf (fun _ => True) I E (smove env argv) :=
      runsIf_of_runs (h.keeps_smove (ha _ hw.2 rfl) hargc)
    refine hrun.weaken fun w' hw' => ?_
    subst hw'
    exact ⟨hw.1, trivial⟩
  · exact h.toStable.runsIf_handler_of_shapes hs happend hargc ha hnull hindex
      (fun _ => ⟨h, hz⟩) hc

end

end TinyRedis.Commands

import TinyRedis.Commands.Filled.Lists
import TinyRedis.Commands.SetOps

/-!
# Sets with a member

`SREM`, `SPOP`, and a move to another set leave an empty set if they take all members, and the
operations that store their result do so if it is empty.
-/

namespace TinyRedis.Commands

open Lib

variable {env : Env} {argv : Args} {key src dst : Bytes} {s : Dict Bytes Unit}

/-! ## Members -/

/-- A new set has a member after the first step. -/
theorem leads_sadd (hargc : 3 ≤ argv.length) : Leads Full (sadd env argv) fun _ => Full := by
  refine leads_arg fun _ => leads_create (leads_error _) ?_
  refine leads_forArgs (fun i s => i = 2 ∨ 0 < s.size) (R := fun s => 0 < s.size) Nat.one_pos
    (fun _ _ => .inl rfl) (fun i n _ _ => ?_) (fun j s hj hs => ?_)
      fun n => leads_emit _ fun _ h => h
  · refine leads_arg fun _ => leads_deref fun s _ => Triple.ite (fun hmem => ?_) fun _ => ?_
    · refine Triple.intro fun w hw => FullAt.imp hw fun u hu => .inr ?_
      subst hu
      exact Dict.size_pos_of_mem hmem
    · exact leads_store (.inr (Dict.size_insert_pos s _ _)) (Triple.intro fun _ hw => hw)
  · rcases hs with rfl | hs
    · omega
    · exact hs

/-- A member that is not named is left. -/
theorem leads_srem :
    Leads (fun w => Full w ∧ ∀ s, typedAt env setKind (argv.getD 1 []) w = some s →
      spares argv s = true) (srem env argv) fun _ => Full :=
  leads_arg fun _ => leads_withTyped leads_eraseArgs_null fun _ hs _ =>
    leads_eraseArgs (k := setKind) (fun _ h => h) (fun s m n => if m ∈ s then n + 1 else n) hs

/-! ## Random members -/

/-- Drawing a member changes nothing. -/
theorem leads_randomMember {β : Type} {post : β → World → Prop} {P : Dict Bytes Unit → Prop}
    {f : Bytes → M β} (hf : ∀ m, Leads (FullAt setKind key P) (f m) post) :
    Leads (FullAt setKind key P) (randomMember env s >>= f) post := by
  have hdraw :
      Leads (FullAt setKind key P) (randomMember env s) fun _ => FullAt setKind key P := by
    have hitems : Leads (FullAt setKind key P) (iterate env s.toList) fun _ =>
        FullAt setKind key P := Triple.intro fun _ hw => hw
    refine hitems.bind fun items => ?_
    have hindex : Leads (FullAt setKind key P) (randomBelow env items.length) fun _ =>
        FullAt setKind key P := Triple.intro fun _ hw => hw
    refine hindex.bind fun i => ?_
    cases items[i]? with
    | none => exact Triple.intro fun _ _ => trivial
    | some kv => exact Triple.intro fun _ hw => hw
  exact hdraw.bind hf

/-- Each step takes one member. -/
theorem leads_spopMany (n : ℕ) :
    Leads (FullAt setKind key fun s => n < s.size) (spopMany env (some key) n)
      fun _ => FullAt setKind key fun s => 0 < s.size := by
  induction n with
  | zero => exact Triple.intro fun _ hw => hw
  | succ n ih =>
    refine leads_deref fun s hs => leads_randomMember fun m => ?_
    refine leads_store (Q := fun s => n < s.size) ?_
      (ih.bind fun rest => Triple.intro fun _ hw => hw)
    have hle := Dict.size_le_size_erase s m
    omega

/-- A member is left if the count is less than the size. -/
theorem leads_spopBody {count : ℤ} (hone : 1 < s.size ∨ 0 ≤ count) (hcount : count < s.size) :
    Leads (FullAt setKind key (· = s)) (spopBody env count (some key) s) fun _ => Full := by
  refine Triple.ite (fun hneg => ?_) fun hnonneg => Triple.ite (fun hzero => ?_) fun _ => ?_
  · refine leads_randomMember fun m => ?_
    have hle := Dict.size_le_size_erase s m
    exact leads_finish _ (show 0 < Dict.size (s.erase m) by omega)
  · exact leads_same _ (show 0 < s.size by omega)
  · have hmany : Leads (FullAt setKind key (· = s))
        (spopMany env (some key) (min count s.size).toNat)
        fun _ => FullAt setKind key fun s => 0 < s.size := by
      refine (leads_spopMany _).weaken fun _ hw => hw.imp fun u hu => ?_
      subst hu
      omega
    exact hmany.bind fun items => leads_emit _ fun _ h => h

/-- So it is for `SPOP`. -/
theorem leads_spop :
    Leads (fun w => Full w ∧ ∀ s, typedAt env setKind (argv.getD 1 []) w = some s →
      popCount argv < s.size) (spop env argv) fun _ => Full := by
  refine leads_arg fun _ => leads_withOption (fun _ => countArg_popCount (-1))
    (fun _ _ => ⟨_, rfl⟩) (fun _ => ⟨_, rfl⟩) fun s count hs hpos hcount =>
      leads_deref fun u hu => ?_
  subst hu
  refine Triple.ite (fun _ => leads_same _ hpos) fun _ => ?_
  rcases hcount with ⟨rfl, hone⟩ | ⟨rfl, hnonneg⟩
  · exact leads_spopBody (.inl (by omega)) (by omega)
  · exact leads_spopBody (.inr hnonneg) hs

/-! ## Between sets -/

/-- `SMOVE` leaves a member in the set from which it takes one. -/
def smoveSpares (env : Env) (argv : Args) (w : World) : Bool :=
  moveSpares env setKind (fun s => decide (argv.getD 3 [] ∉ s) || decide (2 ≤ s.size))
    (argv.getD 1 []) (argv.getD 2 []) w

/-- The set from which the member is taken has another. -/
theorem full_of_movedSets {w : World} {db : Database}
    (h : MovedSets env (argv.getD 3 []) (argv.getD 1 []) (argv.getD 2 []) w db) (hw : Full w)
    (hspares : smoveSpares env argv w = true) : AllValues Filled db := by
  refine full_of_moved h hw ?_ ?_
  · rintro s d rest _ ⟨-, -, -, rfl⟩
    show 0 < Dict.size (if _ then _ else _)
    split_ifs with hmem
    · exact Dict.size_pos_of_mem hmem
    · exact Dict.size_insert_pos d _ _
  · rintro s _ _ hne hs hdst ⟨-, hm, rfl, -⟩
    have hspare := spare_of_moveSpares (k := setKind) hspares hne hs hdst
    rw [Bool.or_eq_true, decide_eq_true_iff, decide_eq_true_iff] at hspare
    have hsize := hspare.resolve_left (not_not.2 hm)
    have hle := Dict.size_le_size_erase s (argv.getD 3 [])
    show 0 < Dict.size (s.erase _)
    omega

/-! ## Operations on sets -/

/-- The result of an operation that stores it has a member, or the operation is refused. -/
def storeSpares (env : Env) (op : SetOp) (argv : Args) (w : World) : Bool :=
  match (sources env (argv.drop 2) w).find? (stops op) with
  | some s => decide (s.1 = .wrongType)
  | none =>
    let ss := foundSets (sources env (argv.drop 2) w)
    ss.any fun s => s.toList.any fun p => inResult op ss p.1

/-- Then what is stored has a member. -/
theorem size_pos_of_evaluates {op : SetOp} {w : World} {res : Dict Bytes Unit}
    (h : storeSpares env op argv w = true)
    (hres : Evaluates op (sources env (argv.drop 2) w) (some res)) : 0 < res.size := by
  unfold storeSpares at h
  unfold Evaluates at hres
  cases hstop : (sources env (argv.drop 2) w).find? (stops op) with
  | some s =>
    rw [hstop] at h hres
    dsimp only at h hres
    rw [if_pos (of_decide_eq_true h)] at hres
    cases hres
  | none =>
    rw [hstop] at h hres
    obtain ⟨res', hsome, hmem⟩ := hres
    cases hsome
    obtain ⟨s, -, hs⟩ := List.any_eq_true.1 h
    obtain ⟨p, -, hp⟩ := List.any_eq_true.1 hs
    exact Dict.size_pos_of_mem ((hmem p.1).2 hp)

/-- `SINTERSTORE` and the like store no empty set then. -/
theorem leads_cmdSetOpStore (op : SetOp) :
    Leads (fun w => Full w ∧ storeSpares env op argv w = true) (cmdSetOpStore env argv op)
      fun _ => Full := by
  refine leads_arg fun _ => ?_
  have hfull : Leads Full (evalSetOp env argv 2 op) fun _ => Full := by
    refine leads_of_runs (stable_filled.keeps_of_obeys env fun finds => ?_)
    have hserves : (stable_filled.rules env finds).Serves argv 0 := ⟨fun _ _ _ => trivial,
      fun _ _ => trivial, strings_of_all fun _ => trivial, fun _ _ _ => trivial⟩
    exact (obeys_evalSetOp hserves (by decide)).imp fun _ _ _ => trivial
  have heval : Leads (fun w => Full w ∧ storeSpares env op argv w = true) (evalSetOp env argv 2 op)
      fun r w => Full w ∧ ∀ res, r = some res → 0 < res.size := by
    refine Triple.intro fun w hw => ?_
    have hboth := (hfull.weaken (fun w' (hw' : w' = w) => hw' ▸ hw.1)).and
      (evalSetOp_evaluates env argv op 2 w)
    refine (hboth.imp (fun _ hw' => hw') fun r w' hr => ⟨hr.1, fun res hres => ?_⟩).outcome rfl
    subst hres
    exact size_pos_of_evaluates hw.2 hr.2
  refine heval.bind fun r => leads_and fun hpos => ?_
  cases r with
  | none => exact Triple.intro fun _ hw => hw
  | some res =>
    have hfilled : Filled (.set res) := hpos res rfl
    refine leads_of_runs (Safe.bind (stable_filled.keeps_setAndLookup hfilled _) fun e he => ?_)
    subst he
    exact keeps_emit _

end TinyRedis.Commands

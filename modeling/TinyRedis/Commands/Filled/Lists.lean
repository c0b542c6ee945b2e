import TinyRedis.Commands.Filled.Basic

/-!
# Lists with an element

The pops, `LREM`, and a move to another list leave an empty list if they take all elements. `LTRIM`
deletes the key then.
-/

namespace TinyRedis.Commands

open Lib

variable {env : Env} {argv : Args} {key src dst v : Bytes} {l : List Bytes} {J : World → Prop}

/-! ## Lengths -/

/-- A push adds one element. -/
theorem length_pushEnd (left : Bool) (l : List Bytes) (v : Bytes) :
    (pushEnd left l v).length = l.length + 1 :=
  (pushEnd_perm left l v).length_eq

/-- A pop takes one. -/
theorem length_popEnd {left : Bool} {r : Bytes × List Bytes} (h : popEnd left l = some r) :
    r.2.length + 1 = l.length :=
  (popEnd_perm h).length_eq.symm

/-- At most `n` elements are taken. -/
theorem length_popMany (left : Bool) (n : ℕ) (l : List Bytes) :
    l.length ≤ (popMany left n l).2.length + n := by
  induction n generalizing l with
  | zero => exact le_rfl
  | succ n ih =>
    unfold popMany
    cases hpop : popEnd left l with
    | none => exact Nat.le_add_right _ _
    | some r =>
      have hone := length_popEnd hpop
      have hrest := ih r.2
      dsimp only
      omega

/-- The number of elements that `LREM` removes. -/
def removedCount (v : Bytes) (count : ℤ) (l : List Bytes) : ℕ :=
  if count = 0 then l.count v else min count.natAbs (l.count v)

/-- `LREM` removes no more. -/
theorem removeCount_length (v : Bytes) (count : ℤ) (l : List Bytes) :
    Safe J (fun _ => True) (removeCount v count l) fun r =>
      l.length ≤ r.1.length + removedCount v count l := by
  rw [removeCount_eq]
  unfold removedCount
  refine Safe.ite (fun h0 => Safe.pure ?_) fun h0 => ?_
  · rw [if_pos h0]
    exact (length_filter_ne v l).ge
  · rw [if_neg h0]
    refine Safe.ite (fun hpos => Safe.pure ?_) fun hneg => ?_
    · rw [show count.natAbs = count.toNat by omega]
      exact (removesFirst_removeFirst v count.toNat l).length_eq.ge
    · refine Safe.bind stable_filled.keeps_checked_eq fun n hn => Safe.pure ?_
      rw [show count.natAbs = n.toNat by omega]
      exact (removesLast_removeLast v n.toNat l).length_eq.ge

/-! ## Ends of a list -/

/-- A new list has an element after the first step. -/
theorem leads_cmdPush (left : Bool) (hargc : 3 ≤ argv.length) :
    Leads Full (cmdPush env argv left) fun _ => Full := by
  refine leads_arg fun _ => leads_create (leads_error _) ?_
  refine leads_forArgs (fun i l => i = 2 ∨ 0 < l.length) (R := fun l => 0 < l.length) Nat.one_pos
    (fun _ _ => .inl rfl) (fun i u _ _ => ?_) (fun j l hj hl => ?_) fun _ => ?_
  · refine leads_arg fun _ => leads_deref fun l _ => ?_
    rw [← bind_pure (store _ _ _)]
    refine leads_store (.inr ?_) (Triple.intro fun _ hw => hw)
    rw [length_pushEnd]
    exact Nat.succ_pos _
  · rcases hl with rfl | hl
    · omega
    · exact hl
  · exact leads_deref fun l hl => leads_emit _ fun l' hl' => hl' ▸ hl

/-- The count of a pop, which is 1 if there is none. A text that is no number is an error. -/
def popCount (argv : Args) : ℤ :=
  if argv.length = 3 then (parseIntStrict (argv.getD 2 [])).getD 0 else 1

/-- What a pop reads as its count. -/
theorem countArg_popCount (default : ℤ) :
    Safe J (fun _ => True) (countArg argv default) fun r => ∀ n, r = some n →
      (n = default ∧ popCount argv = 1) ∨ (n = popCount argv ∧ 0 ≤ n) := by
  unfold countArg popCount
  refine Safe.ite (fun hlen => ?_) fun hlen => Safe.pure fun n hn => ?_
  · rw [if_pos hlen, arg_bind (by omega)]
    cases parseIntStrict (argv.getD 2 []) with
    | none => exact Safe.pure nofun
    | some count =>
      refine Safe.pure fun n hn => ?_
      split_ifs at hn with hneg
      cases hn
      exact .inr ⟨rfl, Int.not_lt.1 hneg⟩
  · cases hn
    rw [if_neg hlen]
    exact .inl ⟨rfl, rfl⟩

/-- An element is left if the count is less than the length. -/
theorem leads_popBody (left : Bool) {count : ℤ} (hone : 1 < l.length ∨ 0 ≤ count)
    (hcount : count < l.length) :
    Leads (FullAt listKind key (· = l)) (popBody left count (some key) l) fun _ => Full := by
  refine Triple.ite (fun hneg => ?_) fun hnonneg => ?_
  · cases hpop : popEnd left l with
    | none => exact Triple.intro fun _ _ => trivial
    | some r =>
      have hlen := length_popEnd hpop
      exact leads_finish _ (show 0 < r.2.length by omega)
  · have hlen := length_popMany left (min count l.length).toNat l
    refine leads_store (Q := fun l => 0 < l.length) ?_ ?_
    · omega
    · exact Triple.ite (fun _ => leads_emit _ fun _ hl => hl) fun _ => leads_emit _ fun _ hl => hl

/-- So it is for `LPOP` and `RPOP`. -/
theorem leads_cmdPop (left : Bool) :
    Leads (fun w => Full w ∧ ∀ l, typedAt env listKind (argv.getD 1 []) w = some l →
      popCount argv < l.length) (cmdPop env argv left) fun _ => Full := by
  refine leads_arg fun _ => (countArg_popCount (-1)).triple_bind fun r hr => ?_
  cases r with
  | none => exact (leads_error _).weaken fun _ hw => hw.1
  | some count =>
    refine leads_withTyped (leads_reply _) fun l hl hpos => leads_deref fun l' hl' => ?_
    subst hl'
    refine Triple.ite (fun _ => leads_same _ hpos) fun _ => ?_
    rcases hr count rfl with ⟨rfl, hone⟩ | ⟨rfl, hnonneg⟩
    · exact leads_popBody left (.inl (by omega)) (by omega)
    · exact leads_popBody left (.inr hnonneg) hl

/-! ## Writing into a list -/

/-- `LSET` where there is a list. -/
theorem leads_lsetBody {idx : ℤ} (hpos : 0 < l.length) :
    Leads (FullAt listKind key (· = l)) (lsetBody argv (some key) idx) fun _ => Full := by
  refine leads_deref fun u hu => ?_
  subst hu
  refine Triple.ite (fun _ => leads_same _ hpos) fun _ => ?_
  cases listIndex idx u with
  | none => exact leads_same _ hpos
  | some i =>
    refine leads_arg fun _ => leads_finish _ ?_
    show 0 < (u.set i _).length
    rwa [List.length_set]

/-- `LSET` leaves the list as long as it was. -/
theorem leads_lset : Leads Full (lset env argv) fun _ => Full := by
  refine leads_arg fun _ => leads_typed (leads_arg fun _ => ?_) fun l hpos => leads_arg fun _ => ?_
  · cases parseIntStrict (argv.getD 2 []) with
    | none => exact leads_error _
    | some idx => exact leads_error _
  · cases parseIntStrict (argv.getD 2 []) with
    | none => exact leads_refuse _ hpos
    | some idx => exact leads_lsetBody hpos

/-- An element is left if not all are equal to the value. -/
theorem leads_lrem :
    Leads (fun w => Full w ∧ ∀ l, typedAt env listKind (argv.getD 1 []) w = some l →
      ∀ n, parseIntStrict (argv.getD 2 []) = some n →
        removedCount (argv.getD 3 []) n l < l.length) (lrem env argv) fun _ => Full := by
  refine leads_arg fun _ => leads_withTyped (leads_arg fun _ => ?_) fun l hl hpos =>
    leads_arg fun _ => ?_
  · cases parseIntStrict (argv.getD 2 []) with
    | none => exact leads_error _
    | some count => exact leads_reply _
  · cases hcount : parseIntStrict (argv.getD 2 []) with
    | none => exact leads_refuse _ hpos
    | some count =>
      have hleft := hl count hcount
      refine leads_deref fun u hu => leads_arg fun _ => ?_
      subst hu
      refine (removeCount_length _ count u).triple_bind fun r hr => ?_
      exact leads_finish _ (show 0 < r.1.length by omega)

/-- The result of an insertion is not empty. -/
theorem length_insertBeside {before : Bool} {pivot v : Bytes} {l l' : List Bytes}
    (h : insertBeside before pivot v l = some l') : 0 < l'.length := by
  cases l with
  | nil => cases h
  | cons x l =>
    unfold insertBeside at h
    split_ifs at h
    · cases h
      exact Nat.succ_pos _
    · cases h
      exact Nat.succ_pos _
    · obtain ⟨u, -, rfl⟩ := Option.map_eq_some_iff.1 h
      exact Nat.succ_pos _

/-- `LINSERT` takes nothing away. -/
theorem leads_linsert : Leads Full (linsert env argv) fun _ => Full := by
  refine leads_arg fun _ => Triple.ite (fun _ => leads_error _) fun _ => ?_
  refine leads_arg fun _ => leads_typed (leads_reply _) fun l hpos => ?_
  refine leads_deref fun u hu => leads_arg fun _ => leads_arg fun _ => ?_
  subst hu
  cases hins : insertBeside _ (argv.getD 3 []) (argv.getD 4 []) u with
  | none => exact leads_same _ hpos
  | some l' => exact leads_finish _ (length_insertBeside hins)

/-- If no element is left, the key is deleted. -/
theorem leads_ltrimBody {start stop : ℤ} (hpos : 0 < l.length) :
    Leads (FullAt listKind key (· = l)) (ltrimBody key (some key) start stop) fun _ => Full := by
  have hdelete : ∀ P : List Bytes → Prop, Leads (FullAt listKind key P)
      (delete key >>= fun _ => replySimple (bytes "OK")) fun _ => Full := fun P =>
    (leads_delete.weaken (fun _ hw => hw.1)).bind fun _ => leads_reply _
  refine leads_deref fun u hu => ?_
  subst hu
  refine Triple.ite (fun _ => leads_same _ hpos) fun _ => ?_
  cases listIndexRange start stop u.length with
  | none => exact hdelete _
  | some r =>
    refine leads_store (Q := (· = listWindow r.1 r.2 u)) rfl ?_
    refine Triple.ite (fun _ => hdelete _) fun hne => ?_
    exact leads_same _ (List.length_pos_iff.2 hne)

/-- The integers that are read. -/
theorem twoInts_args {i j : ℕ} (hi : i < argv.length) (hj : j < argv.length) :
    Safe J (fun _ => True) (twoInts argv i j) fun r => ∀ p, r = some p →
      parseIntStrict (argv.getD i []) = some p.1 ∧
        parseIntStrict (argv.getD j []) = some p.2 := by
  unfold twoInts
  rw [arg_bind hi]
  cases parseIntStrict (argv.getD i []) with
  | none => exact Safe.pure nofun
  | some start =>
    dsimp only
    rw [arg_bind hj]
    cases parseIntStrict (argv.getD j []) with
    | none => exact Safe.pure nofun
    | some stop =>
      refine Safe.pure fun p h => ?_
      cases h
      exact ⟨rfl, rfl⟩

/-- `LTRIM` leaves no empty list. -/
theorem leads_ltrim (hargc : 4 ≤ argv.length) : Leads Full (ltrim env argv) fun _ => Full := by
  refine leads_arg fun _ => Triple.weaken (leads_withOption (P := fun _ => True)
    (fun _ => twoInts_args (by omega) hargc) (fun _ _ => ⟨_, rfl⟩) (fun _ => ⟨_, rfl⟩)
    fun l _ _ hpos _ => ?_) fun _ hw => ⟨hw, fun _ _ => trivial⟩
  exact leads_ltrimBody hpos

/-! ## Between lists -/

/-- `LMOVE` leaves an element in the list from which it takes one, or is refused. -/
def lmoveSpares (env : Env) (argv : Args) (w : World) : Bool :=
  !(isSide (argv.getD 3 []) && isSide (argv.getD 4 [])) ||
    moveSpares env listKind (fun l => decide (2 ≤ l.length)) (argv.getD 1 []) (argv.getD 2 []) w

/-- The list from which an element is taken has another. -/
theorem full_of_movedLists {w : World} {db : Database} (h : MovedLists env src dst w db)
    (hw : Full w)
    (hspares : moveSpares env listKind (fun l => decide (2 ≤ l.length)) src dst w = true) :
    AllValues Filled db := by
  obtain ⟨fromLeft, toLeft, h⟩ := h
  refine full_of_moved h hw ?_ ?_
  · rintro l d rest _ ⟨v, -, rfl⟩
    show 0 < (pushEnd toLeft d v).length
    rw [length_pushEnd]
    exact Nat.succ_pos _
  · rintro l rest _ hne hl hdst ⟨v, hpop, rfl⟩
    have hlen := of_decide_eq_true (spare_of_moveSpares (k := listKind) hspares hne hl hdst)
    have hrest := length_popEnd hpop
    show 0 < rest.length
    dsimp only at hrest
    omega

/-- `LMOVE` is refused, or an element is left. -/
theorem full_of_lmove {w : World} {p : Unit × World} (hargc : 5 ≤ argv.length) (hw : Full w)
    (hspares : lmoveSpares env argv w = true) (hp : cmdLMove env argv w = .ok p) : Full p.2 := by
  have hmoved := (danglesIf_cmdLMove hargc).of_ok hp
  unfold lmoveSpares at hspares
  split_ifs at hmoved with hsides
  · rw [hsides] at hspares
    exact full_of_movedLists hmoved hw hspares
  · show AllValues Filled p.2.db
    exact hmoved ▸ hw

end TinyRedis.Commands

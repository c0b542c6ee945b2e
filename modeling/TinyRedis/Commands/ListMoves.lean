import TinyRedis.Commands.Moves

/-!
# Moves between lists

`LMOVE` and `RPOPLPUSH` take an element from one end of a list and put it to one end of a list,
which may be the same. They do this without the code of `LPOP`, `RPOP`, `LPUSH`, and `RPUSH`: within
one list by a splice, and between two lists after the destination was created. What is left is the
same as after a pop and a push.
-/

namespace TinyRedis.Commands

open Lib Resp

variable {env : Env} {argv : Args} {tx : Tx} {c : Cmd} {w w₁ : World} {src dst key v : Bytes}
  {e e' : Entry} {l d rest : List Bytes} {left fromLeft toLeft : Bool}

/-! ## Pops and pushes -/

/-- The world after an element was popped and replied. -/
def popped (key : Bytes) (e : Entry) (v : Bytes) (rest : List Bytes) (w : World) : World :=
  replied (.bulk v) { w with
    db := w.db.assign w.cs.dbIndex key { e with value := .list rest }, tick := w.tick + 1 }

/-- The world after an element was pushed to a list `d`, and its length was replied. -/
def pushed (left : Bool) (key : Bytes) (e : Entry) (v : Bytes) (d : List Bytes) (w : World) :
    World :=
  replied (.int (pushEnd left d v).length) { w with
    db := w.db.assign w.cs.dbIndex key { e with value := .list (pushEnd left d v) } }

/-- `LPOP` and `RPOP` without a count, on a list that is found. -/
theorem cmdPop_eq (hlen : argv.length = 2) (hkey : argv[1]? = some key)
    (h : Finds env listKind key e l w) (hpop : popEnd left l = some (v, rest)) :
    cmdPop env argv left w = .ok ((), popped key e v rest w) := by
  have hne := ne_nil_of_popEnd hpop
  have hcount : countArg argv (-1) = pure (some (-1)) := by
    unfold countArg
    rw [if_neg (by omega)]
  have hstores := h.stores
  rw [h.afterLookup_eq] at hstores
  unfold cmdPop
  rw [arg_bind_some hkey, hcount, pure_bind]
  dsimp only
  rw [h.withTyped_eq, h.afterLookup_eq]
  dsimp only
  rw [hstores.deref_bind, if_neg hne]
  unfold popBody
  rw [if_pos (by decide), hpop]
  dsimp only
  rw [hstores.store_bind]
  exact replyBulk_eq _ _

/-- A loop over one argument. -/
theorem forArgs_last {α : Type} (body : ℕ → α → M α) (hlen : argv.length = 3) (a : α) :
    forArgs argv 1 body 2 a = body 2 a := by
  have hend : ∀ a : α, argLoop argv (fun i a => do
      let a ← body i a
      pure (Step.next (β := Empty) (i + 1) a)) 2 3 a = pure (.next 3 a) := by
    intro a
    unfold argLoop
    rw [if_neg (by omega)]
  unfold forArgs
  rw [hlen]
  unfold argLoop
  rw [if_pos (by omega), bind_assoc, bind_assoc]
  simp only [pure_bind, hend, bind_pure]

/-- `LPUSH` and `RPUSH` of one element, on a list that was found or created. -/
theorem cmdPush_eq (hlen : argv.length = 3) (hkey : argv[1]? = some key)
    (hv : argv[2]? = some v) (hopen : listCreate env key w = .ok (some key, w₁))
    (h : Stores listKind key e d w₁) :
    cmdPush env argv left w = .ok ((), pushed left key e v d w₁) := by
  have hassigned : Stores listKind key _ _ { w₁ with
      db := w₁.db.assign w₁.cs.dbIndex key { e with value := .list (pushEnd left d v) } } :=
    Stores.assign (pushEnd left d v)
  unfold cmdPush
  rw [arg_bind_some hkey, bind_apply, hopen, ok_bind]
  dsimp only
  rw [forArgs_last _ hlen]
  unfold pushOne
  rw [arg_bind_some hv, bind_assoc, h.deref_bind, h.store_bind]
  exact (hassigned.deref_bind _).trans (replyInt_eq _ _)

/-- The creation of a list under a key that is not found. -/
theorem listCreate_of_missing (h : live env key w = none) :
    listCreate env key w = .ok (some key, { w with
      db := (w.db.lookup w.cs.dbIndex key (env.nowMs w.tick)).2.set w.cs.dbIndex key (.list []) 0,
      tick := w.tick + 2 }) := by
  unfold listCreate
  rw [findOrCreate_of_not_live h]
  rfl

/-! ## Calls -/

/-- A call that moves an element between lists, outside a transaction. -/
structure MoveCall (c : Cmd) (argv : Args) (tx : Tx) (src dst : Bytes) (fromLeft toLeft : Bool) :
    Prop where
  command : (c = .lmove ∧ toUpper (argv.getD 3 []) = sideName fromLeft ∧
      toUpper (argv.getD 4 []) = sideName toLeft) ∨
    (c = .rpoplpush ∧ fromLeft = false ∧ toLeft = true)
  accepts : accepts c argv = true
  outside : tx.inMulti = false
  source : argv[1]? = some src
  destination : argv[2]? = some dst

namespace MoveCall

/-- The call runs the handler. -/
theorem enters (hmem : env.opts.maxmemory = 0) (h : MoveCall c argv tx src dst fromLeft toLeft) :
    Enters env c argv tx w := by
  refine .mk h.accepts h.outside (gated_of_unlimited hmem) ?_
  rcases h.command with ⟨rfl, -⟩ | ⟨rfl, -⟩ <;> rfl

/-- The handler of the call. -/
theorem handler_eq (h : MoveCall c argv tx src dst fromLeft toLeft) (lower : Bytes) :
    handler env lower argv c = moveLists env src dst fromLeft toLeft := by
  have hargs := minArgs_le_of_accepts h.accepts
  rcases h.command with ⟨rfl, hfrom, hto⟩ | ⟨rfl, rfl, rfl⟩
  · have hfour : 4 < argv.length := hargs
    exact cmdLMove_eq h.source h.destination (argv_getElem? (by omega)) (argv_getElem? hfour) hfrom
      hto
  · show rpoplpush env argv = _
    unfold rpoplpush
    rw [arg_bind_some h.source, arg_bind_some h.destination]
    exact cmdLMove_eq rfl rfl rfl rfl (by decide) (by decide)

end MoveCall

/-- The pop of one element. -/
def popCall (left : Bool) (key : Bytes) : Args :=
  [if left then bytes "LPOP" else bytes "RPOP", key]

/-- The push of one element. -/
def pushCall (left : Bool) (key v : Bytes) : Args :=
  [if left then bytes "LPUSH" else bytes "RPUSH", key, v]

/-- The answer to a pop. -/
theorem answers_pop (hmem : env.opts.maxmemory = 0) (htx : tx.inMulti = false)
    (h : Finds env listKind key e l w) (hpop : popEnd left l = some (v, rest)) (depth : ℕ) :
    Answers env depth (popCall left key) tx w (.bulk v) (popped key e v rest w) := by
  have haccepts : accepts (if left then .lpop else .rpop) (popCall left key) = true := by
    rw [accepts_congr _ (popCall left key) (popCall left []) rfl rfl]
    cases left <;> decide +kernel
  have hrun : cmdPop env (popCall left key) left w = _ := cmdPop_eq rfl rfl h hpop
  cases left with
  | _ =>
    exact Enters.answers (.mk haccepts htx (gated_of_unlimited hmem) rfl) depth hrun rfl

/-- The answer to a push. -/
theorem answers_push (hmem : env.opts.maxmemory = 0) (htx : tx.inMulti = false)
    (hopen : listCreate env key w = .ok (some key, w₁)) (hout : w₁.out = w.out)
    (h : Stores listKind key e d w₁) (left : Bool) (v : Bytes) (depth : ℕ) :
    Answers env depth (pushCall left key v) tx w (.int (pushEnd left d v).length)
      (pushed left key e v d w₁) := by
  have haccepts : accepts (if left then .lpush else .rpush) (pushCall left key v) = true := by
    rw [accepts_congr _ (pushCall left key v) (pushCall left [] []) rfl rfl]
    cases left <;> decide +kernel
  have hrun : cmdPush env (pushCall left key v) left w = _ := cmdPush_eq rfl rfl rfl hopen h
  cases left with
  | _ =>
    exact Enters.answers (.mk haccepts htx (gated_of_unlimited hmem) rfl) depth hrun
      (congrArg (· ++ _) hout)

/-! ## Moves as pops and pushes -/

/-- The elements of the list under a key. -/
def contents (env : Env) (key : Bytes) (w : World) : List Bytes :=
  (typedAt env listKind key w).getD []

/-- The elements of a list that is found. -/
theorem Finds.contents_eq (h : Finds env listKind key e l w) : contents env key w = l := by
  unfold contents typedAt
  rw [h.live, Option.bind_some, h.value]
  rfl

/-- A key that is not found has none. -/
theorem contents_of_missing (h : live env key w = none) : contents env key w = [] := by
  unfold contents typedAt
  rw [h]
  rfl

/-- The elements of two lists are the same ones before and after. -/
def Conserves (env : Env) (src dst : Bytes) (w w' : World) : Prop :=
  if src = dst then (contents env src w').Perm (contents env src w)
  else (contents env src w' ++ contents env dst w').Perm (contents env src w ++ contents env dst w)

/-- The call replies an element, and leaves the same as a pop of this element and a push of it. -/
def PopsAndPushes (env : Env) (depth : ℕ) (argv : Args) (tx : Tx) (src dst : Bytes)
    (fromLeft toLeft : Bool) (w : World) : Prop :=
  ∃ v w₁ w₂ w₃ n, Answers env depth argv tx w (.bulk v) w₁ ∧
    Answers env depth (popCall fromLeft src) tx w (.bulk v) w₂ ∧
    Answers env depth (pushCall toLeft dst v) tx w₂ (.int n) w₃ ∧
    w₁.db.Same w₃.db ∧ Conserves env src dst w w₁

/-- An entry that is found has not expired. -/
theorem not_expired_of_live (h : live env key w = some e) :
    Database.expired e (env.nowMs w.tick) = false := by
  rw [live_eq_filter, Option.filter_eq_some_iff] at h
  simpa using h.2

/-- While the clock stands still, a list that was found and written is found again. -/
theorem Still.finds (h : Still env w) (w₁ : World) (hlive : live env key w = some e)
    (htick : w.tick ≤ w₁.tick)
    (hentry : (w₁.db.table w₁.cs.dbIndex).lookup key = some { e with value := .list d }) :
    Finds env listKind key { e with value := .list d } d w₁ := by
  have hstores : Stores listKind key { e with value := .list d } d w₁ := ⟨hentry, rfl⟩
  have hexp := not_expired_of_live hlive
  refine hstores.finds ?_
  rw [h _ htick]
  exact hexp

/-- A list that is found is not created. -/
theorem listCreate_of_finds (h : Finds env listKind key e l w) :
    listCreate env key w = .ok (some key, { w with tick := w.tick + 1 }) := by
  unfold listCreate
  rw [h.findOrCreate_eq, h.afterLookup_eq]

/-- The entries under two keys, after a write to each. -/
theorem lookup_assign_assign (hne : src ≠ dst) (db : Database) (i : DbIndex) (e e' : Entry) :
    (((db.assign i src e).assign i dst e').table i).lookup src = some e ∧
      (((db.assign i src e).assign i dst e').table i).lookup dst = some e' := by
  constructor
  · rw [Database.lookup_assign_of_ne _ _ hne.symm, Database.lookup_assign, if_pos ⟨rfl, rfl⟩]
  · rw [Database.lookup_assign, if_pos ⟨rfl, rfl⟩]

/-- An element is taken from one list, and is one more of the other. -/
theorem conserves_of_move (hne : src ≠ dst) (hpop : popEnd fromLeft l = some (v, rest))
    (hsrc : contents env src w = l) (hdst : contents env dst w = d)
    (hsrc' : contents env src w₁ = rest) (hdst' : contents env dst w₁ = pushEnd toLeft d v) :
    Conserves env src dst w w₁ := by
  unfold Conserves
  rw [if_neg hne, hsrc, hdst, hsrc', hdst']
  calc (rest ++ pushEnd toLeft d v).Perm (rest ++ v :: d) := (pushEnd_perm toLeft d v).append_left _
    _ |>.Perm (v :: (rest ++ d)) := List.perm_middle
    _ |>.Perm (l ++ d) := (popEnd_perm hpop).symm.append_right d

section

variable (hmem : env.opts.maxmemory = 0) (hstill : Still env w)
  (hcall : MoveCall c argv tx src dst fromLeft toLeft) (hsrc : Finds env listKind src e l w)
  (hl : l ≠ [])

include hmem hstill hcall hsrc hl

/-- Within one list. -/
theorem popsAndPushes_same (hsame : src = dst) (depth : ℕ) :
    PopsAndPushes env depth argv tx src dst fromLeft toLeft w := by
  subst hsame
  obtain ⟨v, rest, hpop⟩ := exists_popEnd fromLeft hl
  have hagain : Finds env listKind src e l (afterLookup env src w) :=
    ⟨(hstill.live_afterLookup src src).trans hsrc.live, hsrc.value⟩
  have hmove := (congrFun (hcall.handler_eq (lowerName argv)) w).trans
    (moveLists_same toLeft hsrc hagain hpop)
  have hmoved := (hcall.enters hmem).answers depth hmove rfl
  -- The push finds the list as the pop left it.
  have hpopped := answers_pop hmem hcall.outside hsrc hpop depth
  have hfound := hstill.finds (popped src e v rest w) hsrc.live (Nat.le_succ _)
    ((Database.lookup_assign _ _ _ _ _ _).trans (if_pos ⟨rfl, rfl⟩))
  have hpushed := answers_push hmem hcall.outside (listCreate_of_finds hfound) rfl
    ⟨(lookup_of_live hfound.live).1, rfl⟩ toLeft v depth
  refine ⟨v, _, _, _, _, hmoved, hpopped, hpushed, Database.same_assign_assign _ _ _ _ _, ?_⟩
  have hlast := hstill.finds (replied (.bulk v) { w with
      db := w.db.assign w.cs.dbIndex src { e with value := .list (pushEnd toLeft rest v) },
      tick := w.tick + 2 })
    hsrc.live (Nat.le_add_right _ 2)
    ((Database.lookup_assign _ _ _ _ _ _).trans (if_pos ⟨rfl, rfl⟩))
  unfold Conserves
  rw [if_pos rfl, hsrc.contents_eq, hlast.contents_eq]
  exact (pushEnd_perm toLeft rest v).trans (popEnd_perm hpop).symm

/-- To a list that is found. -/
theorem popsAndPushes_found (hne : src ≠ dst) (hdst : Finds env listKind dst e' d w) (depth : ℕ) :
    PopsAndPushes env depth argv tx src dst fromLeft toLeft w := by
  obtain ⟨v, rest, hpop⟩ := exists_popEnd fromLeft hl
  have hdst' : Finds env listKind dst e' d (afterLookup env src w) :=
    ⟨(hstill.live_afterLookup src dst).trans hdst.live, hdst.value⟩
  have hmove := (congrFun (hcall.handler_eq (lowerName argv)) w).trans
    (moveLists_found toLeft hne hsrc hdst' hpop)
  have hmoved := (hcall.enters hmem).answers depth hmove rfl
  -- The pop leaves the destination as it was.
  have hpopped := answers_pop hmem hcall.outside hsrc hpop depth
  have hkept : Stores listKind dst e' d (popped src e v rest w) :=
    ⟨(Database.lookup_assign_of_ne _ _ hne _).trans (lookup_of_live hdst.live).1, hdst.value⟩
  have hexp : Database.expired e' (env.nowMs (w.tick + 1)) = false := by
    rw [hstill _ (Nat.le_succ _)]
    exact not_expired_of_live hdst.live
  have hpushed := answers_push hmem hcall.outside (listCreate_of_finds (hkept.finds hexp)) rfl
    ⟨hkept.entry, hdst.value⟩ toLeft v depth
  refine ⟨v, _, _, _, _, hmoved, hpopped, hpushed, Database.Same.refl _, ?_⟩
  have hentries := lookup_assign_assign hne w.db w.cs.dbIndex { e with value := .list rest }
    { e' with value := .list (pushEnd toLeft d v) }
  exact conserves_of_move hne hpop hsrc.contents_eq hdst.contents_eq
    (hstill.finds _ hsrc.live (Nat.le_add_right _ 2) hentries.1).contents_eq
    (hstill.finds _ hdst.live (Nat.le_add_right _ 2) hentries.2).contents_eq

/-- To a list that is created. -/
theorem popsAndPushes_created (hne : src ≠ dst) (hdst : live env dst w = none) (depth : ℕ) :
    PopsAndPushes env depth argv tx src dst fromLeft toLeft w := by
  obtain ⟨v, rest, hpop⟩ := exists_popEnd fromLeft hl
  have hmove := (congrFun (hcall.handler_eq (lowerName argv)) w).trans
    (moveLists_created toLeft hne hsrc
      ((hstill.live_afterLookup src dst).trans hdst) hpop)
  have hmoved := (hcall.enters hmem).answers depth hmove rfl
  -- The push does not find the destination either, and creates it after the pop.
  have hpopped := answers_pop hmem hcall.outside hsrc hpop depth
  have hgone : live env dst (popped src e v rest w) = none := by
    rw [live_eq_filter] at hdst ⊢
    rw [← hdst]
    show Option.filter (fun e => !Database.expired e (env.nowMs (w.tick + 1)))
      (((w.db.assign w.cs.dbIndex src _).table w.cs.dbIndex).lookup dst) = _
    rw [Database.lookup_assign_of_ne _ _ hne, hstill _ (Nat.le_succ _)]
  have hpushed := answers_push hmem hcall.outside (listCreate_of_missing hgone) rfl
    ⟨(Database.lookup_set _ _ _ _ _ _ _).trans (if_pos ⟨rfl, rfl⟩), rfl⟩ toLeft v depth
  have hcreate := (Database.same_lookup_assign w.db w.cs.dbIndex hne { e with value := .list rest }
    (env.nowMs (w.tick + 1))).set w.cs.dbIndex dst (.list []) 0
  have hdb := (hcreate.trans (Database.same_set_assign _ w.cs.dbIndex hne _ _ _)).assign
    w.cs.dbIndex dst ⟨.list (pushEnd toLeft [] v), 0⟩
  refine ⟨v, _, _, _, _, hmoved, hpopped, hpushed, hdb.symm, ?_⟩
  have hentries := lookup_assign_assign hne ((w.db.lookup w.cs.dbIndex dst
    (env.nowMs (w.tick + 1))).2.set w.cs.dbIndex dst (.list []) 0) w.cs.dbIndex
      { e with value := .list rest } ⟨.list (pushEnd toLeft [] v), 0⟩
  have hcreated : Stores listKind dst ⟨.list (pushEnd toLeft [] v), 0⟩ (pushEnd toLeft [] v)
      (replied (.bulk v) { w with
        db := (((w.db.lookup w.cs.dbIndex dst (env.nowMs (w.tick + 1))).2.set w.cs.dbIndex dst
          (.list []) 0).assign w.cs.dbIndex src { e with value := .list rest }).assign w.cs.dbIndex
            dst ⟨.list (pushEnd toLeft [] v), 0⟩, tick := w.tick + 4 }) := ⟨hentries.2, rfl⟩
  exact conserves_of_move hne hpop hsrc.contents_eq (contents_of_missing hdst)
    (hstill.finds _ hsrc.live (Nat.le_add_right _ 4) hentries.1).contents_eq
    (hcreated.finds rfl).contents_eq

/-- A move is a pop and a push of what was popped. While the clock stands still, it replies the
element and leaves the same database as the two calls, and no element is lost or duplicated. The
destination is missing or a list, and may be the source. -/
theorem move_pops_and_pushes (hdst : ¬WrongType env listKind dst w) (depth : ℕ) :
    PopsAndPushes env depth argv tx src dst fromLeft toLeft w := by
  by_cases hsame : src = dst
  · exact popsAndPushes_same hmem hstill hcall hsrc hl hsame depth
  · rcases wrongType_or_gets env listKind [] dst w with hwrong | ⟨e', d, hgets⟩
    · exact absurd hwrong hdst
    · rcases hgets.found with hfound | ⟨hmissing, -⟩
      · exact popsAndPushes_found hmem hstill hcall hsrc hl hsame ⟨hfound, hgets.value⟩ depth
      · exact popsAndPushes_created hmem hstill hcall hsrc hl hsame hmissing depth

end

/-- A list of two elements, and a destination that is missing. -/
theorem move_pops_and_pushes_missing :
    ¬WrongType stillEnv listKind (bytes "d") (worldWith (.list [bytes "a", bytes "b"])) ∧
      PopsAndPushes stillEnv 0 [bytes "LMOVE", bytes "k", bytes "d", bytes "left", bytes "RIGHT"]
        .idle (bytes "k") (bytes "d") true false (worldWith (.list [bytes "a", bytes "b"])) := by
  have hmissing : ¬WrongType stillEnv listKind (bytes "d")
      (worldWith (.list [bytes "a", bytes "b"])) := by
    rintro ⟨e, hlive, -⟩
    cases hlive
  exact ⟨hmissing, move_pops_and_pushes rfl (fun _ _ => rfl)
    ⟨.inl ⟨rfl, by decide, by decide⟩, by decide +kernel, rfl, rfl, rfl⟩
    (finds_worldWith _ listKind _) (List.cons_ne_nil _ _) hmissing 0⟩

end TinyRedis.Commands

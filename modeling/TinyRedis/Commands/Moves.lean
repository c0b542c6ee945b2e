import TinyRedis.Commands.Pointers
import TinyRedis.Db.Contents

/-!
# Moves of an element

`LMOVE`, `RPOPLPUSH`, and `SMOVE` look up two keys, take an element from the value under the first
one, and add it to the value under the second one, which is created if it is missing. `Moved` says
what they leave. Each lookup reads the clock: a key that is given twice can expire in between, and
the pointer of the first lookup is then left to an entry that is gone (`moveLoses`).
-/

namespace TinyRedis.Commands

open Lib Resp

variable {T : Type} {k : Kind T} {env : Env} {argv : Args} {w : World} {src dst key v : Bytes}
  {e e' : Entry} {l d rest : List Bytes} {left fromLeft toLeft lost : Bool} {t empty : T}
  {s : Bytes} {Q : Database → Prop} {split : T → T → (T → T) → Prop} {m : M Unit} {add : T → T}

/-! ## Two lookups -/

/-- A key is found by a lookup, and has expired by the next one. -/
def expiresBetween (env : Env) (type : ValueType) (key : Bytes) (w : World) : Bool :=
  decide (probe env type key w = .found) && (live env key (afterLookup env key w)).isNone

/-- A move looks up its only key twice, and the key expires in between. -/
def moveLoses (env : Env) (type : ValueType) (src dst : Bytes) (w : World) : Bool :=
  decide (src = dst) && expiresBetween env type src w

/-- What this means. -/
theorem moveLoses_iff {type : ValueType} : moveLoses env type src dst w = true ↔
    src = dst ∧ probe env type src w = .found ∧ live env src (afterLookup env src w) = none := by
  unfold moveLoses expiresBetween
  simp only [Bool.and_eq_true, decide_eq_true_iff, Option.isNone_iff_eq_none]

/-- The handler meets the fault exactly if a pointer is lost, and otherwise returns and leaves a
database with `Q`. -/
def DanglesIf (lost : Bool) (m : M Unit) (w : World) (Q : Database → Prop) : Prop :=
  if lost then m w = .error .danglingHandle else ∃ w', m w = .ok ((), w') ∧ Q w'.db

/-- What a handler leaves that returns. -/
theorem DanglesIf.of_ok {p : Unit × World} (h : DanglesIf lost m w Q) (hp : m w = .ok p) :
    Q p.2.db := by
  unfold DanglesIf at h
  split_ifs at h
  · cases hp.symm.trans h
  · obtain ⟨w', hw', hQ⟩ := h
    cases hp.symm.trans hw'
    exact hQ

/-- What a move of an element leaves of the database. `split` says how an element can be taken from
a value: what is left of it, and what becomes of another value to which the element is added. The
call finds nothing to move, or moves the element within the value under its only key, or moves it to
the value under the second key, which is created if it is missing. -/
inductive Moved (env : Env) (k : Kind T) (empty : T) (src dst : Bytes)
    (split : T → T → (T → T) → Prop) (w : World) (db : Database) : Prop
  | looked (h : db = (afterLookup env src w).db ∨
      db = (afterLookup env dst (afterLookup env src w)).db)
  | turned {e : Entry} {t rest : T} {add : T → T} (hsame : src = dst) (hsrc : Finds env k src e t w)
      (hsplit : split t rest add)
      (h : db = w.db.assign w.cs.dbIndex src { e with value := k.put (add rest) })
  | moved {e e' : Entry} {t d rest : T} {add : T → T} {db₁ : Database} (hne : src ≠ dst)
      (hsrc : Finds env k src e t w) (hdst : Gets env k empty dst e' d (afterLookup env src w))
      (hopen : db₁ = (afterLookup env dst (afterLookup env src w)).db ∨
        db₁ = (afterLookup env dst (afterLookup env src w)).db.set w.cs.dbIndex dst (k.put empty) 0)
      (hentry : (db₁.table w.cs.dbIndex).lookup src = some e)
      (hentry' : (db₁.table w.cs.dbIndex).lookup dst = some e') (hsplit : split t rest add)
      (h : db = (db₁.assign w.cs.dbIndex src { e with value := k.put rest }).assign w.cs.dbIndex dst
        { e' with value := k.put (add d) })

/-- What a move does after its arguments. -/
def twoLookups (env : Env) (k : Kind T) (src dst : Bytes)
    (body : LookupResult → Handle → LookupResult → Handle → M Unit) : M Unit :=
  withTyped env k src fun sst sp => withTyped env k dst fun dstSt dp => body sst sp dstSt dp

/-- What was found is still there after the lookup of another key, or after one that finds its
key. -/
theorem stores_afterLookups (hsrc : Finds env k src e t w)
    (hkept : src = dst → live env dst (afterLookup env src w) ≠ none) :
    Stores k src e t (afterLookup env dst (afterLookup env src w)) := by
  cases hlive : live env dst (afterLookup env src w) with
  | some e' =>
    refine ⟨?_, hsrc.value⟩
    rw [(lookup_of_live hlive).2]
    exact hsrc.stores.entry
  | none =>
    have hne : src ≠ dst := fun hsame => hkept hsame hlive
    exact ⟨(Database.lookup_of_ne _ fun hkey => hne hkey.2).trans hsrc.stores.entry, hsrc.value⟩

/-- The fault of a move, from what its body does with what is found. -/
theorem danglesIf_twoLookups {body : LookupResult → Handle → LookupResult → Handle → M Unit}
    {empty : T}
    (hmissing : ∀ dstSt dp w, ∃ w', body .missing none dstSt dp w = .ok ((), w') ∧ w'.db = w.db)
    (hlost : ∀ w, Absent src w → body .found (some src) .missing none w = .error .danglingHandle)
    (hfound : ∀ e t e' t', Finds env k src e t w → Finds env k dst e' t' (afterLookup env src w) →
      Stores k src e t (afterLookup env dst (afterLookup env src w)) →
      ∃ w', twoLookups env k src dst body w = .ok ((), w') ∧
        Moved env k empty src dst split w w'.db)
    (hcreated : ∀ e t, src ≠ dst → Finds env k src e t w →
      live env dst (afterLookup env src w) = none →
      Stores k src e t (afterLookup env dst (afterLookup env src w)) →
      ∃ w', twoLookups env k src dst body w = .ok ((), w') ∧
        Moved env k empty src dst split w w'.db) :
    DanglesIf (moveLoses env k.type src dst w) (twoLookups env k src dst body) w
      (Moved env k empty src dst split w) := by
  unfold DanglesIf
  split_ifs with hloses
  · obtain ⟨rfl, hprobe, hgone⟩ := moveLoses_iff.1 hloses
    obtain ⟨e, t, hsrc⟩ := exists_finds hprobe
    unfold twoLookups
    rw [hsrc.withTyped_eq, withTyped_of_missing hgone]
    exact hlost _ (lookup_of_not_live hgone)
  · cases hsrc : probe env k.type src w with
    | wrongType =>
      obtain ⟨w', hrun, hdb⟩ := withTyped_of_wrongType hsrc _
      exact ⟨w', hrun, .looked (.inl hdb)⟩
    | missing =>
      unfold twoLookups
      rw [withTyped_of_missing (live_of_probe hsrc)]
      cases hdst : probe env k.type dst (afterLookup env src w) with
      | wrongType =>
        obtain ⟨w', hrun, hdb⟩ := withTyped_of_wrongType hdst _
        exact ⟨w', hrun, .looked (.inr hdb)⟩
      | missing =>
        rw [withTyped_of_missing (live_of_probe hdst)]
        obtain ⟨w', hrun, hdb⟩ := hmissing _ _ _
        exact ⟨w', hrun, .looked (.inr hdb)⟩
      | found =>
        obtain ⟨e', t', hdst⟩ := exists_finds hdst
        rw [hdst.withTyped_eq]
        obtain ⟨w', hrun, hdb⟩ := hmissing _ _ _
        exact ⟨w', hrun, .looked (.inr hdb)⟩
    | found =>
      obtain ⟨e, t, hfinds⟩ := exists_finds hsrc
      cases hdst : probe env k.type dst (afterLookup env src w) with
      | wrongType =>
        unfold twoLookups
        rw [hfinds.withTyped_eq]
        obtain ⟨w', hrun, hdb⟩ := withTyped_of_wrongType hdst _
        exact ⟨w', hrun, .looked (.inr hdb)⟩
      | missing =>
        have hgone := live_of_probe hdst
        have hne : src ≠ dst := by
          rintro rfl
          exact hloses (moveLoses_iff.2 ⟨rfl, hsrc, hgone⟩)
        exact hcreated e t hne hfinds hgone
          (stores_afterLookups hfinds fun hsame => absurd hsame hne)
      | found =>
        obtain ⟨e', t', hdst⟩ := exists_finds hdst
        exact hfound e t e' t' hfinds hdst
          (stores_afterLookups hfinds fun _ hnone => by cases hnone.symm.trans hdst.live)

/-- A read through a pointer to an entry that is gone. -/
theorem deref_bind_of_absent {β : Type} (f : T → M β) (h : Absent key w) :
    (deref k (some key) >>= f) w = .error .danglingHandle := by
  rw [bind_apply, deref_of_absent k h]
  rfl

/-- What a move between two keys leaves, when the second one was found. -/
theorem moved_of_found {d rest : T} (hne : src ≠ dst) (hsrc : Finds env k src e t w)
    (hdst : Finds env k dst e' d (afterLookup env src w)) (hsplit : split t rest add) :
    Moved env k empty src dst split w ((w.db.assign w.cs.dbIndex src
      { e with value := k.put rest }).assign w.cs.dbIndex dst
        { e' with value := k.put (add d) }) := by
  refine .moved hne hsrc ⟨hdst.value, .inl hdst.live⟩ (.inl ?_) (lookup_of_live hsrc.live).1 ?_
    hsplit rfl
  · rw [(lookup_of_live hdst.live).2, (lookup_of_live hsrc.live).2]
  · rw [← (lookup_of_live hsrc.live).2]
    exact (lookup_of_live hdst.live).1

/-- What a move between two keys leaves, when the second one was created. -/
theorem moved_of_created {rest : T} (hne : src ≠ dst) (hsrc : Finds env k src e t w)
    (hgone : live env dst (afterLookup env src w) = none) (hsplit : split t rest add) :
    Moved env k empty src dst split w
      ((((afterLookup env dst (afterLookup env src w)).db.set w.cs.dbIndex dst (k.put empty)
        0).assign w.cs.dbIndex src { e with value := k.put rest }).assign w.cs.dbIndex dst
          ⟨k.put (add empty), 0⟩) := by
  have hstores := stores_afterLookups hsrc fun hsame => absurd hsame hne
  refine .moved hne hsrc ⟨k.get_put empty, .inr ⟨hgone, rfl⟩⟩ (.inr rfl) ?_ ?_ hsplit rfl
  · rw [Database.lookup_set, if_neg fun hkey => hne hkey.2]
    exact hstores.entry
  · rw [Database.lookup_set, if_pos ⟨rfl, rfl⟩]

/-! ## Ends of a list -/

/-- An element that is put back where it was. -/
theorem pushEnd_popEnd (h : popEnd left l = some (v, rest)) : pushEnd left rest v = l := by
  unfold popEnd at h
  cases left with
  | true =>
    cases l with
    | nil => cases h
    | cons x l =>
      cases h
      rfl
  | false =>
    rw [if_neg Bool.false_ne_true] at h
    cases hlast : l.getLast? with
    | none =>
      rw [hlast] at h
      cases h
    | some x =>
      rw [hlast] at h
      cases h
      exact List.dropLast_append_getLast? _ hlast

/-- Something can be taken from a list that is not empty. -/
theorem exists_popEnd (left : Bool) (h : l ≠ []) : ∃ v rest, popEnd left l = some (v, rest) := by
  unfold popEnd
  cases left with
  | true =>
    cases l with
    | nil => exact absurd rfl h
    | cons x l => exact ⟨x, l, rfl⟩
  | false =>
    rw [if_neg Bool.false_ne_true, List.getLast?_eq_getLast_of_ne_nil h]
    exact ⟨_, _, rfl⟩

/-- Nothing can be taken from an empty list. -/
theorem ne_nil_of_popEnd (h : popEnd left l = some (v, rest)) : l ≠ [] := by
  rintro rfl
  cases left <;> cases h

/-- The element that is pushed is one more. -/
theorem pushEnd_perm (left : Bool) (l : List Bytes) (v : Bytes) :
    (pushEnd left l v).Perm (v :: l) := by
  cases left with
  | true => exact .refl _
  | false => exact List.perm_append_singleton v l

/-- The element that is taken is one less. -/
theorem popEnd_perm (h : popEnd left l = some (v, rest)) : l.Perm (v :: rest) := by
  rw [← pushEnd_popEnd h]
  exact pushEnd_perm left rest v

/-- A move within one list is a pop and a push. -/
theorem rotate_eq (h : popEnd fromLeft l = some (v, rest)) :
    rotate fromLeft toLeft l = some (v, pushEnd toLeft rest v) := by
  unfold rotate
  rw [h]
  dsimp only
  split_ifs with hsame
  · subst hsame
    rw [pushEnd_popEnd h]
  · rfl

/-! ## Between lists -/

/-- `CmdLMove` after its arguments. -/
def moveLists (env : Env) (src dst : Bytes) (fromLeft toLeft : Bool) : M Unit :=
  withTyped env listKind src fun sst sl => withTyped env listKind dst fun dstSt dl =>
    lmoveBody env src dst fromLeft toLeft sst sl dstSt dl

/-- A move within one list, which is still there at its second lookup. -/
theorem moveLists_same (toLeft : Bool) (h : Finds env listKind src e l w)
    (hagain : Finds env listKind src e l (afterLookup env src w))
    (hpop : popEnd fromLeft l = some (v, rest)) :
    moveLists env src src fromLeft toLeft w = .ok ((), replied (.bulk v) { w with
      db := w.db.assign w.cs.dbIndex src { e with value := .list (pushEnd toLeft rest v) },
      tick := w.tick + 2 }) := by
  have hne := ne_nil_of_popEnd hpop
  have hstores := hagain.stores
  rw [hagain.afterLookup_eq, h.afterLookup_eq] at hstores
  unfold moveLists
  rw [h.withTyped_eq, hagain.withTyped_eq, hagain.afterLookup_eq, h.afterLookup_eq]
  unfold lmoveBody
  dsimp only at hstores ⊢
  rw [hstores.deref_bind, if_neg hne, decide_eq_true rfl]
  unfold moveEnd
  rw [hstores.deref_bind, if_pos rfl, rotate_eq hpop]
  dsimp only
  rw [hstores.store_bind]
  exact replyBulk_eq _ _

/-- What is stored under another key is not changed. -/
theorem Stores.assign_other {d : T} (h : Stores k dst e' d w) (hne : src ≠ dst) (e : Entry) :
    Stores k dst e' d { w with db := w.db.assign w.cs.dbIndex src e } :=
  ⟨(Database.lookup_assign_of_ne _ _ hne _).trans h.entry, h.value⟩

/-- The move itself, between two lists. -/
theorem moveEnd_eq (hne : src ≠ dst) (hsrc : Stores listKind src e l w)
    (hdst : Stores listKind dst e' d w) (hpop : popEnd fromLeft l = some (v, rest)) :
    moveEnd fromLeft toLeft (decide (src = dst)) (some src) (some dst) w =
      .ok ((), replied (.bulk v) { w with
        db := (w.db.assign w.cs.dbIndex src { e with value := .list rest }).assign w.cs.dbIndex dst
          { e' with value := .list (pushEnd toLeft d v) } }) := by
  have hafter := hdst.assign_other hne { e with value := .list rest }
  unfold moveEnd
  rw [hsrc.deref_bind, decide_eq_false hne, if_neg Bool.false_ne_true, hpop]
  dsimp only
  rw [hsrc.store_bind]
  exact (hafter.deref_bind _).trans ((hafter.store_bind _ _).trans (replyBulk_eq _ _))

/-- A move to a list that is found. -/
theorem moveLists_found (toLeft : Bool) (hne : src ≠ dst) (h : Finds env listKind src e l w)
    (hdst : Finds env listKind dst e' d (afterLookup env src w))
    (hpop : popEnd fromLeft l = some (v, rest)) :
    moveLists env src dst fromLeft toLeft w = .ok ((), replied (.bulk v) { w with
      db := (w.db.assign w.cs.dbIndex src { e with value := .list rest }).assign w.cs.dbIndex dst
        { e' with value := .list (pushEnd toLeft d v) }, tick := w.tick + 2 }) := by
  have hl := ne_nil_of_popEnd hpop
  have hsrc : Stores listKind src e l { w with tick := w.tick + 2 } :=
    ⟨(lookup_of_live h.live).1, h.value⟩
  have hstores := hdst.stores
  rw [hdst.afterLookup_eq, h.afterLookup_eq] at hstores
  unfold moveLists
  rw [h.withTyped_eq, hdst.withTyped_eq, hdst.afterLookup_eq, h.afterLookup_eq]
  unfold lmoveBody
  dsimp only
  exact (hsrc.deref_bind _).trans ((congrFun (if_neg hl) _).trans
    (moveEnd_eq hne hsrc hstores hpop))

/-- The creation of an entry under a key that is not in the table. -/
theorem findOrCreate_of_absent {T : Type} {k : Kind T} {empty : T} (h : Absent key w) :
    findOrCreate env k empty key w = .ok (some key, { w with
      db := w.db.set w.cs.dbIndex key (k.put empty) 0, tick := w.tick + 2 }) := by
  have hlookup : w.db.lookup w.cs.dbIndex key (env.nowMs w.tick) = (none, w.db) := by
    unfold Database.lookup
    rw [h]
  rw [findOrCreate_of_not_live (congrArg Prod.fst hlookup)]
  unfold afterLookup
  rw [hlookup]

/-- What was found is still there after another entry was created. -/
theorem Stores.set_other {T : Type} {k : Kind T} {t : T} (h : Stores k src e t w) (hne : src ≠ dst)
    (v : Value) (n : ℕ) :
    Stores k src e t { w with db := w.db.set w.cs.dbIndex dst v 0, tick := n } :=
  ⟨(Database.lookup_set _ _ _ _ _ _ _).trans ((if_neg fun hkey => hne hkey.2).trans h.entry),
    h.value⟩

/-- What was created is there. -/
theorem stores_set {T : Type} (k : Kind T) (t : T) (w : World) (n : ℕ) :
    Stores k key ⟨k.put t, 0⟩ t
      { w with db := w.db.set w.cs.dbIndex key (k.put t) 0, tick := n } :=
  ⟨(Database.lookup_set _ _ _ _ _ _ _).trans (if_pos ⟨rfl, rfl⟩), k.get_put t⟩

/-- A move to a list that is created. -/
theorem moveLists_created (toLeft : Bool) (hne : src ≠ dst) (h : Finds env listKind src e l w)
    (hdst : live env dst (afterLookup env src w) = none)
    (hpop : popEnd fromLeft l = some (v, rest)) :
    moveLists env src dst fromLeft toLeft w = .ok ((), replied (.bulk v) { w with
      db := (((w.db.lookup w.cs.dbIndex dst (env.nowMs (w.tick + 1))).2.set w.cs.dbIndex dst
        (.list []) 0).assign w.cs.dbIndex src { e with value := .list rest }).assign w.cs.dbIndex
          dst ⟨.list (pushEnd toLeft [] v), 0⟩, tick := w.tick + 4 }) := by
  have hl := ne_nil_of_popEnd hpop
  have habsent := lookup_of_not_live hdst
  rw [h.afterLookup_eq] at hdst habsent
  have hsrc : Stores listKind src e l (afterLookup env dst { w with tick := w.tick + 1 }) :=
    ⟨(Database.lookup_of_ne _ fun hkey => hne hkey.2).trans (lookup_of_live h.live).1, h.value⟩
  unfold moveLists
  rw [h.withTyped_eq, h.afterLookup_eq, withTyped_of_missing hdst]
  unfold lmoveBody
  dsimp only
  rw [hsrc.deref_bind, if_neg hl, bind_apply,
    show listCreate env dst _ = _ from findOrCreate_of_absent habsent, ok_bind]
  exact moveEnd_eq hne (hsrc.set_other hne _ _) (stores_set listKind [] _ _) hpop

/-- How an element is taken from a list, and put into another. -/
def splitList (fromLeft toLeft : Bool) (l rest : List Bytes) (add : List Bytes → List Bytes) :
    Prop :=
  ∃ v, popEnd fromLeft l = some (v, rest) ∧ add = fun d => pushEnd toLeft d v

/-- From an empty list nothing is moved. -/
theorem lmoveBody_nil {dstSt : LookupResult} {dp : Handle} (h : Stores listKind src e [] w) :
    lmoveBody env src dst fromLeft toLeft .found (some src) dstSt dp w =
      .ok ((), replied .nullBulk w) := by
  unfold lmoveBody
  dsimp only
  rw [h.deref_bind, if_pos rfl]
  exact replyNullBulk_eq _

/-- The fault of a move between lists, and what it leaves otherwise. -/
theorem danglesIf_moveLists :
    DanglesIf (moveLoses env .kList src dst w) (moveLists env src dst fromLeft toLeft) w
      (Moved env listKind [] src dst (splitList fromLeft toLeft) w) := by
  refine danglesIf_twoLookups (k := listKind) ?_ ?_ ?_ ?_
  · exact fun _ _ w => ⟨_, replyNullBulk_eq w, rfl⟩
  · exact fun w h => deref_bind_of_absent _ h
  · intro e l e' d hsrc hdst hstores
    by_cases hl : l = []
    · subst hl
      unfold twoLookups
      rw [hsrc.withTyped_eq, hdst.withTyped_eq]
      exact ⟨_, lmoveBody_nil hstores, .looked (.inr rfl)⟩
    · obtain ⟨v, rest, hpop⟩ := exists_popEnd fromLeft hl
      by_cases hsame : src = dst
      · -- Both lookups find the same entry.
        subst hsame
        cases hsrc.stores.entry.symm.trans (lookup_of_live hdst.live).1
        exact ⟨_, moveLists_same toLeft hsrc ⟨hdst.live, hsrc.value⟩ hpop,
          .turned rfl hsrc ⟨v, hpop, rfl⟩ rfl⟩
      · have hmoved : Moved env listKind [] src dst (splitList fromLeft toLeft) w _ :=
          moved_of_found hsame hsrc hdst ⟨v, hpop, rfl⟩
        exact ⟨_, moveLists_found toLeft hsame hsrc hdst hpop, hmoved⟩
  · intro e l hne hsrc hgone hstores
    by_cases hl : l = []
    · subst hl
      unfold twoLookups
      rw [hsrc.withTyped_eq, withTyped_of_missing hgone]
      exact ⟨_, lmoveBody_nil hstores, .looked (.inr rfl)⟩
    · obtain ⟨v, rest, hpop⟩ := exists_popEnd fromLeft hl
      have hmoved : Moved env listKind [] src dst (splitList fromLeft toLeft) w _ :=
        moved_of_created hne hsrc hgone ⟨v, hpop, rfl⟩
      rw [hsrc.afterLookup_eq] at hmoved
      exact ⟨_, moveLists_created toLeft hne hsrc hgone hpop, hmoved⟩

/-- The name of an end of a list. -/
def sideName (left : Bool) : Bytes := if left then bytes "LEFT" else bytes "RIGHT"

/-- How the source tells the ends apart. -/
theorem decide_sideName (left : Bool) : decide (sideName left = bytes "LEFT") = left := by
  cases left <;> decide

/-- The name of an end is accepted. -/
theorem sideName_cases (left : Bool) :
    ¬(sideName left ≠ bytes "LEFT" ∧ sideName left ≠ bytes "RIGHT") := by
  cases left <;> decide

/-- `CmdLMove` with valid ends. -/
theorem cmdLMove_eq {t : Bytes} (hsrc : argv[1]? = some src) (hdst : argv[2]? = some dst)
    (hs : argv[3]? = some s) (ht : argv[4]? = some t) (hfrom : toUpper s = sideName fromLeft)
    (hto : toUpper t = sideName toLeft) :
    cmdLMove env argv = moveLists env src dst fromLeft toLeft := by
  unfold cmdLMove
  rw [arg_bind_some hsrc, arg_bind_some hdst, arg_bind_some hs, arg_bind_some ht]
  dsimp only
  rw [hfrom, hto, if_neg (sideName_cases _), if_neg (sideName_cases _), decide_sideName,
    decide_sideName]
  rfl

/-- The name of an end of a list. -/
def isSide (s : Bytes) : Bool :=
  decide (toUpper s = bytes "LEFT") || decide (toUpper s = bytes "RIGHT")

/-- A name that is not refused. -/
theorem isSide_of_not (h : ¬(toUpper s ≠ bytes "LEFT" ∧ toUpper s ≠ bytes "RIGHT")) :
    isSide s = true := by
  rw [isSide, Bool.or_eq_true, decide_eq_true_iff, decide_eq_true_iff]
  exact (not_and_or.1 h).imp not_not.1 not_not.1

/-- It is the name of an end. -/
theorem exists_sideName (h : isSide s = true) : ∃ left, toUpper s = sideName left := by
  unfold isSide at h
  rw [Bool.or_eq_true, decide_eq_true_iff, decide_eq_true_iff] at h
  rcases h with h | h
  · exact ⟨true, h⟩
  · exact ⟨false, h⟩

/-- What `LMOVE` and `RPOPLPUSH` leave. -/
def MovedLists (env : Env) (src dst : Bytes) (w : World) (db : Database) : Prop :=
  ∃ fromLeft toLeft, Moved env listKind [] src dst (splitList fromLeft toLeft) w db

/-- What is left may be weakened. -/
theorem DanglesIf.imp {Q' : Database → Prop} (h : DanglesIf lost m w Q) (hQ : ∀ db, Q db → Q' db) :
    DanglesIf lost m w Q' := by
  unfold DanglesIf at h ⊢
  split_ifs at h ⊢
  · exact h
  · obtain ⟨w', hrun, hw'⟩ := h
    exact ⟨w', hrun, hQ _ hw'⟩

/-- `LMOVE`. -/
theorem danglesIf_cmdLMove (hargs : 4 < argv.length) :
    DanglesIf (isSide (argv.getD 3 []) && isSide (argv.getD 4 []) &&
        moveLoses env .kList (argv.getD 1 []) (argv.getD 2 []) w) (cmdLMove env argv) w
      fun db => if isSide (argv.getD 3 []) && isSide (argv.getD 4 []) then
        MovedLists env (argv.getD 1 []) (argv.getD 2 []) w db else db = w.db := by
  cases hsides : isSide (argv.getD 3 []) && isSide (argv.getD 4 []) with
  | false =>
    -- An end has another name.
    have herror : ∃ w', cmdLMove env argv w = .ok ((), w') ∧ w'.db = w.db := by
      unfold cmdLMove
      rw [arg_bind (by omega), arg_bind (by omega), arg_bind (by omega), arg_bind hargs]
      split_ifs with hfrom hto
      · exact ⟨_, replyError_eq _ _, rfl⟩
      · exact ⟨_, replyError_eq _ _, rfl⟩
      · rw [isSide_of_not hfrom, isSide_of_not hto] at hsides
        cases hsides
    exact herror
  | true =>
    obtain ⟨hfrom, hto⟩ := Bool.and_eq_true_iff.1 hsides
    obtain ⟨fromLeft, hfrom⟩ := exists_sideName hfrom
    obtain ⟨toLeft, hto⟩ := exists_sideName hto
    rw [Bool.true_and, cmdLMove_eq (argv_getElem? (by omega)) (argv_getElem? (by omega))
      (argv_getElem? (by omega)) (argv_getElem? hargs) hfrom hto]
    exact danglesIf_moveLists.imp fun _ h => ⟨fromLeft, toLeft, h⟩

/-- `RPOPLPUSH` is `LMOVE` with two sides. -/
theorem danglesIf_rpoplpush (hargs : 2 < argv.length) :
    DanglesIf (moveLoses env .kList (argv.getD 1 []) (argv.getD 2 []) w) (rpoplpush env argv) w
      (MovedLists env (argv.getD 1 []) (argv.getD 2 []) w) := by
  unfold rpoplpush
  have hmove : ∀ src dst, cmdLMove env [bytes "LMOVE", src, dst, bytes "RIGHT", bytes "LEFT"] =
      moveLists env src dst false true := fun src dst =>
    cmdLMove_eq rfl rfl rfl rfl (by decide) (by decide)
  rw [arg_bind (by omega), arg_bind hargs, hmove]
  exact danglesIf_moveLists.imp fun _ h => ⟨false, true, h⟩

/-! ## Between sets -/

/-- How the member is taken from a set, and put into another. -/
def splitSet (m src dst : Bytes) (s rest : Dict Bytes Unit)
    (add : Dict Bytes Unit → Dict Bytes Unit) : Prop :=
  src ≠ dst ∧ m ∈ s ∧ rest = s.erase m ∧ add = fun d => if m ∈ d then d else d.insert m ()

/-- The move itself, between two sets. -/
theorem moveMember_eq {m : Bytes} {s d : Dict Bytes Unit} (hne : src ≠ dst)
    (hsrc : Stores setKind src e s w) (hdst : Stores setKind dst e' d w) :
    moveMember m (some src) (some dst) w = .ok ((), replied (.int 1) { w with
      db := (w.db.assign w.cs.dbIndex src { e with value := .set (s.erase m) }).assign w.cs.dbIndex
        dst { e' with value := .set (if m ∈ d then d else d.insert m ()) } }) := by
  have hafter := hdst.assign_other hne { e with value := .set (s.erase m) }
  unfold moveMember
  rw [hsrc.deref_bind, hsrc.store_bind]
  exact (hafter.deref_bind _).trans ((hafter.store_bind _ _).trans (replyInt_eq _ _))

/-- What `SMOVE` leaves. -/
def MovedSets (env : Env) (m src dst : Bytes) : World → Database → Prop :=
  Moved env setKind ∅ src dst (splitSet m src dst)

/-- `SMOVE`. -/
theorem danglesIf_smove (hargs : 3 < argv.length) :
    DanglesIf (moveLoses env .kSet (argv.getD 1 []) (argv.getD 2 []) w) (smove env argv) w
      (MovedSets env (argv.getD 3 []) (argv.getD 1 []) (argv.getD 2 []) w) := by
  have hsmove : smove env argv = twoLookups env setKind (argv.getD 1 []) (argv.getD 2 [])
      (smoveBody env argv (argv.getD 1 []) (argv.getD 2 [])) := by
    unfold smove
    rw [arg_bind (by omega)]
    simp only [arg_bind (show 2 < argv.length by omega)]
    rfl
  rw [hsmove]
  refine danglesIf_twoLookups (k := setKind) ?_ ?_ ?_ ?_
  · exact fun _ _ w => ⟨_, replyInt_eq _ w, rfl⟩
  · exact fun w h => deref_bind_of_absent _ h
  · intro e s e' d hsrc hdst hstores
    unfold twoLookups
    rw [hsrc.withTyped_eq, hdst.withTyped_eq]
    unfold smoveBody
    dsimp only
    rw [hstores.deref_bind, arg_bind hargs]
    by_cases hm : argv.getD 3 [] ∉ s
    · rw [if_pos hm]
      exact ⟨_, replyInt_eq _ _, .looked (.inr rfl)⟩
    · rw [if_neg hm]
      split_ifs with hsame
      · exact ⟨_, replyInt_eq _ _, .looked (.inr rfl)⟩
      · have hmoved : MovedSets env (argv.getD 3 []) _ _ w _ :=
          moved_of_found hsame hsrc hdst ⟨hsame, not_not.1 hm, rfl, rfl⟩
        rw [← (lookup_of_live hsrc.live).2, ← (lookup_of_live hdst.live).2] at hmoved
        exact ⟨_, moveMember_eq hsame hstores hdst.stores, hmoved⟩
  · intro e s hne hsrc hgone hstores
    unfold twoLookups
    rw [hsrc.withTyped_eq, withTyped_of_missing hgone]
    unfold smoveBody
    dsimp only
    rw [hstores.deref_bind, arg_bind hargs]
    by_cases hm : argv.getD 3 [] ∉ s
    · rw [if_pos hm]
      exact ⟨_, replyInt_eq _ _, .looked (.inr rfl)⟩
    · unfold setCreate
      rw [if_neg hm, if_neg hne, bind_apply, findOrCreate_of_absent (lookup_of_not_live hgone),
        ok_bind]
      have hmoved : MovedSets env (argv.getD 3 []) _ _ w _ :=
        moved_of_created hne hsrc hgone ⟨hne, not_not.1 hm, rfl, rfl⟩
      exact ⟨_, moveMember_eq hne (hstores.set_other hne _ _) (stores_set setKind ∅ _ _), hmoved⟩

end TinyRedis.Commands

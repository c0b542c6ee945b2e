import TinyRedis.Commands.DualIndex
import TinyRedis.Commands.Moves

/-!
# Values with an element

A hash, a list, a set, or a sorted set that is stored should have an element. The handlers do not
see to this: those that remove elements do not look at what is left, and those that create a value
may fail before they add an element to it.

While a handler works on the value under a key, this is the only one that may be empty. `FullAt`
says this, together with a property of the value under the key, and the rules of this module say
what the primitives do to it. In the end the value has an element, or its key is deleted, and so no
stored value is empty (`Full`).
-/

namespace TinyRedis.Commands

open Lib

variable {T α β : Type} {k : Kind T} {P Q : T → Prop} {env : Env} {argv : Args} {key : Bytes}
  {w : World} {post : β → World → Prop} {V : Type} {d : Dict Bytes V}
  {body : LookupResult → Handle → M Unit} {t empty : T}

/-- A value is a string, or has an element. -/
def Filled : Value → Prop
  | .rawString _ => True
  | .hash d => 0 < d.size
  | .list l => 0 < l.length
  | .set s => 0 < s.size
  | .zset z => 0 < z.dict.size

/-- No stored value is empty. -/
def Full (w : World) : Prop := AllValues Filled w.db

/-- No stored value is empty, but for that under the key. -/
def FilledBut (key : Bytes) (w : World) : Prop :=
  ∀ i key' e, ¬(i = w.cs.dbIndex ∧ key' = key) → (w.db.table i).lookup key' = some e →
    Filled e.value

/-- The value under the key has the property `P`, and no other stored value is empty. -/
def FullAt (k : Kind T) (key : Bytes) (P : T → Prop) (w : World) : Prop :=
  FilledBut key w ∧ At k key P w

/-- The handlers that do not write into a value with elements keep it full. -/
theorem stable_filled : Stable Filled (AllValues Filled) fun _ => True :=
  stable_allValues trivial fun _ _ => trivial

/-- The primitives that keep invariants. -/
theorem leads_of_runs {m : M α} (h : Runs (AllValues Filled) (fun _ => True) m) :
    Leads Full m fun _ => Full :=
  h.triple.imp (fun _ hw => hw) fun _ _ hw => hw.1

/-- A reply. -/
theorem leads_reply (f : Bytes → Bytes) : Leads Full (emit f) fun _ => Full :=
  leads_of_runs (keeps_emit f)

/-- An error. -/
theorem leads_error (s : Bytes) : Leads Full (replyError s) fun _ => Full := leads_reply _

/-! ## The value under the key -/

/-- If the value under the key has an element, no stored value is empty. -/
theorem FilledBut.full (h : FilledBut key w) (hat : At k key (fun t => Filled (k.put t)) w) :
    Full w := by
  obtain ⟨e, t, hentry, hvalue, ht⟩ := hat
  intro i key' e' he'
  by_cases hkey : i = w.cs.dbIndex ∧ key' = key
  · rw [hkey.1, hkey.2, hentry] at he'
    cases he'
    rw [← k.put_of_get _ _ hvalue]
    exact ht
  · exact h i key' e' hkey he'

/-- The same, if this follows from the property of the value. -/
theorem FullAt.full (h : FullAt k key P w) (hP : ∀ t, P t → Filled (k.put t)) : Full w :=
  h.1.full (h.2.imp hP)

/-- A weaker property of the value. -/
theorem FullAt.imp (h : FullAt k key P w) (hPQ : ∀ t, P t → Q t) : FullAt k key Q w :=
  ⟨h.1, h.2.imp hPQ⟩

/-- A write to the entry under the key. -/
theorem FilledBut.assign (h : FilledBut key w) (e : Entry) :
    FilledBut key { w with db := w.db.assign w.cs.dbIndex key e } := by
  intro i key' e' hne he'
  refine h i key' e' hne ?_
  rw [← he', Database.table_assign]
  split_ifs with hi
  · subst hi
    exact (AList.lookup_insert_ne fun hkey => hne ⟨rfl, hkey⟩).symm
  · rfl

/-- A lookup makes no value empty. -/
theorem full_afterLookup (env : Env) (key : Bytes) (h : Full w) : Full (afterLookup env key w) :=
  stable_filled.lookup _ _ _ _ h

/-- A handler that changes one entry leaves no empty value, if the entry has an element. -/
theorem full_of_altered {w₀ : World} {e : Entry} (h : Altered w₀ key e w) (hw : Full w₀)
    (he : Filled e.value) : Full w := by
  intro i key' e' he'
  by_cases hkey : i = w₀.cs.dbIndex ∧ key' = key
  · rw [hkey.1, hkey.2, h.entry] at he'
    cases he'
    exact he
  · rw [h.others i key' hkey] at he'
    exact hw i key' e' he'

/-- What is found has an element. -/
theorem Full.typedAt (h : Full w) (ht : typedAt env k key w = some t) : Filled (k.put t) := by
  obtain ⟨e, hlive, hvalue⟩ := Option.bind_eq_some_iff.1 ht
  rw [k.put_of_get _ _ hvalue]
  exact h _ _ _ (lookup_of_live hlive).1

/-! ## Rules -/

/-- A read through the pointer. -/
theorem leads_deref {f : T → M β} (hf : ∀ t, P t → Leads (FullAt k key (· = t)) (f t) post) :
    Leads (FullAt k key P) (deref k (some key) >>= f) post :=
  leads_deref_at (fun _ hw => hw.2) fun t ht =>
    (hf t ht).weaken fun _ hw => ⟨hw.1.1, hw.2⟩

/-- A write through the pointer. -/
theorem leads_store {f : Unit → M β} (ht : Q t) (hf : Leads (FullAt k key Q) (f ()) post) :
    Leads (FullAt k key P) (store k (some key) t >>= f) post := by
  refine Triple.intro fun w hw => ?_
  obtain ⟨hothers, e, t', hentry, hvalue, -⟩ := hw
  have hstores : Stores k key e t' w := ⟨hentry, hvalue⟩
  have hafter : Stores k key { e with value := k.put t } t
      { w with db := w.db.assign w.cs.dbIndex key { e with value := k.put t } } := Stores.assign t
  rw [hstores.store_bind]
  exact hf.outcome ⟨hothers.assign _, _, t, hafter.entry, hafter.value, ht⟩

/-- The rest of a handler, from where no stored value is empty. -/
theorem leads_of_full {m : M β} (hP : ∀ t, P t → Filled (k.put t)) (hm : Leads Full m post) :
    Leads (FullAt k key P) m post :=
  hm.weaken fun _ hw => FullAt.full hw hP

/-- A reply, after which the handler ends. -/
theorem leads_emit (f : Bytes → Bytes) (hP : ∀ t, P t → Filled (k.put t)) :
    Leads (FullAt k key P) (emit f) fun _ => Full :=
  leads_of_full hP (leads_reply f)

/-- A reply, when the value is as it was found. -/
theorem leads_same (f : Bytes → Bytes) (ht : Filled (k.put t)) :
    Leads (FullAt k key (· = t)) (emit f) fun _ => Full :=
  leads_emit f fun _ hu => hu ▸ ht

/-- An error, when the value is as it was found. -/
theorem leads_refuse (s : Bytes) (ht : Filled (k.put t)) :
    Leads (FullAt k key (· = t)) (replyError s) fun _ => Full := leads_same _ ht

/-- The last write, and the reply. -/
theorem leads_finish (f : Bytes → Bytes) (ht : Filled (k.put t)) :
    Leads (FullAt k key P) (store k (some key) t >>= fun _ => emit f) fun _ => Full :=
  leads_store (Q := fun u => Filled (k.put u)) ht (leads_emit f fun _ hu => hu)

/-- The key is deleted. -/
theorem leads_delete : Leads (FilledBut key) (delete key) fun _ => Full := by
  refine Triple.intro fun w hw => ?_
  intro i key' e he
  rw [Database.lookup_delete] at he
  split_ifs at he with hkey
  exact hw i key' e hkey he

/-- A typed lookup of the key, which finds nothing or a value with `P`. -/
theorem leads_withTyped (hmissing : Leads Full (body .missing none) fun _ => Full)
    (hfound : ∀ t, P t → Filled (k.put t) →
      Leads (FullAt k key (· = t)) (body .found (some key)) fun _ => Full) :
    Leads (fun w => Full w ∧ ∀ t, typedAt env k key w = some t → P t) (withTyped env k key body)
      fun _ => Full := by
  refine Triple.intro fun w hw => ?_
  obtain ⟨hfull, hP⟩ := hw
  have hafter := full_afterLookup env key hfull
  rw [withTyped_eq]
  cases hr : probe env k.type key w with
  | missing => exact hmissing.outcome hafter
  | wrongType => exact hafter
  | found =>
    obtain ⟨t, ht⟩ := exists_typedAt hr
    exact (hfound t (hP t ht) (hfull.typedAt ht)).outcome
      ⟨fun i key' e _ he => hafter i key' e he, at_of_typedAt ht⟩

/-- A typed lookup of the key, for which nothing needs to be known of the value. -/
theorem leads_typed (hmissing : Leads Full (body .missing none) fun _ => Full)
    (hfound : ∀ t, Filled (k.put t) →
      Leads (FullAt k key (· = t)) (body .found (some key)) fun _ => Full) :
    Leads Full (withTyped env k key body) fun _ => Full :=
  (leads_withTyped (P := fun _ => True) hmissing fun t _ => hfound t).weaken
    fun _ hw => ⟨hw, fun _ _ => trivial⟩

/-- A typed lookup, after which an argument is read. The handler is refused, or replies that there
is no value, or goes on with the value and what it read, of which `R` is known. -/
theorem leads_withOption {read : M (Option α)} {R : α → Prop}
    {f : LookupResult → Handle → Option α → M Unit}
    (hread : ∀ J, Safe J (fun _ => True) read fun r => ∀ a, r = some a → R a)
    (hnone : ∀ r p, ∃ s, f r p none = replyError s)
    (hmissing : ∀ a, ∃ g, f .missing none (some a) = emit g)
    (hfound : ∀ t a, P t → Filled (k.put t) → R a →
      Leads (FullAt k key (· = t)) (f .found (some key) (some a)) fun _ => Full) :
    Leads (fun w => Full w ∧ ∀ t, typedAt env k key w = some t → P t)
      (withTyped env k key fun r p => read >>= f r p) fun _ => Full := by
  refine leads_withTyped ((hread _).triple_bind fun o _ => ?_) fun t hP hpos =>
    (hread _).triple_bind fun o hR => ?_
  · cases o with
    | none =>
      obtain ⟨s, hs⟩ := hnone .missing none
      exact hs ▸ leads_error s
    | some a =>
      obtain ⟨g, hg⟩ := hmissing a
      exact hg ▸ leads_reply g
  · cases o with
    | none =>
      obtain ⟨s, hs⟩ := hnone .found (some key)
      exact hs ▸ leads_refuse s hpos
    | some a => exact hfound t a hP hpos (hR a rfl)

/-- A handler that adds an element to whatever it gets or creates. -/
theorem leads_create {body : Handle → M Unit} (hnone : Leads Full (body none) fun _ => Full)
    (hsome : Leads (FullAt k key fun _ => True) (body (some key)) fun _ => Full) :
    Leads Full (findOrCreate env k empty key >>= body) fun _ => Full := by
  refine Triple.intro fun w hw => ?_
  rw [bind_apply]
  rcases wrongType_or_gets env k empty key w with hwrong | ⟨e, t, hgets⟩
  · rw [hwrong.findOrCreate_eq]
    exact hnone.outcome hw
  · obtain ⟨w₁, hw₁, haltered, -⟩ := hgets.findOrCreate_eq
    have hstores : Stores k key e t w₁ := haltered.stores hgets.value
    rw [hw₁]
    refine hsome.outcome ⟨fun i key' e' hne he' => ?_, e, t, hstores.entry, hstores.value, trivial⟩
    rw [haltered.cs] at hne
    rw [haltered.others i key' hne] at he'
    exact hw i key' e' he'

/-! ## Loops over the arguments -/

/-- A loop over the arguments from `i₀` on, with a property of the value under the key that may
depend on the index. -/
theorem leads_forArgs {stride i₀ : ℕ} {body : ℕ → α → M α} {f : α → M β} {a : α} (P : ℕ → T → Prop)
    {Q R : T → Prop} (hstride : 0 < stride) (hstart : ∀ t, Q t → P i₀ t)
    (hbody : ∀ i a, i₀ ≤ i → i < argv.length →
      Leads (FullAt k key (P i)) (body i a) fun _ => FullAt k key (P (i + stride)))
    (hend : ∀ j t, argv.length ≤ j → P j t → R t) (hf : ∀ a, Leads (FullAt k key R) (f a) post) :
    Leads (FullAt k key Q) (forArgs argv stride body i₀ a >>= f) post := by
  have hstep : ∀ i a, i < argv.length →
      Leads (fun w => i₀ ≤ i ∧ FullAt k key (P i) w)
        (body i a >>= fun a => pure (Step.next (i + stride) a))
        (Step.After (fun j (_ : α) w => i < j ∧ i₀ ≤ j ∧ FullAt k key (P j) w)
          fun (_ : Empty) _ => True) := by
    intro i a hi
    refine Triple.intro fun w hw => ?_
    obtain ⟨hle, hw⟩ := hw
    have hnext : Leads (FullAt k key (P i)) (body i a >>= fun a => pure (Step.next (i + stride) a))
        (Step.After (fun j (_ : α) w => i < j ∧ i₀ ≤ j ∧ FullAt k key (P j) w)
          fun (_ : Empty) _ => True) :=
      (hbody i a hle hi).bind fun a => Triple.intro fun w' hw' =>
        ⟨Nat.lt_add_of_pos_right hstride, hle.trans (Nat.le_add_right _ _), hw'⟩
    exact hnext.outcome hw
  have hloop := leads_argLoop hstep argv.length i₀ a (Nat.le_add_right _ _)
  have hfor : Leads (FullAt k key Q) (forArgs argv stride body i₀ a) fun _ => FullAt k key R := by
    unfold forArgs
    refine (hloop.weaken (fun w hw => ⟨le_rfl, hw.imp hstart⟩)).bind fun r => ?_
    cases r with
    | stop b => exact b.elim
    | next j a =>
      refine Triple.intro fun w hw => ?_
      obtain ⟨hj, -, hw⟩ := hw
      exact hw.imp fun t ht => hend j t hj ht
  exact hfor.bind hf

/-! ## Elements by their names -/

/-- Some key of a dictionary is not among the arguments from the third on. -/
def spares {V : Type} (argv : Args) (d : Dict Bytes V) : Bool :=
  d.toList.any fun p => decide (p.1 ∉ argv.drop 2)

/-- One of them. -/
theorem exists_of_spares (h : spares argv d = true) : ∃ a ∈ d, a ∉ argv.drop 2 := by
  obtain ⟨p, hp, hnot⟩ := List.any_eq_true.1 h
  exact ⟨p.1, Dict.mem_iff_mem_toList.2 (List.mem_map_of_mem hp), of_decide_eq_true hnot⟩

/-- An argument from the third on. -/
theorem getD_mem_drop {i : ℕ} (h2 : 2 ≤ i) (hi : i < argv.length) :
    argv.getD i [] ∈ argv.drop 2 := by
  rw [List.getD_eq_getElem?_getD, List.getElem?_eq_getElem hi, Option.getD_some]
  have hget : (argv.drop 2)[i - 2]? = some argv[i] := by
    rw [List.getElem?_drop, Nat.add_sub_cancel' h2, List.getElem?_eq_getElem hi]
  exact List.mem_of_getElem? hget

/-- A loop that erases the arguments from the third on from a dictionary, one of whose keys is not
among them. -/
theorem leads_eraseArgs {k : Kind (Dict Bytes V)} (hk : ∀ d, 0 < d.size → Filled (k.put d))
    (count : Dict Bytes V → Bytes → ℕ → ℕ) (hd : spares argv d = true) :
    Leads (FullAt k key (· = d)) (do
      let n ← forArgs argv 1 (fun i n => do
        let d ← deref k (some key)
        let a ← arg argv i
        store k (some key) (d.erase a)
        pure (count d a n)) 2 0
      replyInt n) fun _ => Full := by
  obtain ⟨a, ha, hnot⟩ := exists_of_spares hd
  refine leads_forArgs (fun _ => (a ∈ ·)) Nat.one_pos (fun t ht => ht ▸ ha) (fun i n h2 hi => ?_)
    (fun _ _ _ hd => hd) fun n => leads_emit _ fun d hd => hk d (Dict.size_pos_of_mem hd)
  refine leads_deref fun d hd => leads_arg fun _ => ?_
  refine leads_store (Q := (a ∈ ·)) ?_ (Triple.intro fun w hw => hw)
  have hne : a ≠ argv.getD i [] := fun hc => hnot (hc ▸ getD_mem_drop h2 hi)
  exact AList.mem_erase.2 ⟨hne, hd⟩

/-- The loop does not get far if there is no value. -/
theorem leads_eraseArgs_null {k : Kind (Dict Bytes V)} {f : ℕ → ℕ → Dict Bytes V → M ℕ} :
    Leads Full (do
      let n ← forArgs argv 1 (fun i n => deref k none >>= f i n) 2 0
      replyInt n) fun _ => Full :=
  leads_of_runs (Safe.bind (keeps_forArgs_true (fun _ _ _ => keeps_null_bind k trivial) _ _)
    fun _ _ => keeps_emit _)

/-! ## Two keys -/

section

variable {src dst : Bytes}

/-- A move from `src` to `dst` takes nothing away, or the value under `src` passes a test. -/
def moveSpares (env : Env) (k : Kind T) (spare : T → Bool) (src dst : Bytes) (w : World) : Bool :=
  decide (src = dst) || decide (probe env k.type dst (afterLookup env src w) = .wrongType) ||
    (typedAt env k src w).all spare

/-- The value from which an element is taken passes the test. -/
theorem spare_of_moveSpares {spare : T → Bool} (h : moveSpares env k spare src dst w = true)
    (hne : src ≠ dst) (ht : typedAt env k src w = some t)
    (hdst : probe env k.type dst (afterLookup env src w) ≠ .wrongType) : spare t = true := by
  unfold moveSpares at h
  rw [decide_eq_false hne, decide_eq_false hdst, ht] at h
  exact h

/-- A move to another key does not find a value of another type there. -/
theorem Gets.probe_ne {e : Entry} (h : Gets env k empty key e t w) :
    probe env k.type key w ≠ .wrongType := by
  unfold probe
  rcases h.found with hlive | ⟨hlive, -⟩
  · rw [hlive]
    dsimp only
    rw [if_pos (k.type_of_get h.value)]
    exact nofun
  · rw [hlive]
    exact nofun

/-- A move leaves no empty value, if the source is left with an element. -/
theorem full_of_moved {split : T → T → (T → T) → Prop} {db : Database}
    (h : Moved env k empty src dst split w db) (hw : Full w)
    (hadd : ∀ t d rest add, split t rest add → Filled (k.put (add d)))
    (hrest : ∀ t rest add, src ≠ dst → typedAt env k src w = some t →
      probe env k.type dst (afterLookup env src w) ≠ .wrongType → split t rest add →
      Filled (k.put rest)) : AllValues Filled db := by
  have hafter := full_afterLookup env src hw
  have hafter' := full_afterLookup env dst hafter
  cases h with
  | looked h =>
    rcases h with rfl | rfl
    · exact hafter
    · exact hafter'
  | turned _ _ hsplit h =>
    subst h
    intro i key e he
    rw [Database.lookup_assign] at he
    split_ifs at he
    · cases he
      exact hadd _ _ _ _ hsplit
    · exact hw i key e he
  | moved hne hsrc hdst hopen _ _ hsplit h =>
    subst h
    intro i key e he
    rw [Database.lookup_assign, Database.lookup_assign] at he
    split_ifs at he with hkey
    · cases he
      exact hadd _ _ _ _ hsplit
    · cases he
      exact hrest _ _ _ hne (typedAt_eq_some.2 ⟨_, hsrc⟩) hdst.probe_ne hsplit
    · rcases hopen with rfl | rfl
      · exact hafter' i key e he
      · rw [Database.lookup_set, if_neg hkey] at he
        exact hafter' i key e he

end

end TinyRedis.Commands

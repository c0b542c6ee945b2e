import TinyRedis.Commands.Rules.Soundness
import TinyRedis.Db.Purge

/-!
# Commands do not see entries whose deadline has come

Two worlds are alike at the time `t` if they differ only in entries whose deadline has come at `t`.
A program that obeys the rules, and looks at entries only through `Lookup`, does the same in both:
it replies the same, and ends in worlds that are alike again.

The argument goes along the rules once more, with two runs side by side. The entries that are held
in a phase are live at `t`, so they are there in both worlds.
-/

namespace TinyRedis.Commands

open Lib Resp

variable {r : Rules} {p : Phase} {α β : Type} {w w' : World} {t : Int64} {key : Bytes}

/-- The worlds differ only in entries whose deadline has come, in the counters, and in what was read
and replied so far. -/
structure World.Near (t : Int64) (w w' : World) : Prop where
  db : w.db.Alike t w'.db
  maxMemory : w.db.maxMemory = w'.db.maxMemory
  lastSave : w.lastSave = w'.lastSave
  startTime : w.stats.startTimeUs = w'.stats.startTimeUs
  cs : w.cs = w'.cs

/-- The worlds differ only in entries whose deadline has come, and in the counters. -/
structure World.Alike (t : Int64) (w w' : World) : Prop extends World.Near t w w' where
  tick : w.tick = w'.tick
  out : w.out = w'.out

/-- The same is done to both databases, and the clock is read `k` times. -/
theorem World.Alike.write (h : w.Alike t w') (f : DbIndex → Database → Database)
    (hf : ∀ i, (f i w.db).Alike t (f i w'.db)) (hmax : ∀ i db, (f i db).maxMemory = db.maxMemory)
    (k : ℕ) : World.Alike t { w with db := f w.cs.dbIndex w.db, tick := w.tick + k }
      { w' with db := f w'.cs.dbIndex w'.db, tick := w'.tick + k } where
  db := by
    dsimp only
    rw [← h.cs]
    exact hf _
  maxMemory := by
    dsimp only
    rw [hmax, hmax]
    exact h.maxMemory
  lastSave := h.lastSave
  startTime := h.startTime
  tick := congrArg (· + k) h.tick
  cs := h.cs
  out := h.out

/-- Output and counters may change. -/
theorem World.Near.aside (h : w.Near t w') (out out' : Bytes) (n n' : ℕ) :
    World.Near t { w with out := out, tick := n } { w' with out := out', tick := n' } :=
  ⟨h.db, h.maxMemory, h.lastSave, h.startTime, h.cs⟩

/-- The same is replied in both. -/
theorem World.Alike.reply (h : w.Alike t w') (f : Bytes → Bytes) :
    World.Alike t { w with out := f w.out } { w' with out := f w'.out } :=
  ⟨h.aside _ _ _ _, h.tick, congrArg f h.out⟩

/-- Two runs end with the same fault, or with results and states in the relation `R`. -/
inductive Agree {σ : Type} (R : α → σ → α → σ → Prop) :
    Except CommandFault (α × σ) → Except CommandFault (α × σ) → Prop
  | error (f : CommandFault) : Agree R (.error f) (.error f)
  | ok {a a' : α} {s s' : σ} : R a s a' s' → Agree R (.ok (a, s)) (.ok (a', s'))

/-- One computation after another. -/
theorem Agree.andThen {σ τ : Type} {R : α → σ → α → σ → Prop} {S : β → τ → β → τ → Prop}
    {x x' : Except CommandFault (α × σ)} {f f' : α × σ → Except CommandFault (β × τ)}
    (h : Agree R x x') (hf : ∀ a s a' s', R a s a' s' → Agree S (f (a, s)) (f' (a', s'))) :
    Agree S (x >>= f) (x' >>= f') := by
  cases h with
  | error e => exact .error e
  | ok hR => exact hf _ _ _ _ hR

/-- One program after another. -/
theorem Agree.bind {R : α → World → α → World → Prop} {S : β → World → β → World → Prop}
    {m m' : M α} {f f' : α → M β} (h : Agree R (m w) (m' w'))
    (hf : ∀ a w₁ a' w₁', R a w₁ a' w₁' → Agree S (f a w₁) (f' a' w₁')) :
    Agree S ((m >>= f) w) ((m' >>= f') w') :=
  h.andThen hf

/-- A weaker relation. -/
theorem Agree.imp {σ : Type} {R S : α → σ → α → σ → Prop} {x x' : Except CommandFault (α × σ)}
    (h : Agree R x x') (hRS : ∀ a s a' s', R a s a' s' → S a s a' s') : Agree S x x' := by
  cases h with
  | error e => exact .error e
  | ok hR => exact .ok (hRS _ _ _ _ hR)

/-- What is known of the entries in the phase `p`. -/
structure Holding (t : Int64) (p : Phase) (w : World) : Prop where
  live : ∀ key ∈ p.held, ∃ e, (w.db.table w.cs.dbIndex).lookup key = some e ∧
    Database.expired e t = false
  created : ∀ key v, p.stage ≠ .moved → p.created = some (key, v) →
    (w.db.table w.cs.dbIndex).lookup key = some ⟨v, 0⟩
  moved : p.stage = .moved → p.held = ∅

/-- At first nothing is known. -/
theorem holding_nothing (t : Int64) (w : World) (s : Stage) : Holding t ⟨∅, none, s, .none⟩ w :=
  ⟨fun _ hkey => hkey.elim, fun _ _ _ hc => (by cases hc), fun _ => rfl⟩

namespace Holding

/-- It is still known after a lookup. -/
theorem looked (h : Holding t p w) (hs : p.stage = .clean ∨ p.stage = .fresh) :
    Holding t p.looked w := by
  refine ⟨h.live, fun key v _ hc => h.created key v (fun hm => ?_) hc, fun hm => by cases hm⟩
  rcases hs with hs | hs <;> cases hs.symm.trans hm

/-- A change that keeps the table. -/
theorem of_table (h : Holding t p w) {p' : Phase} (hheld : p'.held = p.held)
    (hcreated : p'.created = p.created) (hstage : p'.stage = p.stage)
    (htable : w'.db.table w'.cs.dbIndex = w.db.table w.cs.dbIndex) : Holding t p' w' := by
  refine ⟨fun key hkey => ?_, fun key v hm hc => ?_, fun hm => ?_⟩
  · rw [htable]
    exact h.live key (hheld ▸ hkey)
  · rw [htable]
    exact h.created key v (hstage ▸ hm) (hcreated ▸ hc)
  · rw [hheld]
    exact h.moved (hstage ▸ hm)

/-- A new entry for one key. The others that are held are as they were. -/
theorem insert (h : Holding t p w) {e : Entry} {held : Set Bytes}
    {created : Option (Bytes × Value)} {a : Answer}
    (hnew : w'.db.table w'.cs.dbIndex = (w.db.table w.cs.dbIndex).insert key e)
    (hrest : ∀ key' ∈ held, key' ≠ key → key' ∈ p.held)
    (hkey : key ∈ held → Database.expired e t = false)
    (hcreated : ∀ key' v, created = some (key', v) → key' = key ∧ e = ⟨v, 0⟩) :
    Holding t ⟨held, created, .dirty, a⟩ w' := by
  refine ⟨fun key' hkey' => ?_, fun key' v _ hc => ?_, fun hm => by cases hm⟩
  · rw [hnew]
    by_cases hk : key' = key
    · subst hk
      exact ⟨e, AList.lookup_insert _, hkey hkey'⟩
    · rw [AList.lookup_insert_ne hk]
      exact h.live key' (hrest key' hkey' hk)
  · obtain ⟨rfl, rfl⟩ := hcreated key' v hc
    rw [hnew, AList.lookup_insert]

/-- One key is erased, and not held any more. -/
theorem erase (h : Holding t p w) {a : Answer}
    (hnew : w'.db.table w'.cs.dbIndex = (w.db.table w.cs.dbIndex).erase key) :
    Holding t ⟨p.held \ {key}, none, .dirty, a⟩ w' := by
  refine ⟨fun key' hkey' => ?_, fun _ _ _ hc => (by cases hc), fun hm => by cases hm⟩
  rw [hnew, AList.lookup_erase_ne hkey'.2]
  exact h.live key' hkey'.1

end Holding

/-! ## The steps of a handler -/

/-- The table after an assignment. -/
theorem table_assign_self (db : Database) (i : DbIndex) (key : Bytes) (e : Entry) :
    (db.assign i key e).table i = (db.table i).insert key e :=
  (Database.table_assign db i i key e).trans (if_pos rfl)

/-- The table after `Set`. -/
theorem table_set_self (db : Database) (i : DbIndex) (key : Bytes) (v : Value) (d : Int64) :
    (db.set i key v d).table i = (db.table i).insert key ⟨v, d⟩ :=
  (Database.table_set db i i key v d).trans (if_pos rfl)

/-- A lookup finds the same entry, which is live, or no entry. -/
theorem agree_lookup {env : Env} (hclock : ∀ n, env.nowMs n = t) (h : w.Alike t w')
    (hp : Holding t p w) (hs : p.stage ≠ .moved) (key : Bytes) :
    Agree (fun o w₁ o' w₁' => o' = o ∧ w₁.Alike t w₁' ∧ Holding t p w₁ ∧
      (o = none ∨ ∃ e, o = some e ∧ Holding t (p.hold key) w₁)) (lookup env key w)
      (lookup env key w') := by
  have hfound : live env key w' = live env key w := by
    unfold live
    rw [hclock, hclock, ← h.cs]
    exact (h.db.lookup_fst _ key).symm
  have halike : (afterLookup env key w).Alike t (afterLookup env key w') := by
    unfold afterLookup
    rw [hclock, hclock]
    refine h.write (fun i db => (db.lookup i key t).2) (fun i => ?_) (fun i db => ?_) 1
    · exact ((Database.alike_lookup _ i key t).trans h.db).trans
        (Database.alike_lookup _ i key t).symm
    · exact Database.maxMemory_lookup db i key t
  rw [lookup_eq, lookup_eq, hfound]
  refine .ok ⟨rfl, halike, ?_⟩
  cases hl : live env key w with
  | some e =>
    obtain ⟨he, hdb⟩ := lookup_of_live hl
    have htable : (afterLookup env key w).db.table (afterLookup env key w).cs.dbIndex =
        w.db.table w.cs.dbIndex := congrArg (fun db => db.table w.cs.dbIndex) hdb
    have hlive : Database.expired e t = false := by
      unfold live at hl
      rw [hclock, Database.lookup_fst] at hl
      exact (Database.lookup_purgeTable_iff.1 hl).2
    have hp₁ : Holding t p (afterLookup env key w) := hp.of_table rfl rfl rfl htable
    refine ⟨hp₁, .inr ⟨e, rfl, ?_⟩⟩
    refine ⟨fun key' hkey' => ?_, hp₁.created, fun hm => absurd hm hs⟩
    rcases hkey' with rfl | hkey'
    · rw [htable]
      exact ⟨e, he, hlive⟩
    · exact hp₁.live key' hkey'
  | none =>
    -- What is dropped was not live, so it was not held.
    have hkept : ∀ key' e, (w.db.table w.cs.dbIndex).lookup key' = some e →
        Database.expired e t = false →
        ((afterLookup env key w).db.table w.cs.dbIndex).lookup key' = some e := by
      intro key' e he hlive
      refine (Database.alike_lookup w.db w.cs.dbIndex key t).symm.lookup_of_live he hlive ▸ ?_
      unfold afterLookup
      rw [hclock]
    refine ⟨⟨fun key' hkey' => ?_, fun key' v hm hc => ?_, hp.moved⟩, .inl rfl⟩
    · obtain ⟨e, he, hlive⟩ := hp.live key' hkey'
      exact ⟨e, hkept key' e he hlive, hlive⟩
    · exact hkept key' _ (hp.created key' v hm hc) rfl

/-- A write to an entry that is held. -/
theorem agree_modifyEntry (h : w.Alike t w') (hp : Holding t p w) (hkey : key ∈ p.held)
    (f : Entry → Entry) :
    Agree (fun _ w₁ _ w₁' => w₁.Alike t w₁' ∧ ∃ e, Database.expired e t = false ∧
      w₁ = { w with db := w.db.assign w.cs.dbIndex key (f e) }) (modifyEntry key f w)
      (modifyEntry key f w') := by
  obtain ⟨e, he, hlive⟩ := hp.live key hkey
  have he' := h.db.lookup_of_live he hlive
  rw [h.cs] at he'
  unfold modifyEntry
  rw [he, he']
  refine .ok ⟨?_, e, hlive, rfl⟩
  exact h.write (fun i db => db.assign i key (f e)) (fun i => h.db.assign i key (f e))
    (fun _ _ => rfl) 0

/-- The two runs of a program that obeys the rules. -/
theorem Obeys.agree (hclock : ∀ n, r.env.nowMs n = t) (hwhole : r.whole = false)
    (hloose : r.loose = false) (hblind : r.blind = false) (hfree : r.Free) {m : M α}
    {Q : α → Phase → Prop} (hm : Obeys r p m Q) (h : w.Alike t w') (hp : Holding t p w) :
    Agree (fun a w₁ a' w₁' => a' = a ∧ ∃ p', Q a p' ∧ w₁.Alike t w₁' ∧ Holding t p' w₁) (m w)
      (m w') := by
  induction hm generalizing w w' with
  | pure hQ => exact .ok ⟨rfl, _, hQ, h, hp⟩
  | bind _ _ ihm ihf =>
    refine (ihm h hp).bind fun a w₁ a' w₁' ⟨ha, p', hQ, h₁, hp₁⟩ => ?_
    subst ha
    exact ihf a' p' hQ h₁ hp₁
  | imp _ hQR ih =>
    refine (ih h hp).imp fun a w₁ a' w₁' ⟨ha, p', hQ, h₁, hp₁⟩ => ?_
    exact ⟨ha, p', hQR _ _ hQ, h₁, hp₁⟩
  | @forget _ p p' _ _ _ hheld hcreated hstage _ ih =>
    have hmoved : p.stage = .moved ↔ p'.stage = .moved := by
      rcases hstage with hs | ⟨hs, hs'⟩
      · rw [hs]
      · rw [hs, hs']
        exact ⟨fun hc => (by cases hc), fun hc => (by cases hc)⟩
    refine ih h ⟨fun key hkey => hp.live key (hheld hkey), fun key v hm hc => ?_, fun hm => ?_⟩
    · rcases hcreated with hn | hs
      · rw [hn] at hc
        cases hc
      · exact hp.created key v (mt hmoved.2 hm) (hs ▸ hc)
    · exact Set.subset_empty_iff.1 (hp.moved (hmoved.1 hm) ▸ hheld)
  | fault => exact .error _
  | tick _ hQ =>
    unfold Commands.tick
    rw [h.tick]
    exact .ok ⟨rfl, _, hQ _, ⟨h.aside _ _ _ _, rfl, h.out⟩, hp.of_table rfl rfl rfl rfl⟩
  | @lookup p key Q hkey hs hnone hsome =>
    refine (agree_lookup hclock h (hp.looked hs) (Phase.stage_ne_moved rfl) key).imp
      fun o w₁ o' w₁' ⟨ho', h₁, hp₁, ho⟩ => ?_
    rcases ho with rfl | ⟨e, rfl, hhold⟩
    · exact ⟨ho', _, hnone fun _ => hfree.finds _ _, h₁, hp₁⟩
    · exact ⟨ho', _, hsome e (hfree.values _) fun _ => hfree.finds _ _, h₁, hhold⟩
  | @entry p key Q hkey hQ =>
    obtain ⟨e, he, hlive⟩ := hp.live key hkey
    have he' := h.db.lookup_of_live he hlive
    rw [h.cs] at he'
    unfold Commands.entry
    rw [he, he']
    exact .ok ⟨rfl, _, hQ e (hfree.values _), h, hp⟩
  | @entryCreated p key v Q hkey hcreated hQ =>
    have hmoved : p.stage ≠ .moved := fun hm => by
      rw [hp.moved hm] at hkey
      exact hkey
    have he := hp.created key v hmoved hcreated
    have he' := h.db.lookup_of_live he rfl
    rw [h.cs] at he'
    unfold Commands.entry
    rw [he, he']
    exact .ok ⟨rfl, _, hQ 0, h, hp⟩
  | @assignValue p key v Q hkey hmay _ _ hQ =>
    refine (agree_modifyEntry h hp hkey _).imp fun _ w₁ _ w₁' ⟨h₁, e, hlive, hw₁⟩ => ?_
    subst hw₁
    refine ⟨rfl, _, hQ, h₁, hp.insert (table_assign_self _ _ _ _) (fun _ hkey' _ => hkey')
      (fun _ => hlive) fun _ _ hc => by cases hc⟩
  | @assignDeadline p key d Q hkey hmay hQ =>
    refine (agree_modifyEntry h hp hkey _).imp fun _ w₁ _ w₁' ⟨h₁, e, hlive, hw₁⟩ => ?_
    subst hw₁
    exact ⟨rfl, _, hQ, h₁, hp.insert (table_assign_self _ _ _ _) (fun _ hkey' _ => hkey'.1)
      (fun hc => absurd rfl hc.2) fun _ _ hc => by cases hc⟩
  | @set p key v d Q hkey hmay _ hQ =>
    refine .ok ⟨rfl, _, hQ, h.write (fun i db => db.set i key v d) (fun i => h.db.set i key v d)
      (fun i db => Database.apart_maxMemory.set db i key v d) 0, ?_⟩
    exact hp.insert (table_set_self _ _ _ _ _) (fun _ hkey' _ => hkey'.1)
      (fun hc => absurd rfl hc.2) fun _ _ hc => by cases hc
  | @setAndLookup p key v Q hkey hmay _ hQ =>
    rw [setAndLookup_eq, setAndLookup_eq]
    refine .ok ⟨rfl, _, hQ, h.write (fun i db => db.set i key v 0) (fun i => h.db.set i key v 0)
      (fun i db => Database.apart_maxMemory.set db i key v 0) 1, ?_⟩
    refine hp.insert (table_set_self _ _ _ _ _)
      (fun key' hkey' hne => hkey'.resolve_left hne) (fun _ => rfl) fun key' v' hc => ?_
    cases hc
    exact ⟨rfl, rfl⟩
  | @delete p key Q hkey hheld hmay hQ =>
    have hheld : key ∈ p.held := hheld.resolve_right fun hb => by rw [hblind] at hb; cases hb
    obtain ⟨e, he, hlive⟩ := hp.live key hheld
    have he' := h.db.lookup_of_live he hlive
    have hboth : (w.db.delete w.cs.dbIndex key).1 = (w'.db.delete w'.cs.dbIndex key).1 := by
      unfold Database.delete
      rw [← h.cs, he, he']
    unfold Commands.delete
    dsimp only
    rw [hboth]
    refine .ok ⟨rfl, _, hQ _, h.write (fun i db => (db.delete i key).2) (fun i => h.db.delete i key)
      (fun i db => Database.apart_maxMemory.delete db i key) 0, ?_⟩
    exact hp.erase ((Database.table_delete _ _ _ _).trans (if_pos rfl))
  | first _ _ _ _ hQ => exact .ok ⟨rfl, _, hQ, h.reply _, hp.of_table rfl rfl rfl rfl⟩
  | header _ _ hQ => exact .ok ⟨rfl, _, hQ, h.reply _, hp.of_table rfl rfl rfl rfl⟩
  | values _ _ _ hQ => exact .ok ⟨rfl, _, hQ, h.reply _, hp.of_table rfl rfl rfl rfl⟩
  | inner _ _ hQ => exact .ok ⟨rfl, _, hQ, h.reply _, hp.of_table rfl rfl rfl rfl⟩
  | @error p s Q _ _ _ hQ =>
    exact .ok ⟨rfl, _, hQ, h.reply (appendErrorReply · s), hp.of_table rfl rfl rfl rfl⟩
  | @session p g Q hg _ hQ =>
    refine .ok ⟨rfl, _, hQ,
      ⟨⟨h.db, h.maxMemory, h.lastSave, h.startTime, congrArg g h.cs⟩, h.tick, h.out⟩, ?_⟩
    exact hp.of_table rfl rfl rfl (congrArg w.db.table (hg w.cs))
  | select _ _ _ hQ =>
    refine .ok ⟨rfl, _, hQ, ⟨⟨h.db, h.maxMemory, h.lastSave, h.startTime, ?_⟩, h.tick, h.out⟩, ?_⟩
    · dsimp only
      rw [h.cs]
    · exact ⟨fun _ hkey => hkey.elim, fun _ _ hm _ => absurd rfl hm, fun _ => rfl⟩
  | @aside p g Q hg hQ =>
    obtain ⟨hcs, hout, htick⟩ := hg.apart w
    obtain ⟨hcs', hout', htick'⟩ := hg.apart w'
    have hdb : (g w).db.table = w.db.table :=
      (congrArg Database.table (hg.db w)).trans rfl
    have hdb' : (g w').db.table = w'.db.table :=
      (congrArg Database.table (hg.db w')).trans rfl
    obtain ⟨hmax, hsave⟩ := hg.steady w w' h.maxMemory h.lastSave
    refine .ok ⟨rfl, _, hQ, ⟨⟨?_, hmax, hsave, ?_, ?_⟩, ?_, ?_⟩, ?_⟩
    · exact ((Database.alike_of_table hdb).trans h.db).trans (Database.alike_of_table hdb').symm
    · rw [(hg.stats w).1, (hg.stats w').1, h.startTime]
    · rw [hcs, hcs', h.cs]
    · rw [htick, htick', h.tick]
    · rw [hout, hout', h.out]
    · refine hp.of_table rfl rfl rfl ?_
      rw [hcs]
      exact congrFun hdb _
  | get hw => rw [hwhole] at hw; cases hw
  | table hw => rw [hwhole] at hw; cases hw
  | sweep hl => rw [hloose] at hl; cases hl
  | loose hl => rw [hloose] at hl; cases hl

end TinyRedis.Commands

import TinyRedis.Commands.Rules.Basic
import TinyRedis.Db.Purge

/-!
# What a program does that obeys the rules

`Respects r w₀ p w` says what is known in the phase `p`, of a program that has come from the world
`w₀` to the world `w`. The entries under other keys than those of the rules are as they were. While
nothing is written, entries only disappear when their deadline comes, and each is counted in
`total_expired_`; if none of those that are looked up reaches its deadline, nothing is counted. The
bytes that were appended are a value, or the beginning of one. What the rules say of the database
holds all along, and the program meets no faults but those that they allow (`Obeys.holds`).
-/

namespace TinyRedis

open Lib

namespace Database

variable {db db' db'' : Database} {d : DbIndex} {keys : Set Bytes} {key : Bytes} {e : Entry}
  {env : Env} {n i : ℕ} {stage : Stage}

/-- Nothing changed but the entries in the key space `d` under the keys `keys`. -/
structure Framed (keys : Set Bytes) (d : DbIndex) (db db' : Database) : Prop where
  tables : ∀ j, j ≠ d → db'.table j = db.table j
  entries : ∀ key, key ∉ keys → (db'.table d).lookup key = (db.table d).lookup key

/-- Nothing changed. -/
theorem Framed.refl (keys : Set Bytes) (d : DbIndex) (db : Database) : Framed keys d db db :=
  ⟨fun _ _ => rfl, fun _ _ => rfl⟩

/-- One change after another. -/
theorem Framed.trans (h : Framed keys d db db') (h' : Framed keys d db' db'') :
    Framed keys d db db'' :=
  ⟨fun j hj => (h'.tables j hj).trans (h.tables j hj),
    fun key hkey => (h'.entries key hkey).trans (h.entries key hkey)⟩

/-- A write to one key space. -/
theorem framed_of_table {t : Table} (h : ∀ j, db'.table j = if j = d then t else db.table j)
    (ht : ∀ key, key ∉ keys → t.lookup key = (db.table d).lookup key) : Framed keys d db db' := by
  refine ⟨fun j hj => ?_, fun key hkey => ?_⟩
  · rw [h, if_neg hj]
  · rw [h, if_pos rfl, ht key hkey]

/-- An entry is written. -/
theorem framed_insert (hkey : key ∈ keys)
    (h : ∀ j, db'.table j = if j = d then (db.table d).insert key e else db.table j) :
    Framed keys d db db' :=
  framed_of_table h fun _ hkey' => AList.lookup_insert_ne fun hc => hkey' (hc ▸ hkey)

/-- An entry is dropped. -/
theorem framed_erase (hkey : key ∈ keys)
    (h : ∀ j, db'.table j = if j = d then (db.table d).erase key else db.table j) :
    Framed keys d db db' :=
  framed_of_table h fun _ hkey' => AList.lookup_erase_ne fun hc => hkey' (hc ▸ hkey)

/-- `Set` writes one entry. -/
theorem framed_set (hkey : key ∈ keys) (v : Value) (t : Int64) :
    Framed keys d db (db.set d key v t) :=
  framed_insert hkey fun j => table_set db d j key v t

/-- So does a write through a pointer. -/
theorem framed_assign (hkey : key ∈ keys) (e : Entry) : Framed keys d db (db.assign d key e) :=
  framed_insert hkey fun j => table_assign db d j key e

/-- `Lookup` may drop one. -/
theorem framed_lookup (hkey : key ∈ keys) (now : Int64) :
    Framed keys d db (db.lookup d key now).2 :=
  lookup_cases (P := fun r => Framed keys d db r.2) (fun _ => .refl _ _ _)
    (fun e _ _ => framed_erase hkey fun j => table_drop db d j key e) fun _ _ _ => .refl _ _ _

/-- So may `Delete`. -/
theorem framed_delete (hkey : key ∈ keys) : Framed keys d db (db.delete d key).2 :=
  framed_erase hkey fun j => table_delete db d j key

end Database

namespace Commands

open Resp

variable {r : Rules} {p : Phase} {α : Type} {w₀ w w' : World} {key : Bytes}

/-! ## Lookups -/

namespace Aged

variable {env : Env} {i j k : ℕ} {db db' db'' : Database}

/-- Nothing is dropped. -/
theorem refl (env : Env) (i j : ℕ) (db : Database) : Aged env i j db db := fun _ _ => .inl rfl

/-- One time span after another. -/
theorem trans (h : Aged env i j db db') (h' : Aged env j k db' db'') (hij : i ≤ j) (hjk : j ≤ k) :
    Aged env i k db db'' := by
  intro d key
  rcases h d key with h | ⟨e, n, he, hi, hj, hexp, h⟩
  · rcases h' d key with h' | ⟨e, n, he, hi, hj, hexp, h'⟩
    · exact .inl (h'.trans h)
    · exact .inr ⟨e, n, h ▸ he, by omega, hj, hexp, h'⟩
  · rcases h' d key with h' | ⟨e', n', he', -⟩
    · exact .inr ⟨e, n, he, hi, by omega, hexp, h'.trans h⟩
    · rw [h] at he'
      cases he'

end Aged

/-- An entry whose deadline has come is dropped. -/
theorem aged_drop {d : DbIndex} {db db' : Database} (he : (db.table d).lookup key = some e)
    (hexp : Database.expired e (env.nowMs n) = true)
    (h : ∀ j, db'.table j = if j = d then (db.table d).erase key else db.table j) :
    Aged env n (n + 1) db db' := by
  intro j key'
  rw [h, Database.lookup_dropped]
  split_ifs with hkey
  · obtain ⟨rfl, rfl⟩ := hkey
    exact .inr ⟨e, n, he, le_refl n, n.lt_succ_self, hexp, rfl⟩
  · exact .inl rfl

/-- A lookup drops an entry only when its deadline has come. -/
theorem aged_lookup (env : Env) (d : DbIndex) (key : Bytes) (n : ℕ) (db : Database) :
    Aged env n (n + 1) db (db.lookup d key (env.nowMs n)).2 :=
  Database.lookup_cases (P := fun r => Aged env n (n + 1) db r.2) (fun _ => .refl _ _ _ _)
    (fun e he hexp => aged_drop he hexp fun j => Database.table_drop db d j key e)
    fun _ _ _ => .refl _ _ _ _

/-- A lookup goes by the table and the clock. -/
theorem live_congr (hdb : w'.db.dbs = w.db.dbs) (hcs : w'.cs.dbIndex = w.cs.dbIndex)
    (htick : w'.tick = w.tick) (key : Bytes) : live env key w' = live env key w := by
  have htable : w'.db.table w'.cs.dbIndex = w.db.table w.cs.dbIndex := by
    rw [hcs]
    exact congrFun hdb _
  unfold live
  rw [Database.lookup_fst, Database.lookup_fst, htable, htick]

/-! ## Phases -/

/-- What was appended to the output. -/
def Answered (text : Set Bytes) : Answer → Bytes → Prop
  | .none, b => b = []
  | .left n, b => Reply.Partial n b
  | .failed, b => ∃ s ∈ text, b = (Reply.error s).encode

/-- No entry of the world `w₀` under the keys of the rules reaches its deadline before the reading
`n` of the clock. -/
def Lasting (r : Rules) (w₀ : World) (n : ℕ) : Prop :=
  ∀ key ∈ r.keys, ∀ e, (w₀.db.table w₀.cs.dbIndex).lookup key = some e →
    ∀ i, w₀.tick ≤ i → i < n → Database.expired e (r.env.nowMs i) = false

/-- What lasts, lasts for a shorter time. -/
theorem Lasting.anti {j : ℕ} (h : Lasting r w₀ j) (hij : i ≤ j) : Lasting r w₀ i :=
  fun key hkey e he n hn hni => h key hkey e he n hn (hni.trans_le hij)

/-- No entry was dropped, and none was counted as expired. -/
structure Uncounted (w₀ w : World) (stage : Stage) : Prop where
  expiredKeys : w.stats.expiredKeys = w₀.stats.expiredKeys
  totalExpired : w.db.totalExpired = w₀.db.totalExpired
  dbs : stage = .clean ∨ stage = .fresh → w.db.dbs = w₀.db.dbs

/-- When the lookups were done, and nothing was written yet, the database was `db`: `n` entries were
gone, all past their deadlines, and `total_expired_` was higher by `n`. It has not changed since. -/
def Lapsed (env : Env) (w₀ w : World) (stage : Stage) : Prop :=
  ∃ db n, Aged env w₀.tick w.tick w₀.db db ∧ w.db.totalExpired = w₀.db.totalExpired + n ∧
    db.totalKeys + n = w₀.db.totalKeys ∧ (stage ≠ .dirty → w.db.dbs = db.dbs)

/-- A step that is not a lookup. -/
theorem Lapsed.later {stage' : Stage} (h : Lapsed env w₀ w stage) (h₀ : w₀.tick ≤ w.tick)
    (htick : w.tick ≤ w'.tick) (htotal : w'.db.totalExpired = w.db.totalExpired)
    (hdbs : stage' ≠ .dirty → stage ≠ .dirty ∧ w'.db.dbs = w.db.dbs) :
    Lapsed env w₀ w' stage' := by
  obtain ⟨db, n, haged, hn, hkeys, hdbs'⟩ := h
  refine ⟨db, n, haged.trans (.refl _ _ _ _) h₀ htick, htotal.trans hn, hkeys, fun hd => ?_⟩
  exact (hdbs hd).2.trans (hdbs' (hdbs hd).1)

/-- A lookup. -/
theorem Lapsed.lookup (h : Lapsed env w₀ w stage) (h₀ : w₀.tick ≤ w.tick)
    (hstage : stage ≠ .dirty) :
    Lapsed env w₀ (afterLookup env key w) stage := by
  obtain ⟨db, n, haged, hn, hkeys, hdbs⟩ := h
  have htables : w.db.table = db.table := hdbs hstage
  obtain ⟨m, hm, hmkeys⟩ := w.db.exists_dropped_lookup w.cs.dbIndex key (env.nowMs w.tick)
  refine ⟨(afterLookup env key w).db, n + m, ?_, ?_, ?_, fun _ => rfl⟩
  · have hw : Aged env w₀.tick w.tick w₀.db w.db := fun d key => by
      rw [htables]
      exact haged d key
    exact hw.trans (aged_lookup _ _ _ _ _) h₀ (Nat.le_succ _)
  · rw [← Nat.add_assoc, ← hn]
    exact hm
  · rw [← hkeys, Database.totalKeys_eq db, ← htables, ← Database.totalKeys_eq, ← hmkeys]
    exact (Nat.add_left_comm _ n m).trans (Nat.add_comm n _)

/-- What is known in the phase `p`. -/
structure Respects (r : Rules) (w₀ : World) (p : Phase) (w : World) : Prop where
  kept : r.keeps w.db
  fresh : p.stage = .fresh → ∀ key, r.finds key (live r.env key w)
  tick : w₀.tick ≤ w.tick
  held : p.held ⊆ r.keys
  moved : p.stage = .moved → p.held = ∅ ∧ r.moves = true
  created : ∀ key v, p.stage ≠ .moved → p.created = some (key, v) →
    (w.db.table w.cs.dbIndex).lookup key = some ⟨v, 0⟩
  index : p.stage ≠ .moved → w.cs.dbIndex = w₀.cs.dbIndex
  aged : p.stage ≠ .dirty → Aged r.env w₀.tick w.tick w₀.db w.db
  writes : p.stage = .dirty → r.writes = true
  frame : r.loose = false → w₀.db.Framed r.keys w₀.cs.dbIndex w.db
  answer : ∃ b, w.out = w₀.out ++ b ∧ Answered r.text p.answer b
  failed : p.answer = .failed → p.stage = .clean ∨ r.lax = true
  uncounted : r.loose = false → Lasting r w₀ w.tick → Uncounted w₀ w p.stage
  lapsed : r.loose = false → Lapsed r.env w₀ w p.stage
  quit : r.quits = false → w.cs.quitRequested = w₀.cs.quitRequested

/-- At the start. -/
theorem respects_fresh {r : Rules} {w : World} (hkept : r.keeps w.db)
    (hfinds : ∀ key, r.finds key (live r.env key w)) : Respects r w .fresh w where
  kept := hkept
  fresh _ := hfinds
  tick := le_refl _
  held := Set.empty_subset _
  moved h := by cases h
  created _ _ _ h := by cases h
  index _ := rfl
  aged _ := .refl _ _ _ _
  writes h := by cases h
  frame _ := .refl _ _ _
  answer := ⟨[], (List.append_nil _).symm, rfl⟩
  failed h := by cases h
  uncounted _ _ := ⟨rfl, rfl, fun _ => rfl⟩
  lapsed _ := ⟨w.db, 0, .refl _ _ _ _, rfl, Nat.add_zero _, fun _ => rfl⟩
  quit _ := rfl

namespace Respects

variable (h : Respects r w₀ p w) {held : Set Bytes}
include h

/-- A phase of which less is known. -/
theorem forget {p' : Phase} (hheld : p'.held ⊆ p.held)
    (hcreated : p'.created = none ∨ p'.created = p.created) (hstage : p'.stage = p.stage)
    (hanswer : p'.answer = p.answer) : Respects r w₀ p' w where
  kept := h.kept
  fresh hf := h.fresh (hstage ▸ hf)
  tick := h.tick
  held := hheld.trans h.held
  moved hm := by
    obtain ⟨hempty, hmoves⟩ := h.moved (hstage ▸ hm)
    exact ⟨Set.subset_empty_iff.1 (hempty ▸ hheld), hmoves⟩
  created key v hm hc := by
    rcases hcreated with hn | hs
    · rw [hn] at hc
      cases hc
    · exact h.created key v (hstage ▸ hm) (hs ▸ hc)
  index hm := h.index (hstage ▸ hm)
  aged hd := h.aged (hstage ▸ hd)
  writes hd := h.writes (hstage ▸ hd)
  frame := h.frame
  answer := hanswer ▸ h.answer
  failed hf := hstage ▸ h.failed (hanswer ▸ hf)
  uncounted := hstage ▸ h.uncounted
  lapsed := hstage ▸ h.lapsed
  quit := h.quit

/-- The first lookup is forgotten. -/
theorem settle (hp : p.stage = .fresh) : Respects r w₀ p.looked w where
  kept := h.kept
  fresh hf := by cases hf
  tick := h.tick
  held := h.held
  moved hm := by cases hm
  created key v _ hc := h.created key v (by rw [hp]; exact fun hm => by cases hm) hc
  index _ := h.index (by rw [hp]; exact fun hm => by cases hm)
  aged _ := h.aged (by rw [hp]; exact fun hd => by cases hd)
  writes hd := by cases hd
  frame := h.frame
  answer := h.answer
  failed _ := .inl rfl
  uncounted hl hlast := by
    obtain ⟨hkeys, htotal, hdbs⟩ := h.uncounted hl hlast
    exact ⟨hkeys, htotal, fun _ => hdbs (.inr hp)⟩
  lapsed hl := (h.lapsed hl).later h.tick (le_refl _) rfl fun _ =>
    ⟨hp ▸ by decide, rfl⟩
  quit := h.quit

/-- A change to neither the entries nor the output. -/
theorem aside (hkept : r.keeps w'.db) (hdb : w'.db.dbs = w.db.dbs)
    (hcs : w'.cs.dbIndex = w.cs.dbIndex)
    (hquit : r.quits = true ∨ w'.cs.quitRequested = w.cs.quitRequested) (hout : w'.out = w.out)
    (htick : w.tick ≤ w'.tick) (hfresh : p.stage = .fresh → w'.tick = w.tick)
    (hcount : w'.stats.expiredKeys = w.stats.expiredKeys ∧
      w'.db.totalExpired = w.db.totalExpired) : Respects r w₀ p w' := by
  have htable : w'.db.table = w.db.table := hdb
  refine ⟨hkept, fun hf key => ?_, h.tick.trans htick, h.held, h.moved, fun key v hm hc => ?_,
    fun hm => ?_, fun hd => ?_, h.writes, fun hl => ⟨fun j hj => ?_, fun key hkey => ?_⟩, ?_,
    h.failed, fun hl hlast => ?_, fun hl => ?_, fun hq => ?_⟩
  · rw [live_congr hdb hcs (hfresh hf)]
    exact h.fresh hf key
  · rw [htable, hcs]
    exact h.created key v hm hc
  · rw [hcs]
    exact h.index hm
  · refine (h.aged hd).trans (fun d key => .inl ?_) h.tick htick
    rw [htable]
  · rw [htable]
    exact (h.frame hl).tables j hj
  · rw [htable]
    exact (h.frame hl).entries key hkey
  · rw [hout]
    exact h.answer
  · have hu := h.uncounted hl (hlast.anti htick)
    exact ⟨hcount.1.trans hu.expiredKeys, hcount.2.trans hu.totalExpired, fun hc =>
      hdb.trans (hu.dbs hc)⟩
  · exact (h.lapsed hl).later h.tick htick hcount.2 fun hd => ⟨hd, hdb⟩
  · rcases hquit with hquit | hquit
    · rw [hq] at hquit
      cases hquit
    · exact hquit.trans (h.quit hq)

/-- More of the reply. -/
theorem reply {a : Answer} {f : Bytes → Bytes}
    (hf : ∀ b, Answered r.text p.answer b → ∃ b', f (w₀.out ++ b) = w₀.out ++ b' ∧
      Answered r.text a b') (ha : a = .failed → p.stage = .clean ∨ r.lax = true) :
    Respects r w₀ (p.reply a) { w with out := f w.out } := by
  refine ⟨h.kept, h.fresh, h.tick, h.held, h.moved, h.created, h.index, h.aged, h.writes, h.frame,
    ?_, ha, fun hl hlast => ?_, h.lapsed, h.quit⟩
  · obtain ⟨b, hout, hb⟩ := h.answer
    dsimp only
    rw [hout]
    exact hf b hb
  · obtain ⟨hkeys, htotal, hdbs⟩ := h.uncounted hl hlast
    exact ⟨hkeys, htotal, hdbs⟩

/-- A write to the entries under the keys of the rules. -/
theorem write {created : Option (Bytes × Value)} {db : Database} {n : ℕ} (hp : p.MayWrite r)
    (hkept : r.keeps db) (hheld : held ⊆ r.keys) (hcreated : ∀ key v, created = some (key, v) →
      (db.table w.cs.dbIndex).lookup key = some ⟨v, 0⟩)
    (hframe : r.loose = false → w.db.Framed r.keys w.cs.dbIndex db)
    (htotal : db.totalExpired = w.db.totalExpired) (hn : w.tick ≤ n) :
    Respects r w₀ ⟨held, created, .dirty, p.answer⟩ { w with db := db, tick := n } where
  kept := hkept
  fresh hf := by cases hf
  tick := h.tick.trans hn
  held := hheld
  moved hm := by cases hm
  created key v _ hc := hcreated key v hc
  index _ := h.index hp.stage
  aged hd := absurd rfl hd
  writes _ := hp.writes
  frame hl := by
    have hframe := hframe hl
    rw [h.index hp.stage] at hframe
    exact (h.frame hl).trans hframe
  answer := h.answer
  failed hf := absurd hf hp.answer
  uncounted hl hlast := by
    have hu := h.uncounted hl (hlast.anti hn)
    refine ⟨hu.expiredKeys, htotal.trans hu.totalExpired, fun hc => ?_⟩
    rcases hc with hc | hc <;> cases hc
  lapsed hl := (h.lapsed hl).later h.tick hn htotal fun hd => absurd rfl hd
  quit := h.quit

/-- An entry that lasts is not dropped by a lookup. -/
theorem lookup_lasting (hkey : key ∈ r.keys) (hp : p.stage = .clean) (hl : r.loose = false)
    (hlast : Lasting r w₀ (w.tick + 1)) : (afterLookup r.env key w).db = w.db := by
  have hu := h.uncounted hl (hlast.anti (Nat.le_succ _))
  have htable : w.db.table w.cs.dbIndex = w₀.db.table w₀.cs.dbIndex := by
    rw [h.index (Phase.stage_ne_moved hp)]
    exact congrFun (hu.dbs (.inl hp)) _
  unfold afterLookup Database.lookup
  dsimp only
  cases he : (w.db.table w.cs.dbIndex).lookup key with
  | none => rfl
  | some e =>
    rw [htable] at he
    dsimp only
    rw [hlast key hkey e he w.tick h.tick (Nat.lt_succ_self _)]
    rfl

/-- A lookup. -/
theorem lookup (hkey : key ∈ r.keys) (hclean : p.stage = .clean) (hheld : held ⊆ r.keys) :
    Respects r w₀ { p with held := held } (afterLookup r.env key w) where
  kept := r.stable.lookup _ _ _ _ h.kept
  fresh hf := absurd hf (Phase.settled hclean)
  tick := h.tick.trans (Nat.le_succ _)
  held := hheld
  moved hm := absurd hm (Phase.stage_ne_moved hclean)
  created key' v hm hc := by
    have hlookup := h.created key' v hm hc
    have haged := aged_lookup r.env w.cs.dbIndex key w.tick w.db w.cs.dbIndex key'
    -- The key was created without a deadline, so no lookup drops it.
    rcases haged with haged | ⟨e, n, he, -, -, hexp, -⟩
    · exact haged.trans hlookup
    · rw [hlookup] at he
      cases he
      cases hexp
  index := h.index
  aged hd := (h.aged hd).trans (aged_lookup _ _ _ _ _) h.tick (Nat.le_succ _)
  writes := h.writes
  frame hl := by
    have hp := Phase.stage_ne_moved hclean
    have hframe : w.db.Framed r.keys w.cs.dbIndex _ :=
      Database.framed_lookup hkey (r.env.nowMs w.tick)
    rw [h.index hp] at hframe
    refine (h.frame hl).trans ?_
    unfold afterLookup
    rw [h.index hp]
    exact hframe
  answer := h.answer
  failed := h.failed
  uncounted hl hlast := by
    have hu := h.uncounted hl (hlast.anti (Nat.le_succ _))
    have hdb := h.lookup_lasting hkey hclean hl hlast
    refine ⟨hu.expiredKeys, ?_, fun hc => ?_⟩
    · rw [hdb]
      exact hu.totalExpired
    · rw [hdb]
      exact hu.dbs hc
  lapsed hl := (h.lapsed hl).lookup h.tick (by rw [hclean]; exact fun hd => by cases hd)
  quit := h.quit

end Respects

/-- An argument that is read is there. -/
theorem arg_eq_ok {argv : Args} {s : Bytes} (hm : arg argv i w = .ok (s, w')) :
    argv[i]? = some s ∧ w' = w := by
  unfold arg at hm
  cases hs : argv[i]? with
  | none =>
    rw [hs] at hm
    cases hm
  | some s' =>
    rw [hs] at hm
    cases hm
    exact ⟨rfl, rfl⟩

/-! ## Soundness -/

/-- What the table holds is of the values that the rules allow. -/
theorem Respects.value (h : Respects r w₀ p w)
    (he : (w.db.table w.cs.dbIndex).lookup key = some e) : r.values e.value :=
  r.stable.value _ _ _ _ h.kept he

/-- A write to an entry that is held. -/
theorem respects_modifyEntry (hp : p.MayWrite r) (hkey : key ∈ p.held) (hheld : held ⊆ p.held)
    {f : Entry → Entry}
    (hkept : ∀ w : World, r.keeps w.db → ∀ e, (w.db.table w.cs.dbIndex).lookup key = some e →
      r.keeps (w.db.assign w.cs.dbIndex key (f e))) :
    Triple (Respects r w₀ p) r.faults (modifyEntry key f) fun _ w' =>
      Respects r w₀ ⟨held, none, .dirty, p.answer⟩ w' := by
  refine .intro fun w h => ?_
  unfold modifyEntry
  cases he : (w.db.table w.cs.dbIndex).lookup key with
  | none => exact r.stable.benign _ trivial
  | some e =>
    exact h.write hp (hkept w h.kept e he) (hheld.trans h.held) (fun _ _ hc => by cases hc)
      (fun _ => Database.framed_assign (h.held hkey) _) rfl (le_refl _)

/-- A program that obeys the rules ends in one of the phases that it is said to end in, or with a
fault that they allow. -/
theorem Obeys.holds {m : M α} {Q : α → Phase → Prop} (hm : Obeys r p m Q) :
    Triple (Respects r w₀ p) r.faults m fun a w' => ∃ p', Q a p' ∧ Respects r w₀ p' w' := by
  induction hm with
  | pure hQ => exact .intro fun w h => ⟨_, hQ, h⟩
  | bind _ _ ihm ihf =>
    refine ihm.bind fun a => .intro fun w h => ?_
    obtain ⟨p', hQ, h'⟩ := h
    exact (ihf a p' hQ).outcome h'
  | imp _ hQR ih => exact ih.imp (fun _ h => h) fun a w h => h.imp fun p' h' => ⟨hQR _ _ h'.1, h'.2⟩
  | @forget _ p p' m Q _ hheld hcreated hstage hanswer ih =>
    refine ih.weaken fun w h => ?_
    rcases hstage with hstage | ⟨hclean, hfresh⟩
    · exact h.forget hheld hcreated hstage hanswer
    · exact (h.settle hfresh).forget hheld hcreated hclean hanswer
  | fault hf => exact .intro fun _ _ => hf
  | tick hp hQ =>
    exact .intro fun w h => ⟨_, hQ _, h.aside h.kept rfl rfl (.inr rfl) rfl (Nat.le_succ _)
      (fun hf => absurd hf hp) ⟨rfl, rfl⟩⟩
  | @lookup p key Q hkey hp hnone hsome =>
    refine .intro fun w h => ?_
    have hlooked : Respects r w₀ p.looked w := by
      rcases hp with hp | hp
      · exact h.forget (le_refl _) (.inr rfl) hp.symm rfl
      · exact h.settle hp
    have hfinds : p.stage = .fresh → r.finds key (live r.env key w) := fun hf => h.fresh hf key
    rw [lookup_eq]
    dsimp only
    cases hl : live r.env key w with
    | none =>
      rw [hl] at hfinds
      exact ⟨_, hnone hfinds, hlooked.lookup hkey rfl h.held⟩
    | some e =>
      rw [hl] at hfinds
      exact ⟨_, hsome e (h.value (lookup_of_live hl).1) hfinds,
        hlooked.lookup hkey rfl (Set.insert_subset hkey h.held)⟩
  | @entry p key Q hkey hQ =>
    refine .intro fun w h => ?_
    unfold Commands.entry
    cases he : (w.db.table w.cs.dbIndex).lookup key with
    | none => exact r.stable.benign _ trivial
    | some e => exact ⟨_, hQ e (h.value he), h⟩
  | @entryCreated p key v Q hkey hcreated hQ =>
    refine .intro fun w h => ?_
    have hmoved : p.stage ≠ .moved := fun hm => by
      rw [(h.moved hm).1] at hkey
      exact hkey
    unfold Commands.entry
    rw [h.created key v hmoved hcreated]
    exact ⟨_, hQ 0, h⟩
  | @assignValue p key v Q hkey hp hst hv hQ =>
    have hwrite : Triple (Respects r w₀ p) r.faults (Commands.assignValue key v) fun _ w' =>
        Respects r w₀ p.write w' :=
      respects_modifyEntry hp hkey (le_refl _) fun w hw e he => r.assigns hst _ _ _ _ _ hw he hv
    exact hwrite.imp (fun _ h => h) fun _ _ h => ⟨_, hQ, h⟩
  | @assignDeadline p key t Q hkey hp hQ =>
    have hwrite : Triple (Respects r w₀ p) r.faults (Commands.assignDeadline key t) fun _ w' =>
        Respects r w₀ (p.drop key) w' :=
      respects_modifyEntry hp hkey Set.sdiff_subset fun w hw e he =>
        r.stable.deadline _ _ _ _ _ hw he
    exact hwrite.imp (fun _ h => h) fun _ _ h => ⟨_, hQ, h⟩
  | set hkey hp hv hQ =>
    refine .intro fun w h => ⟨_, hQ, ?_⟩
    exact h.write hp (r.stable.set _ _ _ _ _ h.kept hv) (Set.sdiff_subset.trans h.held)
      (fun _ _ hc => by cases hc) (fun _ => Database.framed_set hkey _ _)
      (Database.apart_totalExpired.set _ _ _ _ _) (le_refl _)
  | @setAndLookup p key v Q hkey hp hv hQ =>
    refine .intro fun w h => ?_
    rw [setAndLookup_eq]
    refine ⟨_, hQ, h.write hp (r.stable.set _ _ _ _ _ h.kept hv) (Set.insert_subset hkey h.held)
      (fun _ _ hc => ?_) (fun _ => Database.framed_set hkey _ _)
      (Database.apart_totalExpired.set _ _ _ _ _) (Nat.le_succ _)⟩
    cases hc
    rw [Database.table_set, if_pos rfl, AList.lookup_insert]
  | delete hkey _ hp hQ =>
    refine .intro fun w h => ⟨_, hQ _, ?_⟩
    exact h.write hp (r.stable.delete _ _ _ h.kept) (Set.sdiff_subset.trans h.held)
      (fun _ _ hc => by cases hc) (fun _ => Database.framed_delete hkey)
      (Database.apart_totalExpired.delete _ _ _) (le_refl _)
  | @first p f v Q hf hv he ha hQ =>
    refine .intro fun w h => ⟨_, hQ, h.reply (fun b hb => ?_) fun hc => by cases hc⟩
    rw [ha] at hb
    cases hb
    exact ⟨_, by rw [List.append_nil, hf], Reply.partial_value hv he⟩
  | @header p f n Q hf ha hQ =>
    refine .intro fun w h => ⟨_, hQ, h.reply (fun b hb => ?_) fun hc => by cases hc⟩
    rw [ha] at hb
    cases hb
    exact ⟨_, by rw [List.append_nil, hf], Reply.partial_header n⟩
  | values hf hvs ha hQ =>
    refine .intro fun w h => ⟨_, hQ, h.reply (fun b hb => ?_) fun hc => by cases hc⟩
    rw [ha] at hb
    exact ⟨_, by rw [hf, List.append_assoc], Reply.Partial.values hb hvs⟩
  | @inner p f n k Q hf ha hQ =>
    refine .intro fun w h => ⟨_, hQ, h.reply (fun b hb => ?_) fun hc => by cases hc⟩
    rw [ha] at hb
    exact ⟨_, by rw [hf, List.append_assoc], Reply.Partial.header hb k⟩
  | @error p s Q hs hp ha hQ =>
    refine .intro fun w h => ⟨_, hQ, h.reply (f := (appendErrorReply · s)) (fun b hb => ?_)
      fun _ => hp⟩
    rw [ha] at hb
    cases hb
    exact ⟨_, by rw [List.append_nil]; exact List.append_assoc _ _ _, s, hs, rfl⟩
  | session hg hquit hQ =>
    exact .intro fun w h => ⟨_, hQ, h.aside h.kept rfl (hg _) (hquit.imp_right fun hq => hq _) rfl
      (le_refl _) (fun _ => rfl) ⟨rfl, rfl⟩⟩
  | select hmoves hp ha hQ =>
    refine .intro fun w h => ⟨_, hQ, ⟨h.kept, fun hf => (by cases hf), h.tick, Set.empty_subset _,
      fun _ => ⟨rfl, hmoves⟩, fun _ _ hm _ => absurd rfl hm, fun hm => absurd rfl hm,
      fun _ => h.aged ?_, fun hd => (by cases hd), h.frame, h.answer, fun hf => ?_,
      fun hl hlast => ?_, fun hl => (h.lapsed hl).later h.tick (le_refl _) rfl fun _ => ⟨?_, rfl⟩,
      h.quit⟩⟩
    · rw [hp]
      exact fun hc => by cases hc
    · rw [ha] at hf
      cases hf
    · have hu := h.uncounted hl hlast
      refine ⟨hu.expiredKeys, hu.totalExpired, fun hc => ?_⟩
      rcases hc with hc | hc <;> cases hc
    · rw [hp]
      exact fun hc => by cases hc
  | @aside p g Q hg hQ =>
    refine .intro fun w h => ⟨_, hQ, ?_⟩
    obtain ⟨hcs, hout, htick⟩ := hg.apart w
    have hkept : r.keeps (g w).db := by
      rw [hg.db w]
      exact r.stable.maxMemory _ _ h.kept
    refine h.aside hkept ?_ (by rw [hcs]) (.inr (by rw [hcs])) hout htick.ge (fun _ => htick)
      ⟨(hg.stats w).2, ?_⟩
    · rw [hg.db w]
    · rw [hg.db w]
  | get _ hQ => exact .intro fun w h => ⟨_, hQ _, h⟩
  | table _ hQ => exact .intro fun w h => ⟨_, hQ _, h⟩
  | @sweep _ p m Q hl hm hkeeps hp hQ =>
    refine .intro fun w h => ?_
    cases hrun : m w with
    | error e => exact hkeeps.triple.of_error h.kept hrun
    | ok x =>
      obtain ⟨hout, hcs, htick⟩ := hm.1 _ _ _ hrun
      have haged := hm.2 _ _ _ hrun
      refine ⟨_, hQ x.1, (hkeeps.triple.of_ok h.kept hrun).1, fun hf => absurd hf hp,
        h.tick.trans htick, Set.empty_subset _, fun hm => ⟨rfl, (h.moved hm).2⟩,
        fun _ _ _ hc => (by cases hc), ?_, ?_, h.writes, fun hc => ?_, ?_, h.failed, fun hc => ?_,
        fun hc => ?_, fun hq => ?_⟩
      · rw [hcs]
        exact h.index
      · exact fun hd => (h.aged hd).trans haged h.tick htick
      · rw [hl] at hc
        cases hc
      · rw [hout]
        exact h.answer
      · rw [hl] at hc
        cases hc
      · rw [hl] at hc
        cases hc
      · rw [hcs]
        exact h.quit hq
  | @loose _ p m Q hl hm hkeeps hp hQ =>
    refine .intro fun w h => ?_
    cases hrun : m w with
    | error e => exact hkeeps.triple.of_error h.kept hrun
    | ok x =>
      obtain ⟨hout, hcs, htick⟩ := hm _ _ _ hrun
      refine ⟨_, hQ x.1, (hkeeps.triple.of_ok h.kept hrun).1, fun hf => (by cases hf),
        h.tick.trans htick, Set.empty_subset _, fun hm => (by cases hm),
        fun _ _ _ hc => (by cases hc), ?_, fun hd => absurd rfl hd, fun _ => hp.writes,
        fun hc => ?_, ?_, fun hf => absurd hf hp.answer, fun hc => ?_, fun hc => ?_,
        fun hq => ?_⟩
      · rw [hcs]
        exact fun _ => h.index hp.stage
      · rw [hl] at hc
        cases hc
      · rw [hout]
        exact h.answer
      · rw [hl] at hc
        cases hc
      · rw [hl] at hc
        cases hc
      · rw [hcs]
        exact h.quit hq

/-! ## Invariants -/

namespace Stable

variable {V : Value → Prop} {I : Database → Prop} {E : CommandFault → Prop} {m : M α} {P : α → Prop}

/-- The rules that keep an invariant, and allow everything else. -/
def rules (h : Stable V I E) (env : Env) (finds : Bytes → Option Entry → Prop) : Rules where
  env := env
  keys := Set.univ
  text := Set.univ
  writes := true
  lax := true
  blind := true
  whole := true
  loose := true
  moves := true
  quits := true
  values := V
  keeps := I
  faults := E
  finds := finds
  stores := Assigns V I
  stable := h
  assigns := id

/-- In the rules for the state `w`, the first lookup finds what is live in it. -/
theorem triple_of_obeys (h : Stable V I E) (env : Env) {J : World → Prop}
    (hm : ∀ w, J w → Obeys (h.rules env fun key o => o = live env key w) .fresh m fun a _ => P a) :
    Triple (fun w => I w.db ∧ J w) E m fun a w => I w.db ∧ P a := by
  refine .of_each fun w hw => ?_
  have hrun : Triple (Respects _ w .fresh) E m _ := (hm w hw.2).holds
  refine hrun.imp (fun _ he => ?_) fun a w' hw' => ?_
  · subst he
    exact respects_fresh hw.1 fun _ => rfl
  · obtain ⟨p, hP, hp⟩ := hw'
    exact ⟨hp.kept, hP⟩

/-- A program that obeys keeps the invariant. -/
theorem keeps_of_obeys (h : Stable V I E) (env : Env)
    (hm : ∀ finds, Obeys (h.rules env finds) .start m fun a _ => P a) : Keeps I E m P :=
  .of_triple ((h.triple_of_obeys env (J := fun _ => True) fun _ _ => (hm _).settle).weaken
    fun _ hw => ⟨hw, trivial⟩)

/-- So does one that leaves the database alone. -/
theorem keeps_idle (h : Stable V I E) (env : Env) (hm : Idle m P) : Keeps I E m P :=
  h.keeps_of_obeys env fun _ => hm _ _ _ (Phase.settled rfl) fun _ ha => ha

end Stable

end Commands

end TinyRedis

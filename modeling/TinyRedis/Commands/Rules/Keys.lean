import TinyRedis.Commands.Glob
import TinyRedis.Commands.Rules.Soundness

/-!
# Key commands obey the rules

`KEYS` and `RANDOMKEY` delete keys that they were not given, but only those whose deadline has come.
-/

namespace TinyRedis.Commands

open Lib Resp List

variable {r : Rules} {p : Phase} {argv : Args} {env : Env} {w w' : World} {stale : List Bytes}
  {i j : ℕ} {e : Entry} {kv : Bytes × Entry}

/-! ## Steps that only compute -/

/-- `KeyIsLiveExpired` reads the clock. -/
theorem idle_keyIsLiveExpired (env : Env) (e : Entry) :
    Idle (keyIsLiveExpired env e) fun _ => True :=
  .ite (fun _ => .bind (idle_nowMs env) fun _ _ => .pure trivial) fun _ => .pure trivial

/-- `GlobMatch` computes. -/
theorem idle_globMatch (pattern str : Bytes) : Idle (globMatch pattern str) fun _ => True := by
  obtain ⟨hit, hhit⟩ := globMatch_returns pattern str
  have hpure : globMatch pattern str = pure hit := funext hhit
  rw [hpure]
  exact .pure trivial

/-- The loop of `KEYS` reads the clock for each key. -/
theorem idle_keysLoop (env : Env) (pattern : Bytes) (items : List (Bytes × Entry))
    (keys stale : List Bytes) : Idle (keysLoop env pattern items keys stale) fun _ => True := by
  induction items generalizing keys stale with
  | nil => exact .pure trivial
  | cons kv rest ih =>
    refine .bind (idle_keyIsLiveExpired env _) fun dead _ => .ite (fun _ => ih _ _) fun _ => ?_
    exact .bind (idle_globMatch _ _) fun hit _ => ih _ _

/-- So does that of `SCAN`. -/
theorem idle_scanLoop (env : Env) (o : ScanOptions) (items : List (Bytes × Entry))
    (keys : List Bytes) : Idle (scanLoop env o items keys) fun _ => True := by
  induction items generalizing keys with
  | nil => exact .pure trivial
  | cons kv rest ih =>
    refine .bind (idle_keyIsLiveExpired env _) fun dead _ => .ite (fun _ => ih _) fun _ => ?_
    exact .bind (idle_globMatch _ _) fun hit _ => .ite (fun _ => .pure trivial) fun _ => ih _

/-- The deadline of `EXPIRE` is computed from the clock. -/
theorem idle_expireDeadline (env : Env) (isAt ms : Bool) (v : ℤ) :
    Idle (expireDeadline env isAt ms v) fun _ => True :=
  .ite (fun _ => (idle_checked _).forget) fun _ => .bind (idle_nowMs env) fun _ _ =>
    .bind (idle_checked _) fun _ _ => (idle_checked _).forget

/-! ## Keys whose deadline has come -/

/-- The deadline of an entry has come, or not, at the reading `i` of the clock. The next reading is
`j`: an entry without a deadline does without one. -/
structure Judged (env : Env) (e : Entry) (dead : Bool) (i j : ℕ) : Prop where
  eq : Database.expired e (env.nowMs i) = dead
  le : i ≤ j
  unread : j = i → ∀ t, Database.expired e t = false

/-- `KeyIsLiveExpired` says whether the deadline has come. -/
theorem keyIsLiveExpired_run (env : Env) (e : Entry) (w : World) :
    ∃ dead n, keyIsLiveExpired env e w = .ok (dead, { w with tick := n }) ∧
      Judged env e dead w.tick n := by
  refine ⟨Database.expired e (env.nowMs w.tick), ?_⟩
  unfold keyIsLiveExpired
  by_cases he : e.expiresAtMs ≠ 0
  · refine ⟨w.tick + 1, ?_, rfl, Nat.le_succ _, fun h => absurd h (Nat.succ_ne_self _)⟩
    rw [if_pos he, Database.expired, decide_eq_true he, Bool.true_and]
    show Except.ok (decide (e.expiresAtMs.toInt ≤ (env.nowMs w.tick).toInt), _) = _
    rw [decide_eq_decide.2 Int64.le_iff_toInt_le]
  · have hnone : ∀ t, Database.expired e t = false := fun t => by
      rw [Database.expired, decide_eq_false he]
      rfl
    refine ⟨w.tick, ?_, rfl, le_refl _, fun _ => hnone⟩
    rw [if_neg he, hnone]
    rfl

/-- To see that a deadline has come takes a reading of the clock. -/
theorem Judged.lt (h : Judged env e true i j) : i < j :=
  lt_of_le_of_ne h.le fun heq => by cases h.eq.symm.trans (h.unread heq.symm _)

/-- What is read holds at `t`, if all readings of the clock agree with it. -/
theorem Judged.settled {dead : Bool} {m : ℕ} {t : Int64} (h : Judged env e dead i j) (hm : j ≤ m)
    (ht : ∀ n, i ≤ n → n < m → Database.expired e (env.nowMs n) = Database.expired e t) :
    Database.expired e t = dead := by
  rcases h.le.eq_or_lt with heq | hlt
  · rw [← h.eq, h.unread heq.symm, h.unread heq.symm]
  · exact (ht i (le_refl _) (hlt.trans_le hm)).symm.trans h.eq

/-- From the reading `i` of the clock to the reading `j`, the pairs are split into those that are
live, and those whose deadline has come. -/
inductive Sifts (env : Env) : ℕ → List (Bytes × Entry) → List (Bytes × Entry) →
    List (Bytes × Entry) → ℕ → Prop
  | nil {i : ℕ} : Sifts env i [] [] [] i
  | dead {i n j : ℕ} {kv : Bytes × Entry} {items live dead : List (Bytes × Entry)} :
      Judged env kv.2 true i n → Sifts env n items live dead j →
      Sifts env i (kv :: items) live (kv :: dead) j
  | live {i n j : ℕ} {kv : Bytes × Entry} {items live dead : List (Bytes × Entry)} :
      Judged env kv.2 false i n → Sifts env n items live dead j →
      Sifts env i (kv :: items) (kv :: live) dead j

section

variable {j : ℕ} {items live dead : List (Bytes × Entry)} {hit : Bytes → Bool} {pattern : Bytes}

/-- The clock goes on. -/
theorem Sifts.le (h : Sifts env i items live dead j) : i ≤ j := by
  induction h with
  | nil => exact le_refl _
  | dead hread _ ih => exact hread.le.trans ih
  | live hread _ ih => exact hread.le.trans ih

/-- Each pair is on one side. -/
theorem Sifts.perm (h : Sifts env i items live dead j) : (live ++ dead).Perm items := by
  induction h with
  | nil => exact .nil
  | dead _ _ ih => exact perm_middle.trans (ih.cons _)
  | live _ _ ih => exact ih.cons _

/-- A deadline that is said to have come has come at one of the readings. -/
theorem Sifts.expired (h : Sifts env i items live dead j) (hkv : kv ∈ dead) :
    ∃ n, i ≤ n ∧ n < j ∧ Database.expired kv.2 (env.nowMs n) = true := by
  induction h with
  | nil => cases hkv
  | @dead i n j kv' items live dead hread hsifts ih =>
    rcases mem_cons.1 hkv with rfl | hkv
    · exact ⟨i, le_refl _, hread.lt.trans_le hsifts.le, hread.eq⟩
    · obtain ⟨k, hk, hkj, hexp⟩ := ih hkv
      exact ⟨k, hread.le.trans hk, hkj, hexp⟩
  | live hread _ ih =>
    obtain ⟨k, hk, hkj, hexp⟩ := ih hkv
    exact ⟨k, hread.le.trans hk, hkj, hexp⟩

/-- The loop of `KEYS` splits the pairs, and takes those of the live ones that match. -/
theorem keysLoop_run (env : Env) (hhit : ∀ s w, globMatch pattern s w = .ok (hit s, w))
    (items : List (Bytes × Entry)) (keys stale : List Bytes) (w : World) :
    ∃ live dead n, keysLoop env pattern items keys stale w =
        .ok ((keys ++ (live.map Prod.fst).filter hit, stale ++ dead.map Prod.fst),
          { w with tick := n }) ∧
      Sifts env w.tick items live dead n := by
  induction items generalizing keys stale w with
  | nil => exact ⟨[], [], w.tick, by rw [keysLoop, map_nil, append_nil]; simp; rfl, .nil⟩
  | cons kv rest ih =>
    obtain ⟨dead, n, hdead, hread⟩ := keyIsLiveExpired_run env kv.2 w
    rw [keysLoop, bind_apply, hdead, ok_bind]
    cases dead with
    | true =>
      obtain ⟨live, dead, m, hrun, hsifts⟩ := ih keys (stale ++ [kv.1]) { w with tick := n }
      rw [append_assoc] at hrun
      exact ⟨live, kv :: dead, m, hrun, .dead hread hsifts⟩
    | false =>
      dsimp only
      rw [if_neg Bool.false_ne_true, bind_apply, hhit, ok_bind]
      obtain ⟨live, dead, m, hrun, hsifts⟩ :=
        ih (if hit kv.1 then keys ++ [kv.1] else keys) stale { w with tick := n }
      refine ⟨kv :: live, dead, m, ?_, .live hread hsifts⟩
      rw [hrun, map_cons, filter_cons]
      split_ifs
      · rw [append_assoc]
        rfl
      · rfl

/-- `GlobMatch` as a function. -/
theorem exists_hit (pattern : Bytes) :
    ∃ hit : Bytes → Bool, ∀ s w, globMatch pattern s w = .ok (hit s, w) :=
  ⟨fun s => (globMatch_returns pattern s).choose,
    fun s => (globMatch_returns pattern s).choose_spec⟩

end

/-- The key was in the database, and its deadline came. -/
def Stale (env : Env) (i j : ℕ) (db : Database) (d : DbIndex) (key : Bytes) : Prop :=
  ∃ e n, (db.table d).lookup key = some e ∧ i ≤ n ∧ n < j ∧
    Database.expired e (env.nowMs n) = true

/-- A key whose deadline has come is deleted. -/
theorem Aged.delete {db₀ db : Database} {d : DbIndex} {key : Bytes} (h : Aged env i j db₀ db)
    (hkey : Stale env i j db₀ d key) :
    Aged env i j db₀ (db.delete d key).2 := by
  obtain ⟨e, n, he, hi, hj, hexp⟩ := hkey
  intro d' key'
  rw [Database.lookup_delete]
  split_ifs with hk
  · obtain ⟨rfl, rfl⟩ := hk
    exact .inr ⟨e, n, he, hi, hj, hexp, rfl⟩
  · exact h d' key'

/-- So are several, one after the other, and nothing is replied. -/
theorem deleteAllExpired_returns (stale : List Bytes) (w : World) :
    ∃ w', deleteAllExpired stale w = .ok ((), w') ∧ w'.out = w.out ∧ w'.cs = w.cs ∧
      w'.tick = w.tick ∧ ∀ {env i j db₀}, Aged env i j db₀ w.db →
        (∀ key ∈ stale, Stale env i j db₀ w.cs.dbIndex key) → Aged env i j db₀ w'.db := by
  induction stale generalizing w with
  | nil => exact ⟨w, rfl, rfl, rfl, rfl, fun hdb _ => hdb⟩
  | cons key rest ih =>
    obtain ⟨w', hrun, hout, hcs, htick, haged⟩ := ih { w with
      db := (w.db.delete w.cs.dbIndex key).2
      stats := { w.stats with expiredKeys := w.stats.expiredKeys + 1 } }
    refine ⟨w', hrun, hout, hcs, htick, fun hdb hstale => ?_⟩
    exact haged (hdb.delete (hstale key mem_cons_self)) fun key' hkey' =>
      hstale key' (mem_cons_of_mem _ hkey')

/-- A step that reads the table and the clock, and then deletes keys whose deadline has come. -/
def DeletesStale (env : Env) {α : Type} (m : M α) : Prop :=
  ∀ w a w', m w = .ok (a, w') → ∃ n stale, w.tick ≤ n ∧ stale.Nodup ∧
    (∀ key ∈ stale, Stale env w.tick n w.db w.cs.dbIndex key) ∧
    deleteAllExpired stale { w with tick := n } = .ok ((), w')

/-- Such a step only drops entries whose deadline has come. -/
theorem DeletesStale.sweeps {α : Type} {m : M α} (h : DeletesStale env m) : Sweeps env m := by
  have hrun : ∀ w a w', m w = .ok (a, w') → Aged env w.tick w'.tick w.db w'.db ∧ w'.out = w.out ∧
      w'.cs = w.cs ∧ w.tick ≤ w'.tick := by
    intro w a w' hm
    obtain ⟨n, stale, hn, -, hstale, hdelete⟩ := h w a w' hm
    obtain ⟨w₁, hrun, hout, hcs, htick, haged⟩ :=
      deleteAllExpired_returns stale { w with tick := n }
    cases hrun.symm.trans hdelete
    rw [htick]
    exact ⟨haged (.refl _ _ _ _) hstale, hout, hcs, hn⟩
  exact ⟨fun w a w' hm => (hrun w a w' hm).2, fun w a w' hm => (hrun w a w' hm).1⟩

/-- What `KEYS` does before it replies. -/
def sweepKeys (env : Env) (argv : Args) : M (List Bytes) := do
  let t ← table
  let items ← iterate env t.toList
  let pattern ← arg argv 1
  let r ← keysLoop env pattern items [] []
  deleteAllExpired r.2
  pure r.1

/-- The entries of a table, in any order. -/
theorem lookup_of_mem_order {n : ℕ} {t : Table} (h : kv ∈ env.order n t.toList) :
    t.lookup kv.1 = some kv.2 :=
  Dict.lookup_eq_some_iff.2 ((env.order_perm n _).mem_iff.1 h)

/-- `KEYS` replies at the end. -/
theorem keys_eq_sweepKeys :
    keys env argv = sweepKeys env argv >>= fun ks => replyBulkArray (sorted ks) := by
  simp only [keys, sweepKeys, bind_assoc, pure_bind]

/-- `KEYS` splits the table, and deletes the keys whose deadline has come. -/
theorem sweepKeys_run (env : Env) {pattern : Bytes} {hit : Bytes → Bool}
    (hp : argv[1]? = some pattern) (hhit : ∀ s w, globMatch pattern s w = .ok (hit s, w))
    (w : World) :
    ∃ live dead n w₁,
      Sifts env (w.tick + 1) (env.order w.tick (w.db.table w.cs.dbIndex).toList) live dead n ∧
      deleteAllExpired (dead.map Prod.fst) { w with tick := n } = .ok ((), w₁) ∧
      sweepKeys env argv w = .ok ((live.map Prod.fst).filter hit, w₁) ∧
      keys env argv w = replyBulkArray (sorted ((live.map Prod.fst).filter hit)) w₁ := by
  obtain ⟨live, dead, n, hloop, hsifts⟩ := keysLoop_run env hhit
    (env.order w.tick (w.db.table w.cs.dbIndex).toList) [] [] { w with tick := w.tick + 1 }
  obtain ⟨w₁, hdelete, -⟩ := deleteAllExpired_returns (dead.map Prod.fst) { w with tick := n }
  have harg : arg argv 1 = pure pattern := by rw [arg, hp]
  have hsweep : sweepKeys env argv w = .ok ((live.map Prod.fst).filter hit, w₁) := by
    unfold sweepKeys
    rw [harg]
    show (keysLoop env pattern _ [] [] { w with tick := w.tick + 1 } >>= _) = _
    rw [hloop, ok_bind]
    show (deleteAllExpired (dead.map Prod.fst) { w with tick := n } >>= _) = _
    rw [hdelete]
    rfl
  refine ⟨live, dead, n, w₁, hsifts, hdelete, hsweep, ?_⟩
  rw [keys_eq_sweepKeys, bind_apply, hsweep]
  rfl

/-- `KEYS` deletes each key once. -/
theorem deletesStale_sweepKeys : DeletesStale env (sweepKeys env argv) := by
  intro w a w' h
  cases hp : argv[1]? with
  | none =>
    unfold sweepKeys arg at h
    rw [hp] at h
    cases h
  | some pattern =>
    obtain ⟨hit, hhit⟩ := exists_hit pattern
    obtain ⟨live, dead, n, w₁, hsifts, hdelete, hrun, -⟩ := sweepKeys_run env hp hhit w
    cases hrun.symm.trans h
    have hitems := hsifts.perm.trans (env.order_perm _ _)
    have hnodup := (hitems.map Prod.fst).nodup_iff.2 (Dict.toList_nodup _)
    rw [map_append] at hnodup
    refine ⟨n, dead.map Prod.fst, Nat.le_of_succ_le hsifts.le, hnodup.of_append_right, ?_, hdelete⟩
    intro key hkey
    obtain ⟨kv, hkv, rfl⟩ := mem_map.1 hkey
    obtain ⟨k, hk, hkn, hexp⟩ := hsifts.expired hkv
    exact ⟨kv.2, k, Dict.lookup_eq_some_iff.2 (hitems.mem_iff.1 (mem_append_right _ hkv)),
      Nat.le_of_succ_le hk, hkn, hexp⟩

section

variable {V : Value → Prop} {I : Database → Prop} {E : CommandFault → Prop} (h : Stable V I E)
include h

/-- The deletion of one key. -/
theorem Stable.keeps_deleteExpired (key : Bytes) : Runs I E (deleteExpired key) :=
  Safe.bind (h.keeps_delete key) fun _ _ => keeps_modify fun _ => rfl

/-- The deletion of several keys. -/
theorem Stable.keeps_deleteAllExpired (stale : List Bytes) : Runs I E (deleteAllExpired stale) := by
  induction stale with
  | nil => exact Safe.pure trivial
  | cons key stale ih => exact Safe.bind (h.keeps_deleteExpired key) fun _ _ => ih

/-- What `KEYS` does to the database. -/
theorem Stable.keeps_sweepKeys (hi : argv.length ≤ 1 → E (.argvIndex 1)) :
    Runs I E (sweepKeys env argv) := by
  refine Safe.bind keeps_table fun t _ => Safe.bind keeps_iterate fun items _ => ?_
  refine Safe.bind (keeps_arg_or hi) fun pattern _ => ?_
  refine Safe.bind (h.keeps_idle env (idle_keysLoop _ _ _ _ _)) fun a _ => ?_
  exact Safe.bind (h.keeps_deleteAllExpired _) fun _ _ => Safe.pure trivial

end

/-- `KEYS`. -/
theorem obeys_keys (h : r.Serves argv 2) (hloose : r.loose = true) :
    Obeys r .start (keys r.env argv) Finished := by
  rw [keys_eq_sweepKeys]
  refine Obeys.bind (Q := fun _ p => p.answer = .none) (.sweep hloose deletesStale_sweepKeys.sweeps
    (r.stable.keeps_sweepKeys (h.reads 1 (by decide))) (Phase.settled rfl) fun _ => rfl)
    fun ks p ha => ?_
  exact .finish (utters_replyBulkArray _) ha

/-- What `RANDOMKEY` does before it replies. -/
def sweepRandomkey (env : Env) : M (Option Bytes) := do
  let t ← table
  if t.entries.isEmpty then pure none
  else do
    let items ← iterate env t.toList
    let i ← randomBelow env items.length
    match items[i]? with
    | none => fault .outOfRange
    | some kv => do
      let dead ← keyIsLiveExpired env kv.2
      if dead then do
        deleteExpired kv.1
        pure none
      else pure (some kv.1)

/-- `RANDOMKEY` deletes at most one key. -/
theorem deletesStale_sweepRandomkey : DeletesStale env (sweepRandomkey env) := by
  intro w a w' h
  unfold sweepRandomkey at h
  obtain ⟨t, w₁, htable, h⟩ := exists_of_bind h
  cases htable
  split_ifs at h with hempty
  · cases h
    exact ⟨w.tick, [], le_refl _, nodup_nil, fun _ hc => absurd hc not_mem_nil, rfl⟩
  obtain ⟨items, w₁, hitems, h⟩ := exists_of_bind h
  cases hitems
  obtain ⟨i, w₁, hi, h⟩ := exists_of_bind h
  cases hi
  dsimp only at h
  cases hkv : (env.order w.tick (w.db.table w.cs.dbIndex).toList)[env.random (w.tick + 1) %
    (env.order w.tick (w.db.table w.cs.dbIndex).toList).length]? with
  | none =>
    rw [hkv] at h
    cases h
  | some kv =>
    rw [hkv] at h
    dsimp only at h
    obtain ⟨dead, w₁, hdead, h⟩ := exists_of_bind h
    obtain ⟨_, n, hrun, hread⟩ := keyIsLiveExpired_run env kv.2 { w with tick := w.tick + 2 }
    cases hrun.symm.trans hdead
    have hle : w.tick ≤ n := (Nat.le_add_right _ 2).trans hread.le
    cases dead with
    | false =>
      cases h
      exact ⟨n, [], hle, nodup_nil, fun _ hc => absurd hc not_mem_nil, rfl⟩
    | true =>
      cases h
      refine ⟨n, [kv.1], hle, nodup_singleton _, fun key hkey => ?_, rfl⟩
      rw [mem_singleton.1 hkey]
      exact ⟨kv.2, _, lookup_of_mem_order (mem_of_getElem? hkv), Nat.le_add_right _ 2,
        hread.lt, hread.eq⟩

/-- What `RANDOMKEY` does to the database. -/
theorem Stable.keeps_sweepRandomkey {V : Value → Prop} {I : Database → Prop}
    {E : CommandFault → Prop} (h : Stable V I E) : Runs I E (sweepRandomkey env) := by
  refine Safe.bind keeps_table fun t _ => ?_
  refine Safe.ite (fun _ => Safe.pure trivial) fun _ => ?_
  refine Safe.bind keeps_iterate fun items _ => Safe.bind keeps_randomBelow fun i _ => ?_
  cases items[i]? with
  | none => exact keeps_fault (h.benign _ trivial)
  | some kv =>
    refine Safe.bind (h.keeps_idle env (idle_keyIsLiveExpired env kv.2)) fun dead _ => ?_
    refine Safe.ite (fun _ => ?_) fun _ => Safe.pure trivial
    exact Safe.bind (h.keeps_deleteExpired kv.1) fun _ _ => Safe.pure trivial

/-- A key, or null. -/
def replyKey : Option Bytes → M Unit
  | none => replyNullBulk
  | some key => replyBulk key

/-- `RANDOMKEY` replies at the end. -/
theorem randomkey_eq_sweepRandomkey : randomkey env = sweepRandomkey env >>= replyKey := by
  unfold randomkey sweepRandomkey
  rw [bind_assoc]
  congr
  funext t
  split_ifs
  · rfl
  rw [bind_assoc]
  congr
  funext items
  rw [bind_assoc]
  congr
  funext i
  cases items[i]? with
  | none => rfl
  | some kv =>
    dsimp only
    rw [bind_assoc]
    congr
    funext dead
    split_ifs
    · rfl
    · rfl

/-- `RANDOMKEY`. -/
theorem obeys_randomkey (hloose : r.loose = true) : Obeys r .start (randomkey r.env) Finished := by
  rw [randomkey_eq_sweepRandomkey]
  refine Obeys.bind (Q := fun _ p => p.answer = .none)
    (.sweep hloose deletesStale_sweepRandomkey.sweeps r.stable.keeps_sweepRandomkey
      (Phase.settled rfl) fun _ => rfl) fun key p ha => ?_
  cases key with
  | none => exact .finish utters_replyNullBulk ha
  | some key => exact .finish (utters_replyBulk key) ha

/-! ## Keys that are given -/

variable {n : ℕ}

/-- `DEL` and `UNLINK`. -/
theorem obeys_del (h : r.Serves argv n) (hw : r.writes = true) (hblind : r.blind = true) :
    Obeys r .start (del argv) Finished := by
  refine (Obeys.forArgs (I := fun i _ p => 1 ≤ i ∧ p.MayWrite r ∧ p.answer = .none) Nat.one_pos ?_ 1
    0 ⟨le_refl 1, Phase.mayWrite_start hw, rfl⟩).bind fun n p ⟨_, _, _, _, ha⟩ =>
    .finish (utters_replyInt _) ha
  rintro i n p hlt ⟨hi, hp, ha⟩
  exact .argLt hlt fun key hkey => .delete_bind (h.key hi hkey) (.inr hblind) hp fun b =>
    .pure ⟨by omega, hp.drop, ha⟩

/-- `EXISTS`. -/
theorem obeys_cmdExists (h : r.Serves argv n) : Obeys r .start (cmdExists r.env argv) Finished := by
  refine (Obeys.forArgs (I := fun i _ p => 1 ≤ i ∧ p.stage = .clean ∧ p.answer = .none) Nat.one_pos
    ?_ 1 0 ⟨le_refl 1, rfl, rfl⟩).bind fun n p ⟨_, _, _, _, ha⟩ => .finish (utters_replyInt _) ha
  rintro i n p hlt ⟨hi, hp, ha⟩
  exact .argLt hlt fun key hkey => .lookup_bind (h.key hi hkey) (.inl hp)
    (fun _ => .pure ⟨by omega, rfl, ha⟩) fun e _ _ => .pure ⟨by omega, rfl, ha⟩

/-- There is an argument `COUNT`. -/
def NamesCount (argv : Args) : Prop := ∃ s ∈ argv, toUpper s = bytes "COUNT"

/-- Where an option of `SCAN` leads. Without an argument `COUNT` the count stays as it is. -/
theorem obeys_scanOption (h : r.Serves argv n) (o : ScanOptions) (hi : i < argv.length) :
    Obeys r .start (scanOption argv i o) (Step.Ends
      (fun j o' p => i < j ∧ p = .start ∧ (o'.count = o.count ∨ NamesCount argv))
      fun _ p => p.answer = .failed) := by
  have hstop : ∀ m, Fails m → Obeys r .start (do
      m
      pure (Step.stop ()) : M (Step ScanOptions Unit)) (Step.Ends
        (fun j o' p => i < j ∧ p = .start ∧ (o'.count = o.count ∨ NamesCount argv))
        fun _ p => p.answer = .failed) :=
    fun m hm => .fails hm h.lines (.inl rfl) rfl (.pure rfl)
  unfold scanOption
  refine .argLt hi fun s hs => ?_
  refine .ite (fun hmatch => .argLt hmatch.2 fun pattern _ => ?_) fun _ => ?_
  · exact .pure ⟨by omega, rfl, .inl rfl⟩
  refine .ite (fun hcount => .argLt hcount.2 fun v _ => ?_) fun _ => hstop _ fails_errSyntax
  have hnames : NamesCount argv := ⟨s, mem_of_getElem? hs, hcount.1⟩
  cases parseIntStrict v with
  | none => exact hstop _ fails_errNotInt
  | some cnt =>
    exact .ite (fun _ => hstop _ fails_errNotInt) fun _ => .pure ⟨by omega, rfl, .inr hnames⟩

/-- The options of `SCAN`. -/
theorem obeys_scanOptions (h : r.Serves argv n) :
    Obeys r .start (argLoop argv (scanOption argv) argv.length 2 ⟨bytes "*", -1⟩) (Step.Ends
      (fun _ o p => p = .start ∧ (o.count = -1 ∨ NamesCount argv))
      fun _ p => p.answer = .failed) := by
  have hloop : Obeys r .start (argLoop argv (scanOption argv) argv.length 2 ⟨bytes "*", -1⟩)
      (Step.Ends (fun i o p => argv.length ≤ i ∧ p = .start ∧ (o.count = -1 ∨ NamesCount argv))
        fun _ p => p.answer = .failed) := by
    refine Obeys.argLoop
      (I := fun _ (o : ScanOptions) p => p = .start ∧ (o.count = -1 ∨ NamesCount argv))
      (fun i o p hi hp => ?_) argv.length 2 _ (by omega) ⟨rfl, .inl rfl⟩
    obtain ⟨rfl, hcount⟩ := hp
    refine (obeys_scanOption h o hi).imp fun s p hs => ?_
    cases s with
    | stop _ => exact hs
    | next j o' =>
      obtain ⟨hj, hp, hkept | hnames⟩ := hs
      · exact ⟨hj, hp, hcount.imp_left fun hc => hkept.trans hc⟩
      · exact ⟨hj, hp, .inr hnames⟩
  refine hloop.imp fun s p hs => ?_
  cases s with
  | stop _ => exact hs
  | next _ o => exact hs.2

/-- `SCAN`. -/
theorem obeys_scan (h : r.Serves argv 2) (hwhole : r.whole = true) :
    Obeys r .start (scan r.env argv) Finished := by
  refine h.arg fun s _ => .ite (fun _ => ?_) fun _ => ?_
  · exact h.fail ⟨_, rfl, by decide⟩
  refine (obeys_scanOptions h).bind fun s p hs => ?_
  cases s with
  | stop _ => exact .pure (.inl hs)
  | next _ o =>
    obtain ⟨rfl, -⟩ := hs
    refine .table_bind hwhole fun t => ?_
    refine .idle (idle_iterate r.env _) (Phase.settled rfl) fun items _ => ?_
    refine .idle (idle_scanLoop r.env o _ _) (Phase.settled rfl) fun ks _ => ?_
    refine .replyArray (n := 2) rfl (.element_bind (utters_replyBulk _) rfl ?_)
    exact .element (utters_replyBulkArray _) rfl (.inr rfl)

/-- The name of a type has no line break. -/
theorem line_valueTypeName (t : ValueType) : OneLine (valueTypeName t) := by
  cases t <;> decide +kernel

section

variable (h : r.Serves argv 2)
include h

/-- A command that looks up its first argument, whatever the type. -/
theorem Rules.Serves.find {f : Bytes → Option Entry → M Unit}
    (hnone : ∀ key, Obeys r .start (f key none) Finished)
    (hsome : ∀ key e, Obeys r (Phase.start.hold key) (f key (some e)) Finished) :
    Obeys r .start (do
      let key ← Commands.arg argv 1
      let e ← lookup r.env key
      f key e) Finished :=
  h.arg fun key hkey => .lookup_bind (h.keys 0 key hkey) (.inl rfl) (fun _ => hnone key)
    fun e _ _ => hsome key e

/-- `TYPE`. -/
theorem obeys_type : Obeys r .start (type r.env argv) Finished :=
  h.find (fun _ => .done (utters_replySimple (by decide))) fun _ _ =>
    .done (utters_replySimple (line_valueTypeName _))

/-- `TTL` and `PTTL`, which differ in how they round. -/
theorem obeys_ttlWith {round : ℤ → M ℤ} (hround : ∀ n, Idle (round n) fun _ => True) :
    Obeys r .start (ttlWith r.env argv round) Finished := by
  refine h.find (fun _ => .done (utters_replyInt _)) fun _ _ => ?_
  refine .ite (fun _ => .done (utters_replyInt _)) fun _ => ?_
  refine .idle (idle_nowMs r.env) (Phase.settled rfl) fun now _ => .checked ?_
  refine .ite (fun _ => .done (utters_replyInt _)) fun _ => ?_
  exact .idle (hround _) (Phase.settled rfl) fun n _ => .done (utters_replyInt n)

/-- `TTL`. -/
theorem obeys_ttl : Obeys r .start (ttl r.env argv) Finished :=
  obeys_ttlWith h fun _ => .bind (idle_checked _) fun _ _ => .pure trivial

/-- `PTTL`. -/
theorem obeys_pttl : Obeys r .start (pttl r.env argv) Finished :=
  obeys_ttlWith h fun _ => .pure trivial

/-- `PERSIST`. -/
theorem obeys_persist (hw : r.writes = true) : Obeys r .start (persist r.env argv) Finished := by
  refine h.find (fun _ => .done (utters_replyInt 0)) fun _ _ => ?_
  refine .ite (fun _ => .done (utters_replyInt 0)) fun _ => ?_
  exact .assignDeadline_bind Phase.mem_hold (Phase.mayWrite_start hw).hold
    (.done (utters_replyInt 1))

end

/-- The value that is left behind is written through the pointer. -/
theorem obeys_rename (h : r.Serves argv 3) (hw : r.writes = true)
    (hmoved : ∀ v, r.values (movedFrom v))
    (hst : ∀ key, argv[1]? = some key → ∀ e, r.finds key (some e) → r.stores) :
    Obeys r .fresh (rename r.env argv) Finished := by
  refine h.arg fun oldk hold => h.arg fun newk hnew => ?_
  refine .lookup_bind (h.keys 0 oldk hold) (.inr rfl) (fun _ => ?_) fun e he hfinds => ?_
  · exact h.fail ⟨_, rfl, by decide⟩
  have hok : ∀ p : Phase, p.answer = .none → Obeys r p (replySimple (bytes "OK")) Finished :=
    fun p ha => .finish (utters_replySimple (by decide)) ha
  refine .ite (fun _ => hok _ rfl) fun _ => ?_
  have hmay : (Phase.start.hold oldk).MayWrite r := (Phase.mayWrite_start hw).hold
  refine (Obeys.assignValue (Q := fun _ p => p = (Phase.start.hold oldk).write) Phase.mem_hold hmay
    (hst oldk hold e (hfinds rfl)) (hmoved _) rfl).bind fun _ p hp => ?_
  subst hp
  refine .delete_bind (h.keys 0 oldk hold) (.inl Phase.mem_hold) hmay.write fun _ => ?_
  exact .set_bind (h.keys 1 newk hnew) hmay.write.drop he (hok _ rfl)

/-- `EXPIRE` and its relatives. -/
theorem obeys_cmdExpire (h : r.Serves argv 3) (hw : r.writes = true) (isAt ms : Bool) :
    Obeys r .start (cmdExpire r.env argv isAt ms) Finished := by
  refine h.arg fun key hkey => h.argInt fun v => ?_
  refine .lookup_bind (h.keys 0 key hkey) (.inl rfl) (fun _ => .done (utters_replyInt 0))
    fun e _ _ => .idle (idle_expireDeadline _ _ _ _) (Phase.settled rfl) fun expires _ => ?_
  exact .assignDeadline_bind Phase.mem_hold (Phase.mayWrite_start hw).hold
    (.done (utters_replyInt 1))

end TinyRedis.Commands

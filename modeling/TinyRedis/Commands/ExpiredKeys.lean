import TinyRedis.Commands.Expiry.Runs

/-!
# The count of expired keys

`INFO` reports `ServerStats::expired_keys`. `KEYS`, `RANDOMKEY`, and `PeriodicTasks` add to it the
entries that they remove, but `Database::Lookup` adds those that it drops only to `total_expired_`,
which nothing reports. So the number is right in every run in which no command looks up an entry
whose deadline has passed.
-/

namespace TinyRedis

open Lib Resp List

variable {x : Ran} {a : Unit} {p : Unit × World} {e : Event} {key sec body line : Bytes} {n : ℕ}
  {xs ys : List Ran}

namespace Database

/-- The deletion of a key that is there. -/
theorem totalKeys_delete {db : Database} {i : DbIndex} {e : Entry}
    (he : (db.table i).lookup key = some e) :
    (db.delete i key).2.totalKeys + 1 = db.totalKeys := by
  unfold delete
  rw [he]
  exact totalKeys_drop he

end Database

namespace Commands

variable {env : Env} {argv : Args} {w w' : World} {stale : List Bytes}

/-! ## What is removed -/

/-- The number of the entries that a handler removes because their deadline has passed: those that
`Database::Lookup` drops, each of which adds one to `total_expired_`, and all those that `KEYS` and
`RANDOMKEY` delete. -/
def Ran.expunged (env : Env) (x : Ran) : ℕ :=
  match x.outcome env with
  | .ok p =>
    (p.2.db.totalExpired - x.world.db.totalExpired) +
      if x.cmd = .keys ∨ x.cmd = .randomkey then x.world.db.totalKeys - p.2.db.totalKeys else 0
  | .error _ => 0

/-- The number of the readings before the handler ends. -/
def Ran.endTick (env : Env) (x : Ran) : ℕ :=
  match x.outcome env with
  | .ok p => p.2.tick
  | .error _ => x.world.tick

/-- At no reading of the clock while the handler runs is an entry past its deadline that is stored
under one of its arguments. The commands that go over a whole table look up no key. -/
def Ran.lasts (env : Env) (x : Ran) : Bool :=
  sweepsTable x.cmd || x.argv.tail.all fun key =>
    match (x.world.db.table x.world.cs.dbIndex).lookup key with
    | none => true
    | some e => (List.range' x.world.tick (x.endTick env - x.world.tick)).all fun i =>
        !Database.expired e (env.nowMs i)

/-- The number of the entries that an event removes because their deadline has passed. -/
def Server.expunged (env : Env) (s : Server) : Event → ℕ
  | .call i argv => ((s.ran env (.call i argv)).map (Ran.expunged env)).sum
  | .expire => s.db.totalKeys - (s.activeExpireCycle env).db.totalKeys

/-- The number of those that a run removes. -/
def Server.expungedIn (env : Env) : List Event → Server → ℕ
  | [], _ => 0
  | e :: events, s =>
    s.expunged env e +
      match s.step env e with
      | .ok s => expungedIn env events s
      | .error _ => 0

/-! ## Handlers that look keys up -/

/-- What lasts for a handler. -/
theorem Ran.lasting {r : Rules} (henv : r.env = env) (hkeys : r.keys = namedKeys x.argv)
    (hc : sweepsTable x.cmd = false) (h : x.lasts env = true) (hp : x.outcome env = .ok p) :
    Lasting r x.world p.2.tick := by
  intro key hkey e he i hi hin
  rw [hkeys] at hkey
  unfold Ran.lasts Ran.endTick at h
  rw [hc, Bool.false_or, hp] at h
  have hentry := all_eq_true.1 h key hkey
  rw [he] at hentry
  have hlive := all_eq_true.1 hentry i (mem_range'_1.2 ⟨hi, by dsimp only; omega⟩)
  rw [Bool.not_eq_true'] at hlive
  rw [henv]
  exact hlive

/-- Where nothing that is looked up is past its deadline, nothing is counted. -/
theorem Ran.uncounted (hc : sweepsTable x.cmd = false) (h : x.lasts env = true)
    (hp : x.outcome env = .ok p) :
    p.2.stats.expiredKeys = x.world.stats.expiredKeys ∧
      p.2.db.totalExpired = x.world.db.totalExpired := by
  have hpermits : Rules.Permits { freeRules env with keys := namedKeys x.argv, loose := false }
      x.cmd x.argv :=
    { freeRules_permits with
      keys := fun _ _ hs => mem_namedKeys hs, loose := fun h => absurd h (by rw [hc]; nofun) }
  obtain ⟨p', -, hrespects⟩ := (obeys_handler (hpermits.allows free_of_true)
    trivial).holds.of_ok (respects_fresh trivial fun _ => trivial) hp
  have hu := hrespects.uncounted rfl (Ran.lasting rfl rfl hc h hp)
  exact ⟨hu.expiredKeys, hu.totalExpired⟩

/-- What `Ran.expunged` reads off `total_expired_` are entries that are gone: before the handler
wrote anything, the database `db` lacked as many as were counted, and no others than those whose
deadline had passed. A command that does not write leaves it at that. -/
theorem Ran.expunged_gone (hc : sweepsTable x.cmd = false) (hp : x.outcome env = .ok p) :
    ∃ db, Aged env x.world.tick p.2.tick x.world.db db ∧
      db.totalKeys + x.expunged env = x.world.db.totalKeys ∧
      (isWriteCommand x.cmd = false → p.2.db.dbs = db.dbs) := by
  have hpermits : Rules.Permits
      { freeRules env with loose := false, writes := isWriteCommand x.cmd } x.cmd x.argv :=
    { freeRules_permits with writes := id, loose := fun h => absurd h (by rw [hc]; nofun) }
  obtain ⟨q, -, hrespects⟩ := (obeys_handler (hpermits.allows free_of_true)
    trivial).holds.of_ok (respects_fresh trivial fun _ => trivial) hp
  obtain ⟨db, n, haged, hn, hkeys, hdbs⟩ := hrespects.lapsed rfl
  have hsweep : ¬(x.cmd = .keys ∨ x.cmd = .randomkey) := by
    rintro (h | h)
    · rw [h] at hc
      cases hc
    · rw [h] at hc
      cases hc
  have hexpunged : x.expunged env = n := by
    unfold Ran.expunged
    rw [hp]
    dsimp only
    rw [if_neg hsweep]
    omega
  refine ⟨db, haged, hexpunged ▸ hkeys, fun hread => hdbs fun hd => ?_⟩
  have hwrites : isWriteCommand x.cmd = true := hrespects.writes hd
  rw [hread] at hwrites
  cases hwrites

/-! ## `KEYS` and `RANDOMKEY` -/

/-- The entries that are gone are counted in `expired_keys`. -/
structure Tallied (w w' : World) : Prop where
  count : w'.stats.expiredKeys + w'.db.totalKeys = w.stats.expiredKeys + w.db.totalKeys
  totalExpired : w'.db.totalExpired = w.db.totalExpired
  grows : w.stats.expiredKeys ≤ w'.stats.expiredKeys

/-- Nothing is gone. -/
theorem Tallied.refl (w : World) : Tallied w w := ⟨rfl, rfl, le_refl _⟩

/-- One step after another. -/
theorem Tallied.trans {w'' : World} (h : Tallied w w') (h' : Tallied w' w'') : Tallied w w'' :=
  ⟨h'.count.trans h.count, h'.totalExpired.trans h.totalExpired, h.grows.trans h'.grows⟩

/-- What is read and replied does not matter. -/
theorem tallied_of_eq (hdb : w'.db = w.db) (hstats : w'.stats = w.stats) : Tallied w w' := by
  refine ⟨?_, ?_, ?_⟩
  · rw [hdb, hstats]
  · rw [hdb]
  · rw [hstats]

/-- A key that is there is deleted. -/
theorem tallied_deleteExpired {e : Entry} (he : (w.db.table w.cs.dbIndex).lookup key = some e)
    (h : deleteExpired key w = .ok (a, w')) :
    Tallied w w' := by
  cases h
  refine ⟨?_, Database.apart_totalExpired.delete _ _ _, Nat.le_succ _⟩
  have hcount := Database.totalKeys_delete he
  dsimp only
  omega

/-- The keys are distinct and come from the table, so that each is counted once. -/
theorem tallied_deleteAllExpired (hnodup : stale.Nodup)
    (hstale : ∀ key ∈ stale, ∃ e, (w.db.table w.cs.dbIndex).lookup key = some e)
    (h : deleteAllExpired stale w = .ok (a, w')) : Tallied w w' := by
  induction stale generalizing w with
  | nil =>
    cases h
    exact .refl _
  | cons key rest ih =>
    rw [nodup_cons] at hnodup
    rw [deleteAllExpired] at h
    obtain ⟨⟨⟩, w₁, hdelete, h⟩ := exists_of_bind h
    obtain ⟨e, he⟩ := hstale key mem_cons_self
    refine (tallied_deleteExpired he hdelete).trans (ih hnodup.2 (fun key' hkey' => ?_) h)
    -- The other keys are still there.
    cases hdelete
    obtain ⟨e', he'⟩ := hstale key' (mem_cons_of_mem _ hkey')
    refine ⟨e', ?_⟩
    show ((w.db.delete w.cs.dbIndex key).2.table w.cs.dbIndex).lookup key' = _
    have hne : ¬(w.cs.dbIndex = w.cs.dbIndex ∧ key' = key) := fun hc => hnodup.1 (hc.2 ▸ hkey')
    rw [Database.lookup_delete, if_neg hne]
    exact he'

/-- A step that deletes keys whose deadline has come, and then a reply. -/
theorem DeletesStale.tallied {α : Type} {m : M α} {f : α → M Unit} (h : DeletesStale env m)
    (hf : ∀ a, Utters (f a)) (hrun : (m >>= f) w = .ok (a, w')) : Tallied w w' := by
  obtain ⟨b, w₁, hm, hreply⟩ := exists_of_bind hrun
  obtain ⟨n, stale, -, hnodup, hstale, hdelete⟩ := h _ _ _ hm
  have hread : Tallied w { w with tick := n } := tallied_of_eq rfl rfl
  have hdeleted : Tallied { w with tick := n } w₁ := by
    refine tallied_deleteAllExpired hnodup (fun key hkey => ?_) hdelete
    obtain ⟨e, -, he, -⟩ := hstale key hkey
    exact ⟨e, he⟩
  refine (hread.trans hdeleted).trans ?_
  obtain ⟨g, v, hg, -⟩ := (hf b).emits
  rw [hg] at hreply
  cases hreply
  exact tallied_of_eq rfl rfl

/-- `KEYS`. -/
theorem tallied_keys (h : keys env argv w = .ok (a, w')) : Tallied w w' := by
  rw [keys_eq_sweepKeys] at h
  exact deletesStale_sweepKeys.tallied (fun _ => utters_replyBulkArray _) h

/-- `RANDOMKEY`. -/
theorem tallied_randomkey (h : randomkey env w = .ok (a, w')) : Tallied w w' := by
  rw [randomkey_eq_sweepRandomkey] at h
  refine deletesStale_sweepRandomkey.tallied (fun key => ?_) h
  cases key with
  | none => exact utters_replyNullBulk
  | some key => exact utters_replyBulk key

/-! ## Every handler -/

/-- What a handler removes because of deadlines is what it adds to `expired_keys`. -/
theorem Ran.counted (h : x.lasts env = true) (hp : x.outcome env = .ok p) :
    p.2.stats.expiredKeys = x.world.stats.expiredKeys + x.expunged env := by
  unfold Ran.expunged
  rw [hp]
  dsimp only
  by_cases hsweep : x.cmd = .keys ∨ x.cmd = .randomkey
  · have htally : Tallied x.world p.2 := by
      obtain ⟨c, argv, w⟩ := x
      rcases hsweep with hc | hc
      · cases hc
        exact tallied_keys hp
      · cases hc
        exact tallied_randomkey hp
    rw [if_pos hsweep, htally.totalExpired]
    have hcount := htally.count
    have hgrows := htally.grows
    omega
  · have hsame : p.2.stats.expiredKeys = x.world.stats.expiredKeys ∧
        p.2.db.totalExpired = x.world.db.totalExpired := by
      cases hc : sweepsTable x.cmd with
      | false => exact Ran.uncounted hc h hp
      | true =>
        -- What remains are `FLUSHDB` and `FLUSHALL`.
        obtain ⟨c, argv, w⟩ := x
        have hflush := of_decide_eq_true hc
        simp only [mem_cons, not_mem_nil, or_false] at hflush
        rcases hflush with rfl | rfl | rfl | rfl
        · cases hp
          exact ⟨rfl, Database.apart_totalExpired.flushDb _ _⟩
        · cases hp
          exact ⟨rfl, Database.apart_totalExpired.flushAll _⟩
        · exact absurd (.inl rfl) hsweep
        · exact absurd (.inr rfl) hsweep
    rw [if_neg hsweep, hsame.1, hsame.2]
    omega

/-! ## Whole calls -/

/-- From the count `n` on, each handler of the list finds what those before it left. -/
def Counted (env : Env) : ℕ → List Ran → Prop
  | _, [] => True
  | n, x :: xs => x.world.stats.expiredKeys = n ∧ Counted env (n + x.expunged env) xs

/-- Handlers that run one after the other. -/
theorem counted_append (hxs : Counted env n xs)
    (hys : Counted env (n + (xs.map (Ran.expunged env)).sum) ys) : Counted env n (xs ++ ys) := by
  induction xs generalizing n with
  | nil => exact hys
  | cons x xs ih =>
    refine ⟨hxs.1, ih hxs.2 ?_⟩
    rw [map_cons, sum_cons, ← Nat.add_assoc] at hys
    exact hys

/-- What a handler finds. -/
theorem Counted.split (h : Counted env n (xs ++ x :: ys)) :
    x.world.stats.expiredKeys = n + (xs.map (Ran.expunged env)).sum := by
  induction xs generalizing n with
  | nil => exact h.1
  | cons y xs ih =>
    rw [map_cons, sum_cons, ← Nat.add_assoc]
    exact ih h.2

/-- What is known of a call whose handlers `xs` start in the world `w`. -/
structure Counts (env : Env) (w : World) (xs : List Ran)
    (result : Except CommandFault ((Unit × Tx) × World)) : Prop where
  counted : Counted env w.stats.expiredKeys xs
  total : ∀ p, result = .ok p →
    p.2.stats.expiredKeys = w.stats.expiredKeys + (xs.map (Ran.expunged env)).sum

/-- The queue of a transaction. -/
theorem counts_runQueue {run : Args → D Unit} {ran : Args → Tx → World → List Ran} {K : Ran → Prop}
    (h : ∀ argv tx w, (∀ x ∈ ran argv tx w, K x) → Counts env w (ran argv tx w) (run argv tx w))
    (queue : List Args) (tx : Tx) (w : World) (hK : ∀ x ∈ ranQueue run ran queue tx w, K x) :
    Counts env w (ranQueue run ran queue tx w) (runQueue run queue tx w) := by
  induction queue generalizing tx w with
  | nil =>
    refine ⟨trivial, fun p hp => ?_⟩
    cases hp
    rfl
  | cons argv queue ih =>
    rw [ranQueue_cons] at hK ⊢
    rw [runQueue_cons]
    have hhead := h argv tx w fun x hx => hK x (mem_append_left _ hx)
    cases hrun : run argv tx w with
    | error f =>
      refine ⟨?_, fun p hp => by cases hp⟩
      rw [append_nil]
      exact hhead.counted
    | ok q =>
      rw [hrun] at hK
      have hrest := ih q.1.2 q.2 fun x hx => hK x (mem_append_right _ hx)
      have hq := hhead.total q hrun
      refine ⟨counted_append hhead.counted ?_, fun p hp => ?_⟩
      · rw [← hq]
        exact hrest.counted
      · rw [hrest.total p hp, hq, map_append, sum_append, Nat.add_assoc]

/-- A call. -/
theorem counts_dispatch (depth : ℕ) (argv : Args) (tx : Tx) (w : World)
    (hK : ∀ x ∈ ran env depth argv tx w, x.lasts env = true) :
    Counts env w (ran env depth argv tx w) (dispatch env depth argv tx w) := by
  induction depth generalizing argv tx w with
  | zero => exact ⟨trivial, fun p hp => by cases hp⟩
  | succ depth ih =>
    rcases dispatch_cases env depth argv tx w with hd | hd | hd
    · obtain ⟨tx', out, hrun, hran⟩ := hd
      rw [hrun, hran]
      refine ⟨trivial, fun p hp => ?_⟩
      cases hp
      rfl
    · obtain ⟨c, -, -, hran, hrun⟩ := hd
      rw [hran] at hK ⊢
      rw [hrun]
      refine ⟨⟨rfl, trivial⟩, fun p hp => ?_⟩
      obtain ⟨q, hq, hp⟩ := bind_eq_ok hp
      cases hp
      rw [map_singleton, sum_singleton]
      exact Ran.counted (hK _ mem_cons_self) hq
    · rw [hd.2] at hK ⊢
      rw [hd.1]
      obtain ⟨hcounted, htotal⟩ := counts_runQueue ih tx.multiQueue _ (execHeader tx w) hK
      exact ⟨hcounted, htotal⟩

/-! ## Whole runs -/

namespace Server

variable {s s' s₀ : Server}

/-- `PeriodicTasks` counts what `ActiveExpireCycle` removes, however the clock moves meanwhile. -/
theorem count_activeExpireCycle (s : Server) :
    (s.activeExpireCycle env).stats.expiredKeys = s.stats.expiredKeys + s.expunged env .expire := by
  have hfold : ∀ (l : List DbIndex) (r : ℕ × Server),
      (l.foldl (expireOne env) r).1 + (l.foldl (expireOne env) r).2.db.totalKeys =
          r.1 + r.2.db.totalKeys ∧
        (l.foldl (expireOne env) r).2.stats = r.2.stats := by
    intro l
    induction l with
    | nil => exact fun r => ⟨rfl, rfl⟩
    | cons i l ih =>
      intro r
      refine ⟨(ih _).1.trans ?_, (ih _).2⟩
      exact (Database.expires_expireTable (r.1, r.2.db) (env.order_perm _ _)).count
  obtain ⟨hcount, hstats⟩ := hfold (List.finRange kNumDatabases) (0, s)
  unfold expunged activeExpireCycle
  generalize (List.finRange kNumDatabases).foldl (expireOne env) (0, s) = r at hcount hstats ⊢
  dsimp only at hcount hstats ⊢
  rw [hstats]
  omega

/-- The handlers of an event. -/
theorem ran_counted (hK : ∀ x ∈ s.ran env e, x.lasts env = true) :
    Counted env s.stats.expiredKeys (s.ran env e) := by
  cases e with
  | call i argv => exact (counts_dispatch 2 argv _ (s.world i) hK).counted
  | expire => exact trivial

/-- An event. -/
theorem step_counts (hK : ∀ x ∈ s.ran env e, x.lasts env = true) (hstep : s.step env e = .ok s') :
    s'.stats.expiredKeys = s.stats.expiredKeys + s.expunged env e := by
  cases e with
  | call i argv =>
    obtain ⟨p, hp, hs'⟩ := bind_eq_ok hstep
    cases hs'
    exact (counts_dispatch 2 argv _ (s.world i) hK).total p hp
  | expire =>
    cases hstep
    exact count_activeExpireCycle s

/-- A run. -/
theorem run_counts {events : List Event} (hK : s.runMeets env (Ran.lasts env) events = true)
    (hrun : s.run env events = .ok s') :
    s'.stats.expiredKeys = s.stats.expiredKeys + s.expungedIn env events := by
  induction events generalizing s with
  | nil =>
    cases hrun
    rfl
  | cons e events ih =>
    obtain ⟨s₁, hstep, hrest⟩ := bind_eq_ok hrun
    rw [runMeets, hstep, Bool.and_eq_true] at hK
    rw [ih hK.2 hrest, step_counts (all_eq_true.1 hK.1) hstep, expungedIn, hstep, Nat.add_assoc]

end Server

/-! ## `INFO` -/

/-- `INFO` shows all its sections. -/
def showsAll (argv : Args) : Prop :=
  argv.length = 2 → toLower (argv.getD 1 []) ∈ [[], bytes "all", bytes "default"]

/-- The last line of a section that is shown. -/
theorem infix_infoSection {name : String} (hsec : sec ∈ [[], bytes "all", bytes "default"]) :
    line <:+: infoSection name sec (body ++ line) := by
  have hwant : sec = [] ∨ sec = bytes "all" ∨ sec = bytes "default" ∨ sec = bytes name := by
    simp only [mem_cons, not_mem_nil, or_false] at hsec
    exact hsec.imp_right (Or.imp_right .inl)
  unfold infoSection
  rw [if_pos hwant]
  exact ((suffix_append _ _).trans (suffix_append _ _)).isInfix

/-- The uptime is computed without a reply. -/
theorem uptimeS_out {start : Int64} {n : ℤ} (h : uptimeS env start w = .ok (n, w')) :
    w'.out = w.out := by
  unfold uptimeS at h
  split_ifs at h
  · obtain ⟨us, w₁, hus, h⟩ := exists_of_bind h
    cases hus
    obtain ⟨d, w₁, hd, h⟩ := exists_of_bind h
    unfold checked at hd
    split_ifs at hd
    · cases hd
      cases h
      rfl
    · cases hd
  · cases h
    rfl

/-- The text that `INFO` makes. -/
theorem buildInfo_reports {text : Bytes} (hsec : sec ∈ [[], bytes "all", bytes "default"])
    (h : buildInfo env sec w = .ok (text, w')) :
    w'.out = w.out ∧ infoLine "expired_keys" (printInt w.stats.expiredKeys) <:+: text := by
  unfold buildInfo at h
  obtain ⟨w₀, w₁, hget, h⟩ := exists_of_bind h
  cases hget
  obtain ⟨uptime, w₁, huptime, h⟩ := exists_of_bind h
  cases h
  refine ⟨uptimeS_out huptime, ?_⟩
  -- Two sections come after this one.
  exact (infix_infoSection hsec).trans ⟨_, _, (append_assoc _ _ _).symm⟩

/-- What `INFO` replies. -/
theorem info_reports (hc : x.cmd = .info) (hall : showsAll x.argv) (hp : x.outcome env = .ok p) :
    ∃ text, p.2.out = Resp.appendBulkReply x.world.out text ∧
      infoLine "expired_keys" (printInt x.world.stats.expiredKeys) <:+: text := by
  obtain ⟨c, argv, w⟩ := x
  cases hc
  have hinfo : info env argv w = .ok p := hp
  unfold info at hinfo
  obtain ⟨s, w₁, hs, hbody⟩ := exists_of_bind hinfo
  have harg : w₁ = w ∧ toLower (s.getD []) ∈ [[], bytes "all", bytes "default"] := by
    unfold argIf at hs
    split_ifs at hs with hlen
    · obtain ⟨a, w₂, ha, hsome⟩ := exists_of_bind hs
      obtain ⟨hget, rfl⟩ := arg_eq_ok ha
      cases hsome
      have hmem : toLower (argv.getD 1 []) ∈ _ := hall hlen
      rw [getD_eq_getElem?_getD, hget] at hmem
      exact ⟨rfl, hmem⟩
    · cases hs
      exact ⟨rfl, mem_cons_self⟩
  obtain ⟨hw, hsec⟩ := harg
  rw [hw] at hbody
  obtain ⟨text, w₂, hbuild, hreply⟩ := exists_of_bind hbody
  obtain ⟨hout, hline⟩ := buildInfo_reports hsec hbuild
  cases hreply
  refine ⟨text, ?_, hline⟩
  show Resp.appendBulkReply w₂.out text = _
  rw [hout]

namespace Server

/-- In every run in which no handler looks up an entry whose deadline has passed, and in which the
clock may go as it likes, `expired_keys` is the number of the entries that were removed because
their deadline had passed, in every state that is reached. So it is what `INFO` reports, also within
a transaction, after the handlers `xs` that `EXEC` has run before it. -/
theorem run_expired_exact {events : List Event} {e : Event} {s₀ s : Server}
    (hstart : s₀.stats.expiredKeys = 0)
    (hmeets : s₀.runMeets env (Ran.lasts env) (events ++ [e]) = true)
    (hrun : s₀.run env events = .ok s) :
    s.stats.expiredKeys = s₀.expungedIn env events ∧
      ∀ xs x ys p, s.ran env e = xs ++ x :: ys → x.cmd = .info → showsAll x.argv →
        x.outcome env = .ok p →
        ∃ text, p.2.out = Resp.appendBulkReply x.world.out text ∧
          infoLine "expired_keys" (printInt
            (s₀.expungedIn env events + (xs.map (Ran.expunged env)).sum : ℕ)) <:+: text := by
  obtain ⟨hevents, hlast⟩ := runMeets_append hmeets hrun
  have hcount := run_counts hevents hrun
  rw [hstart, Nat.zero_add] at hcount
  refine ⟨hcount, fun xs x ys p hran hc hall hp => ?_⟩
  rw [runMeets, Bool.and_eq_true] at hlast
  have hcounted := ran_counted (all_eq_true.1 hlast.1)
  rw [hran, hcount] at hcounted
  rw [← hcounted.split]
  exact info_reports hc hall hp

end Server

/-- Two keys get deadlines, and `KEYS` finds the one, and `ActiveExpireCycle` the other. -/
def sweptKeys : List Event :=
  [.call 0 [bytes "SET", bytes "a", bytes "v", bytes "PX", bytes "1"],
    .call 1 [bytes "SET", bytes "b", bytes "v", bytes "PX", bytes "5"],
    .call 0 [bytes "KEYS", bytes "*"], .expire]

/-- An event that runs only `INFO`. -/
def runsInfo (env : Env) (e : Event) (s : Server) : Bool :=
  match s.ran env e with
  | [x] => decide (x.cmd = .info) && decide (x.argv.length = 1) && (x.outcome env).toBool
  | _ => false

/-- What `runsInfo` finds. -/
theorem exists_of_runsInfo {s : Server} (h : runsInfo env e s = true) :
    ∃ x p, s.ran env e = [x] ∧ x.cmd = .info ∧ showsAll x.argv ∧ x.outcome env = .ok p := by
  unfold runsInfo at h
  split at h
  · next x hran =>
    rw [Bool.and_eq_true, Bool.and_eq_true] at h
    obtain ⟨⟨hc, hlen⟩, hok⟩ := h
    cases hp : x.outcome env with
    | error f =>
      rw [hp] at hok
      cases hok
    | ok p =>
      refine ⟨x, p, hran, of_decide_eq_true hc, fun htwo => ?_, hp⟩
      rw [of_decide_eq_true hlen] at htwo
      cases htwo
  · cases h

/-- The two keys are counted. -/
theorem Server.run_expired_exact_swept : ∃ s x p text,
    freshServer.run tickingEnv sweptKeys = .ok s ∧
      s.ran tickingEnv (.call 1 [bytes "INFO"]) = [x] ∧ x.outcome tickingEnv = .ok p ∧
      p.2.out = Resp.appendBulkReply x.world.out text ∧
      infoLine "expired_keys" (printInt 2) <:+: text := by
  obtain ⟨s, hrun, hs⟩ := exists_ok_of_any (p := runsInfo tickingEnv (.call 1 [bytes "INFO"]))
    (x := freshServer.run tickingEnv sweptKeys) (by decide +kernel)
  obtain ⟨x, p, hran, hc, hall, hp⟩ := exists_of_runsInfo hs
  obtain ⟨-, hinfo⟩ := Server.run_expired_exact (e := .call 1 [bytes "INFO"]) rfl
    (by decide +kernel) hrun
  obtain ⟨text, hout, hline⟩ := hinfo [] x [] p hran hc hall hp
  have htwo : freshServer.expungedIn tickingEnv sweptKeys = 2 := by decide +kernel
  rw [htwo] at hline
  exact ⟨s, x, p, text, hrun, hran, hp, hout, hline⟩

/-! ## Lookups -/

/-- A key gets a deadline, and is looked up after it. -/
def lookedUp : List Event :=
  [.call 0 [bytes "SET", bytes "k", bytes "v", bytes "PX", bytes "1"],
    .call 0 [bytes "GET", bytes "k"]]

/-- `GET` removes the entry, and it is not counted. -/
theorem lookup_uncounted : ∃ s, freshServer.run tickingEnv lookedUp = .ok s ∧
    s.stats.expiredKeys = 0 ∧ s.db.totalKeys = 0 ∧
    freshServer.expungedIn tickingEnv lookedUp = 1 := by
  obtain ⟨s, hrun, hs⟩ := exists_ok_of_any
    (p := fun s : Server => decide (s.stats.expiredKeys = 0) && decide (s.db.totalKeys = 0))
    (x := freshServer.run tickingEnv lookedUp) (by decide +kernel)
  rw [Bool.and_eq_true] at hs
  exact ⟨s, hrun, of_decide_eq_true hs.1, of_decide_eq_true hs.2, by decide +kernel⟩

end Commands

end TinyRedis

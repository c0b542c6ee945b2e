import TinyRedis.Commands.Effects
import TinyRedis.Commands.Expiry.Basic
import TinyRedis.Commands.Glob

/-!
# Commands that read more than the entries they look up

`KEYS`, `SCAN`, and `RANDOMKEY` go over the table, and look at the deadlines themselves. How often
they read the clock depends on the entries, so what is left alike are the entries and the replies.
Other commands read the state of the server.

`KEYS` and `SCAN` reply the live keys, whatever else is in the table. The order of iteration makes a
difference only to `SCAN` with `COUNT`.
-/

namespace TinyRedis.Commands

open Lib Resp List

variable {env : Env} {argv : Args} {lower : Bytes} {α β : Type} {w w' w'' : World} {t : Int64}
  {hit : Bytes → Bool} {kv : Bytes × Entry} {c : Cmd}

/-! ## Worlds that are near -/

namespace World.Near

/-- A world is near itself. -/
theorem refl (t : Int64) (w : World) : World.Near t w w :=
  ⟨Database.Alike.refl t w.db, rfl, rfl, rfl, rfl⟩

/-- The order does not matter. -/
theorem symm (h : World.Near t w w') : World.Near t w' w :=
  ⟨h.db.symm, h.maxMemory.symm, h.lastSave.symm, h.startTime.symm, h.cs.symm⟩

/-- One change after another. -/
theorem trans (h : World.Near t w w') (h' : World.Near t w' w'') : World.Near t w w'' :=
  ⟨h.db.trans h'.db, h.maxMemory.trans h'.maxMemory, h.lastSave.trans h'.lastSave,
    h.startTime.trans h'.startTime, h.cs.trans h'.cs⟩

end World.Near

/-- The entries are alike after the commands. -/
def SameEntries (t : Int64) (_ : Unit) (w : World) (_ : Unit) (w' : World) : Prop := w.Near t w'

/-- The entries are alike after the commands, and the replies are the same. -/
def SameReply (t : Int64) (_ : Unit) (w : World) (_ : Unit) (w' : World) : Prop :=
  w.Near t w' ∧ w.out = w'.out

/-- The same reply. -/
theorem World.Alike.emit (h : w.Alike t w') (f : Bytes → Bytes) :
    Agree (SameReply t) (emit f w) (emit f w') :=
  .ok ⟨h.aside _ _ _ _, congrArg f h.out⟩

/-- The same error. -/
theorem World.Alike.replyError (h : w.Alike t w') (s : Bytes) :
    Agree (SameReply t) (replyError s w) (replyError s w') :=
  h.emit _

/-- Any replies. -/
theorem near_emit (h : w.Near t w') (f f' : Bytes → Bytes) :
    Agree (SameEntries t) (emit f w) (emit f' w') :=
  .ok (h.aside _ _ _ _)

/-- The same argument. -/
theorem agree_arg {S : β → World → β → World → Prop} (argv : Args) (i : ℕ) {f f' : Bytes → M β}
    (hf : ∀ s, Agree S (f s w) (f' s w')) :
    Agree S ((arg argv i >>= f) w) ((arg argv i >>= f') w') := by
  unfold arg
  cases argv[i]? with
  | none => exact .error _
  | some s => exact hf s

/-- Rules for programs that look at entries only through `Lookup`. -/
def lookupRules (env : Env) : Rules :=
  { freeRules env with blind := false, whole := false, loose := false }

/-- What `Obeys.agree` says of the replies. -/
theorem Obeys.sameReply (hclock : ∀ n, env.nowMs n = t) {m : M Unit} {Q : Unit → Phase → Prop}
    (hm : Obeys (lookupRules env) .fresh m Q) (h : w.Alike t w') :
    Agree (SameReply t) (m w) (m w') := by
  refine (hm.agree hclock rfl rfl rfl free_of_true h (holding_nothing t w _)).imp
    fun _ w₁ _ w₁' hR => ?_
  obtain ⟨-, p, -, h₁, -⟩ := hR
  exact ⟨h₁.toNear, h₁.out⟩

/-- A program that reads only the environment. -/
theorem Idle.agree (hclock : ∀ n, env.nowMs n = t) {m : M α} {P : α → Prop} (hm : Idle m P)
    (h : w.Alike t w') :
    Agree (fun a w₁ a' w₁' => a' = a ∧ w₁.Alike t w₁') (m w) (m w') := by
  have hobeys : Obeys (lookupRules env) .start m fun _ _ => True :=
    hm _ _ _ (Phase.settled rfl) fun _ _ => trivial
  refine (hobeys.agree hclock rfl rfl rfl free_of_true h (holding_nothing t w _)).imp
    fun a w₁ a' w₁' hR => ?_
  obtain ⟨ha, p, -, h₁, -⟩ := hR
  exact ⟨ha, h₁⟩

/-! ## The state of the server -/

section

variable (h : w.Alike t w')
include h

/-- `LASTSAVE`. -/
theorem agree_lastsave : Agree (SameReply t) (lastsave w) (lastsave w') := by
  unfold lastsave
  rw [get_bind_apply, get_bind_apply, ← h.lastSave]
  exact h.emit _

/-- `CONFIG GET`. -/
theorem agree_configGet : Agree (SameReply t) (configGet env argv w) (configGet env argv w') := by
  refine agree_arg argv 2 fun s => ?_
  rw [get_bind_apply, get_bind_apply, ← h.maxMemory]
  split_ifs <;> exact h.emit _

/-- `CONFIG SET`. -/
theorem agree_configSet : Agree (SameReply t) (configSet argv w) (configSet argv w') := by
  refine agree_arg argv 2 fun s => ?_
  split_ifs
  · refine agree_arg argv 3 fun v => ?_
    cases parseIntStrict v with
    | none => exact h.replyError _
    | some cap =>
      dsimp only
      split_ifs
      · exact h.replyError _
      · refine .ok ⟨⟨?_, rfl, h.lastSave, h.startTime, h.cs⟩, ?_⟩
        · exact h.db
        · exact congrArg (appendSimpleReply · (bytes "OK")) h.out
  · exact h.replyError _

/-- `CONFIG`. -/
theorem agree_config : Agree (SameReply t) (config env argv w) (config env argv w') := by
  refine agree_arg argv 1 fun s => ?_
  split_ifs
  · exact agree_configGet h
  · exact agree_configSet h
  · exact h.replyError _

/-- `CLIENT`. -/
theorem agree_client : Agree (SameReply t) (client env argv w) (client env argv w') := by
  have hnamed : ∀ name, World.Alike t { w with cs := { w.cs with name } }
      { w' with cs := { w'.cs with name } } := fun name =>
    ⟨⟨h.db, h.maxMemory, h.lastSave, h.startTime,
      congrArg (fun cs : Session => { cs with name }) h.cs⟩, h.tick, h.out⟩
  refine agree_arg argv 1 fun s => ?_
  rw [get_bind_apply, get_bind_apply, ← h.cs]
  dsimp only
  split_ifs
  all_goals first
    | exact h.emit _
    | exact agree_arg argv 2 fun name => (hnamed name).emit (appendSimpleReply · (bytes "OK"))

/-- `FLUSHDB`. -/
theorem agree_flushdb : Agree (SameReply t) (flushdb w) (flushdb w') :=
  (h.write (fun i db => db.flushDb i) (fun i => h.db.flushDb i)
    (fun i db => Database.apart_maxMemory.flushDb db i) 0).emit (appendSimpleReply · (bytes "OK"))

/-- `FLUSHALL`. -/
theorem agree_flushall : Agree (SameReply t) (flushall w) (flushall w') :=
  (h.write (fun _ db => db.flushAll) (fun _ => h.db.flushAll)
    (fun _ db => Database.apart_maxMemory.flushAll db) 0).emit (appendSimpleReply · (bytes "OK"))

/-- `DBSIZE`. -/
theorem near_dbsize : Agree (SameEntries t) (dbsize w) (dbsize w') :=
  near_emit h.toNear (appendIntReply · _) (appendIntReply · _)

/-- `INFO` may only fail when it computes the uptime. -/
theorem near_info (hclock : ∀ n, env.nowMs n = t) :
    Agree (SameEntries t) (info env argv w) (info env argv w') := by
  have htext : ∀ s : Option Bytes, Agree (SameEntries t) ((do
      let text ← buildInfo env (toLower (s.getD []))
      replyBulk text) w) ((do
      let text ← buildInfo env (toLower (s.getD []))
      replyBulk text) w') := by
    intro s
    refine Agree.bind (R := fun _ w₂ _ w₂' => w₂.Near t w₂') ?_ fun _ _ _ _ h₂ => near_emit h₂ _ _
    unfold buildInfo
    rw [get_bind_apply, get_bind_apply, ← h.startTime]
    refine ((idle_uptimeS env _).agree hclock h).bind fun u w₂ u' w₂' hR => ?_
    exact .ok hR.2.toNear
  unfold info argIf
  split_ifs
  · rw [bind_assoc]
    exact agree_arg argv 1 fun s => htext (some s)
  · exact htext none

end

/-! ## `DEL` -/

/-- A loop over `argv` without a way out, side by side. -/
theorem agree_forArgs {I : α → World → α → World → Prop} (argv : Args) (stride : ℕ)
    (body : ℕ → α → M α)
    (hbody : ∀ i a w a' w', I a w a' w' → Agree I (body i a w) (body i a' w')) (i : ℕ) (a a' : α)
    (hI : I a w a' w') :
    Agree I (forArgs argv stride body i a w) (forArgs argv stride body i a' w') := by
  let Both : Step α Empty → World → Step α Empty → World → Prop := fun s w s' w' =>
    ∃ j a a', s = .next j a ∧ s' = .next j a' ∧ I a w a' w'
  have hloop : ∀ n i a w a' w', I a w a' w' →
      Agree Both
        (argLoop argv (fun i a => do
          let a ← body i a
          pure (Step.next (i + stride) a)) n i a w)
        (argLoop argv (fun i a => do
          let a ← body i a
          pure (Step.next (i + stride) a)) n i a' w') := by
    intro n
    induction n with
    | zero => exact fun i a w a' w' hI => .ok ⟨i, a, a', rfl, rfl, hI⟩
    | succ n ih =>
      intro i a w a' w' hI
      rw [argLoop, argLoop]
      split_ifs
      · refine Agree.bind (R := Both) ?_ ?_
        · exact (hbody i a w a' w' hI).bind fun a w a' w' hI =>
            .ok ⟨i + stride, a, a', rfl, rfl, hI⟩
        · rintro _ w₁ _ w₁' ⟨j, a, a', rfl, rfl, hI⟩
          exact ih j a w₁ a' w₁' hI
      · exact .ok ⟨i, a, a', rfl, rfl, hI⟩
  unfold forArgs
  refine (hloop argv.length i a w a' w' hI).bind ?_
  rintro _ w₁ _ w₁' ⟨j, a, a', rfl, rfl, hI⟩
  exact .ok hI

/-- `DEL`. -/
theorem near_del (h : w.Alike t w') : Agree (SameEntries t) (del argv w) (del argv w') := by
  refine (agree_forArgs (I := fun _ w _ w' => w.Near t w') argv 1 _ (fun i n w n' w' h => ?_) 1 0 0
    h.toNear).bind fun _ _ _ _ h => near_emit h _ _
  refine agree_arg argv i fun key => .ok ⟨?_, ?_, h.lastSave, h.startTime, h.cs⟩
  · dsimp only
    rw [← h.cs]
    exact h.db.delete _ key
  · exact (Database.apart_maxMemory.delete _ _ _).trans
      (h.maxMemory.trans (Database.apart_maxMemory.delete _ _ _).symm)

/-! ## The live keys of a table -/

/-- The deadline of the pair has not come. -/
def alivePair (t : Int64) (kv : Bytes × Entry) : Bool := Database.alive t kv.1 kv.2

/-- A pair is live if its deadline has not come. -/
theorem alivePair_eq {dead : Bool} (h : Database.expired kv.2 t = dead) :
    alivePair t kv = !dead := congrArg not h

/-- When the clock stands still, the pairs are split by their deadlines. -/
theorem Sifts.eq_filter (hclock : ∀ n, env.nowMs n = t) {i j : ℕ}
    {items live dead : List (Bytes × Entry)} (h : Sifts env i items live dead j) :
    live = items.filter (alivePair t) ∧ ∀ kv ∈ dead, Database.expired kv.2 t = true := by
  refine ⟨?_, fun kv hkv => ?_⟩
  · induction h with
    | nil => rfl
    | dead hread _ ih =>
      rw [filter_cons_of_neg (ne_true_of_eq_false (alivePair_eq (hclock _ ▸ hread.eq))), ih]
    | live hread _ ih =>
      rw [filter_cons_of_pos (alivePair_eq (hclock _ ▸ hread.eq)), ih]
  · obtain ⟨n, -, -, hexp⟩ := h.expired hkv
    rwa [hclock] at hexp

/-- A key whose deadline has come is deleted. -/
theorem deleteExpired_run {key : Bytes} (w : World)
    (hkey : ∀ e, (w.db.table w.cs.dbIndex).lookup key = some e → Database.expired e t = true) :
    ∃ w₁, deleteExpired key w = .ok ((), w₁) ∧ w₁.Near t w ∧ w₁.out = w.out ∧
      w₁.db = (w.db.delete w.cs.dbIndex key).2 :=
  ⟨_, rfl, ⟨Database.alike_delete hkey, Database.apart_maxMemory.delete _ _ _, rfl, rfl, rfl⟩,
    rfl, rfl⟩

/-- Keys whose deadline has come are deleted. -/
theorem deleteAllExpired_run (keys : List Bytes) (w : World)
    (hkeys : ∀ key ∈ keys, ∀ e, (w.db.table w.cs.dbIndex).lookup key = some e →
      Database.expired e t = true) :
    ∃ w₁, deleteAllExpired keys w = .ok ((), w₁) ∧ w₁.Near t w ∧ w₁.out = w.out := by
  induction keys generalizing w with
  | nil => exact ⟨w, rfl, .refl t w, rfl⟩
  | cons key rest ih =>
    obtain ⟨w₁, hw₁, hnear, hout, hdb⟩ := deleteExpired_run w (hkeys key mem_cons_self)
    -- What is still there after the deletion was there before.
    have hrest : ∀ key' ∈ rest, ∀ e, (w₁.db.table w₁.cs.dbIndex).lookup key' = some e →
        Database.expired e t = true := by
      intro key' hkey' e he
      rw [hnear.cs, hdb, Database.table_delete, if_pos rfl, Dict.lookup_erase_eq] at he
      split_ifs at he
      exact hkeys key' (mem_cons_of_mem _ hkey') e he
    obtain ⟨w₂, hw₂, hnear₂, hout₂⟩ := ih w₁ hrest
    refine ⟨w₂, ?_, hnear₂.trans hnear, hout₂.trans hout⟩
    rw [deleteAllExpired, bind_apply, hw₁, ok_bind]
    exact hw₂

/-- The live pairs of the table, in the order of iteration, are those of the table that is purged.
-/
theorem filter_order_perm (env : Env) (n : ℕ) (tab : Table) :
    ((env.order n tab.toList).filter (alivePair t)).Perm (Database.purgeTable t tab).toList := by
  rw [Database.purgeTable, Dict.toList_filter]
  exact (env.order_perm n tab.toList).filter _

/-- `KEYS` replies the live keys that match, and deletes those whose deadline has come. -/
theorem keys_run (hclock : ∀ n, env.nowMs n = t) {pattern : Bytes} (hp : argv[1]? = some pattern)
    (hhit : ∀ s w, globMatch pattern s w = .ok (hit s, w)) (w : World) :
    ∃ w₁, keys env argv w = .ok ((), w₁) ∧ w₁.Near t w ∧
      w₁.out = appendBulkArray w.out (sorted
        (((Database.purgeTable t (w.db.table w.cs.dbIndex)).toList.map Prod.fst).filter hit)) := by
  obtain ⟨live, dead, n, w₁, hsifts, hdelete, -, hkeys⟩ := sweepKeys_run env hp hhit w
  obtain ⟨rfl, hdead⟩ := hsifts.eq_filter hclock
  have hitems := hsifts.perm.trans (env.order_perm _ _)
  have hstale : ∀ key ∈ dead.map Prod.fst, ∀ e,
      (w.db.table w.cs.dbIndex).lookup key = some e → Database.expired e t = true := by
    intro key hkey e he
    obtain ⟨kv, hkv, rfl⟩ := mem_map.1 hkey
    have hlookup :=
      Dict.lookup_eq_some_iff.2 (hitems.mem_iff.1 (mem_append_right _ hkv))
    cases hlookup.symm.trans he
    exact hdead kv hkv
  obtain ⟨_, hrun, hnear, hout⟩ := deleteAllExpired_run _ { w with tick := n } hstale
  cases hrun.symm.trans hdelete
  refine ⟨_, hkeys, hnear.aside _ _ _ _, ?_⟩
  show appendBulkArray w₁.out _ = _
  rw [hout]
  refine congrArg (appendBulkArray w.out) (sorted_eq_of_perm ?_)
  exact ((filter_order_perm env w.tick _).map Prod.fst).filter hit

/-- `KEYS`. -/
theorem agree_keys (hclock : ∀ n, env.nowMs n = t) (h : w.Alike t w') :
    Agree (SameReply t) (keys env argv w) (keys env argv w') := by
  cases hp : argv[1]? with
  | none =>
    have hfault : ∀ w, keys env argv w = .error (.argvIndex 1) := by
      intro w
      unfold keys arg
      rw [hp]
      rfl
    rw [hfault, hfault]
    exact .error _
  | some pattern =>
    obtain ⟨hit, hhit⟩ := exists_hit pattern
    obtain ⟨w₁, hw₁, hnear, hout⟩ := keys_run hclock hp hhit w
    obtain ⟨w₁', hw₁', hnear', hout'⟩ := keys_run hclock hp hhit w'
    rw [hw₁, hw₁']
    refine .ok ⟨(hnear.trans h.toNear).trans hnear'.symm, ?_⟩
    rw [hout, hout', h.out, h.cs, h.db]

/-! ## `SCAN` -/

/-- Taking out the entries whose deadline has come leaves the rest in their order. -/
def Env.KeepsOrder (env : Env) (t : Int64) : Prop :=
  ∀ n (l : List (Bytes × Entry)),
    (env.order n l).filter (alivePair t) = env.order n (l.filter (alivePair t))

/-- What `SCAN` makes of the live pairs. -/
def scanLive (hit : Bytes → Bool) (count : ℤ) : List (Bytes × Entry) → List Bytes → List Bytes
  | [], keys => keys
  | kv :: rest, keys =>
    let keys := if hit kv.1 then keys ++ [kv.1] else keys
    if 0 ≤ count ∧ count ≤ keys.length then keys else scanLive hit count rest keys

/-- At every reading of the clock from `i` to `j`, the same of the pairs are live as at `t`. -/
def Settled (env : Env) (t : Int64) (i j : ℕ) (items : List (Bytes × Entry)) : Prop :=
  ∀ kv ∈ items, ∀ n, i ≤ n → n < j → Database.expired kv.2 (env.nowMs n) = Database.expired kv.2 t

/-- The loop of `SCAN` passes over the others, if none of the pairs expires meanwhile. -/
theorem scanLoop_run (env : Env) {o : ScanOptions}
    (hhit : ∀ s w, globMatch o.pattern s w = .ok (hit s, w)) (items : List (Bytes × Entry))
    (keys : List Bytes) (w : World) :
    ∃ found n, scanLoop env o items keys w = .ok (found, { w with tick := n }) ∧ w.tick ≤ n ∧
      ∀ t, Settled env t w.tick n items →
        found = scanLive hit o.count (items.filter (alivePair t)) keys := by
  induction items generalizing keys w with
  | nil => exact ⟨keys, w.tick, rfl, le_refl _, fun _ _ => rfl⟩
  | cons kv rest ih =>
    obtain ⟨dead, n, hn, hread⟩ := keyIsLiveExpired_run env kv.2 w
    rw [scanLoop, bind_apply, hn, ok_bind]
    dsimp only
    have halive : ∀ {m : ℕ} {t : Int64}, n ≤ m → Settled env t w.tick m (kv :: rest) →
        alivePair t kv = !dead := fun hm hsettled =>
      alivePair_eq (hread.settled hm (hsettled kv mem_cons_self))
    have hrest : ∀ {m : ℕ} {t : Int64}, Settled env t w.tick m (kv :: rest) →
        Settled env t n m rest := fun hsettled kv' hkv' k hk hkm =>
      hsettled kv' (mem_cons_of_mem _ hkv') k (hread.le.trans hk) hkm
    cases dead with
    | true =>
      obtain ⟨found, m, hm, hnm, hfound⟩ := ih keys { w with tick := n }
      refine ⟨found, m, hm, hread.le.trans hnm, fun t hsettled => ?_⟩
      rw [hfound t (hrest hsettled), filter_cons_of_neg (by rw [halive hnm hsettled]; decide)]
    | false =>
      rw [if_neg Bool.false_ne_true, bind_apply, hhit, ok_bind]
      dsimp only
      by_cases hfull : 0 ≤ o.count ∧
          o.count ≤ (if hit kv.1 then keys ++ [kv.1] else keys).length
      · rw [if_pos hfull]
        refine ⟨_, n, rfl, hread.le, fun t hsettled => ?_⟩
        rw [filter_cons_of_pos (halive (le_refl _) hsettled), scanLive, if_pos hfull]
      · rw [if_neg hfull]
        obtain ⟨found, m, hm, hnm, hfound⟩ := ih _ { w with tick := n }
        refine ⟨found, m, hm, hread.le.trans hnm, fun t hsettled => ?_⟩
        rw [hfound t (hrest hsettled), filter_cons_of_pos (halive hnm hsettled), scanLive,
          if_neg hfull]

/-- Without `COUNT`, these are all that match. -/
theorem scanLive_of_no_count (hit : Bytes → Bool) (l : List (Bytes × Entry)) (keys : List Bytes) :
    scanLive hit (-1) l keys = keys ++ (l.map Prod.fst).filter hit := by
  induction l generalizing keys with
  | nil => exact (append_nil keys).symm
  | cons kv rest ih =>
    rw [scanLive, if_neg (by omega), ih, map_cons]
    cases hkv : hit kv.1 with
    | true => rw [if_pos rfl, filter_cons_of_pos hkv, append_assoc]; rfl
    | false =>
      rw [if_neg Bool.false_ne_true, filter_cons_of_neg (by rw [hkv]; exact Bool.false_ne_true)]

/-- The keys that `SCAN` replies, from two tables that are alike. -/
theorem sorted_scanLive_eq (hit : Bytes → Bool) {count : ℤ} {tab tab' : Table} (n : ℕ)
    (htab : Database.purgeTable t tab = Database.purgeTable t tab')
    (hcount : count = -1 ∨ env.KeepsOrder t) :
    sorted (scanLive hit count ((env.order n tab.toList).filter (alivePair t)) []) =
      sorted (scanLive hit count ((env.order n tab'.toList).filter (alivePair t)) []) := by
  rcases hcount with rfl | horder
  · -- All live keys that match are there, in any order.
    rw [scanLive_of_no_count, scanLive_of_no_count]
    refine sorted_eq_of_perm ((List.Perm.map Prod.fst ?_).filter hit)
    have hperm := filter_order_perm (t := t) env n tab
    rw [htab] at hperm
    exact hperm.trans (filter_order_perm env n tab').symm
  · have hlists : tab.toList.filter (alivePair t) = tab'.toList.filter (alivePair t) := by
      have hlist := congrArg Dict.toList htab
      unfold Database.purgeTable at hlist
      rw [Dict.toList_filter, Dict.toList_filter] at hlist
      exact hlist
    rw [horder, horder, hlists]

/-- `SCAN` leaves the entries alone, and with `COUNT` its reply depends on the order of iteration.
-/
theorem scan_agrees (hclock : ∀ n, env.nowMs n = t) (h : w.Alike t w') :
    Agree (fun _ w₁ _ w₁' => w₁.Near t w₁' ∧
      ((NamesCount argv → env.KeepsOrder t) → w₁.out = w₁'.out)) (scan env argv w)
      (scan env argv w') := by
  refine agree_arg argv 1 fun s => ?_
  split_ifs
  · exact (h.replyError _).imp fun _ _ _ _ hR => ⟨hR.1, fun _ => hR.2⟩
  have hserves : (lookupRules env).Serves argv 0 := ⟨fun _ _ _ => trivial, fun _ _ => trivial,
    strings_of_all fun _ => trivial, fun _ _ _ => trivial⟩
  refine ((obeys_scanOptions hserves).agree hclock rfl rfl rfl free_of_true h
    (holding_nothing t w _)).bind ?_
  rintro _ w₁ step w₁' ⟨rfl, p, hs, h₁, -⟩
  cases step with
  | stop _ => exact .ok ⟨h₁.toNear, fun _ => h₁.out⟩
  | next _ o =>
    obtain ⟨hit, hhit⟩ := exists_hit o.pattern
    have hsettled : ∀ i j items, Settled env t i j items := fun _ _ _ _ _ n _ _ => by rw [hclock]
    have hrun : ∀ w : World, ∃ n, scanLoop env o
        (env.order w.tick (w.db.table w.cs.dbIndex).toList) [] { w with tick := w.tick + 1 } = _ :=
      fun w => by
        obtain ⟨found, n, hn, -, hfound⟩ := scanLoop_run env hhit _ [] _
        exact ⟨n, hn.trans (by rw [hfound t (hsettled _ _ _)])⟩
    obtain ⟨n, hn⟩ := hrun w₁
    obtain ⟨n', hn'⟩ := hrun w₁'
    show Agree _ (scanLoop env o _ [] { w₁ with tick := w₁.tick + 1 } >>= _)
      (scanLoop env o _ [] { w₁' with tick := w₁'.tick + 1 } >>= _)
    rw [hn, hn', ok_bind, ok_bind, ← h₁.tick, ← h₁.cs]
    refine .ok ⟨⟨h₁.db, h₁.maxMemory, h₁.lastSave, h₁.startTime, rfl⟩, fun horder => ?_⟩
    have hsame := sorted_scanLive_eq hit w₁.tick (h₁.db w₁.cs.dbIndex) (hs.2.imp_right horder)
    show appendBulkArray (appendBulkReply (appendArrayReply w₁.out 2) _) _ =
      appendBulkArray (appendBulkReply (appendArrayReply w₁'.out 2) _) _
    rw [h₁.out, hsame]

/-! ## `RANDOMKEY` -/

/-- The entry that `RANDOMKEY` draws. -/
def drawn (env : Env) (w : World) : Option (Bytes × Entry) :=
  let items := env.order w.tick (w.db.table w.cs.dbIndex).toList
  items[env.random (w.tick + 1) % items.length]?

/-- The reply of `RANDOMKEY` to what it draws. -/
def drawnReply (t : Int64) : Option (Bytes × Entry) → Reply
  | none => .nullBulk
  | some kv => if Database.expired kv.2 t then .nullBulk else .bulk kv.1

/-- Something is drawn from a table that is not empty, and it is an entry of the table. -/
theorem drawn_of_nonempty
    (h : (w.db.table w.cs.dbIndex).entries.isEmpty = false) :
    ∃ kv, drawn env w = some kv ∧ (w.db.table w.cs.dbIndex).lookup kv.1 = some kv.2 := by
  unfold drawn
  set items := env.order w.tick (w.db.table w.cs.dbIndex).toList with hitems
  have hlength : 0 < items.length := by
    rw [hitems, (env.order_perm _ _).length_eq]
    refine length_pos_iff.2 fun hnil => ?_
    rw [map_eq_nil_iff.1 hnil] at h
    cases h
  obtain ⟨kv, hkv⟩ : ∃ kv, items[env.random (w.tick + 1) % items.length]? = some kv :=
    ⟨_, getElem?_eq_getElem (Nat.mod_lt _ hlength)⟩
  exact ⟨kv, hkv, lookup_of_mem_order (mem_of_getElem? hkv)⟩

/-- Nothing is drawn from an empty table. -/
theorem drawn_of_empty (h : (w.db.table w.cs.dbIndex).entries = []) : drawn env w = none := by
  have hitems : env.order w.tick (w.db.table w.cs.dbIndex).toList = [] := by
    have hperm := env.order_perm w.tick (w.db.table w.cs.dbIndex).toList
    rw [Dict.toList, h, map_nil] at hperm ⊢
    exact hperm.eq_nil
  unfold drawn
  rw [hitems]
  rfl

variable (hclock : ∀ n, env.nowMs n = t)
include hclock

/-- `RANDOMKEY` on a table that is not empty, up to what it does with the entry it draws. -/
theorem randomkey_of_drawn (hempty : (w.db.table w.cs.dbIndex).entries.isEmpty = false)
    (hkv : drawn env w = some kv) :
    ∃ n, randomkey env w = (if Database.expired kv.2 t then do
        deleteExpired kv.1
        replyNullBulk
      else replyBulk kv.1) { w with tick := n } := by
  obtain ⟨dead, n, hn, hread⟩ := keyIsLiveExpired_run env kv.2 { w with tick := w.tick + 2 }
  rw [← hclock, hread.eq]
  have htable : table w = .ok (w.db.table w.cs.dbIndex, w) := rfl
  have hiterate : iterate env (w.db.table w.cs.dbIndex).toList w =
    .ok (env.order w.tick (w.db.table w.cs.dbIndex).toList, { w with tick := w.tick + 1 }) := rfl
  have hbelow : ∀ k, randomBelow env k { w with tick := w.tick + 1 } =
    .ok (env.random (w.tick + 1) % k, { w with tick := w.tick + 2 }) := fun _ => rfl
  unfold drawn at hkv
  refine ⟨n, ?_⟩
  rw [randomkey, bind_apply, htable, ok_bind]
  dsimp only
  rw [hempty, if_neg Bool.false_ne_true, bind_apply, hiterate, ok_bind, bind_apply, hbelow, ok_bind]
  dsimp only
  rw [hkv]
  dsimp only
  rw [bind_apply, hn]
  rfl

/-- `RANDOMKEY` deletes at most a key whose deadline has come. Its reply is decided by the one entry
it draws. -/
theorem randomkey_run (w : World) :
    ∃ w₁, randomkey env w = .ok ((), w₁) ∧ w₁.Near t w ∧
      w₁.out = w.out ++ (drawnReply t (drawn env w)).encode := by
  cases hempty : (w.db.table w.cs.dbIndex).entries.isEmpty with
  | true =>
    refine ⟨{ w with out := appendNullBulkReply w.out }, ?_, ⟨.refl t _, rfl, rfl, rfl, rfl⟩, ?_⟩
    · show (if (w.db.table w.cs.dbIndex).entries.isEmpty then replyNullBulk else _) w = _
      rw [hempty]
      rfl
    · rw [drawn_of_empty (isEmpty_iff.1 hempty)]
      exact append_assoc _ _ _
  | false =>
    obtain ⟨kv, hkv, hlookup⟩ : ∃ kv, drawn env w = some kv ∧ _ := drawn_of_nonempty hempty
    obtain ⟨n, hrun⟩ := randomkey_of_drawn hclock hempty hkv
    rw [hkv, drawnReply]
    cases hdead : Database.expired kv.2 t with
    | false =>
      rw [hrun, hdead]
      refine ⟨_, rfl, ⟨.refl t _, rfl, rfl, rfl, rfl⟩, ?_⟩
      simp [appendBulkReply, Reply.encode]
    | true =>
      have hkey : ∀ e, (w.db.table w.cs.dbIndex).lookup kv.1 = some e →
          Database.expired e t = true := by
        intro e he
        cases hlookup.symm.trans he
        exact hdead
      obtain ⟨w₁, hw₁, hnear, hout, -⟩ := deleteExpired_run { w with tick := n } hkey
      rw [hrun, hdead, if_pos rfl, bind_apply, hw₁]
      refine ⟨_, rfl, hnear.aside _ _ _ _, ?_⟩
      show appendNullBulkReply w₁.out = _
      rw [hout]
      exact append_assoc _ _ _

/-- `RANDOMKEY`. -/
theorem near_randomkey (h : w.Alike t w') :
    Agree (SameEntries t) (randomkey env w) (randomkey env w') := by
  obtain ⟨w₁, hw₁, hnear, -⟩ := randomkey_run hclock w
  obtain ⟨w₁', hw₁', hnear', -⟩ := randomkey_run hclock w'
  rw [hw₁, hw₁']
  exact .ok ((hnear.trans h.toNear).trans hnear'.symm)

/-! ## All commands -/

/-- The commands whose replies show entries whose deadline has come. -/
def showsExpired (c : Cmd) : Bool := c ∈ ([.del, .unlink, .randomkey, .dbsize, .info] : List Cmd)

/-- The handlers, but for those whose replies show such entries. -/
theorem agree_handler (hc : showsExpired c = false)
    (horder : c = .scan → NamesCount argv → env.KeepsOrder t) (h : w.Alike t w') :
    Agree (SameReply t) (handler env lower argv c w) (handler env lower argv c w') := by
  by_cases hwhole : readsServer c = true
  · cases c with
    | scan => exact (scan_agrees hclock h).imp fun _ _ _ _ hR => ⟨hR.1, hR.2 (horder rfl)⟩
    | lastsave => exact agree_lastsave h
    | config => exact agree_config h
    | client => exact agree_client h
    | info | dbsize => cases hc
    | _ => cases hwhole
  by_cases hloose : sweepsTable c = true
  · cases c with
    | flushdb => exact agree_flushdb h
    | flushall => exact agree_flushall h
    | keys => exact agree_keys hclock h
    | randomkey => cases hc
    | _ => cases hloose
  have hblind : deletesBlindly c ≠ true := fun hblind => by
    cases c with
    | del | unlink => cases hc
    | _ => cases hblind
  have hpermits : (lookupRules env).Permits c argv :=
    { freeRules_permits with
      blind := fun h => absurd h hblind
      whole := fun h => absurd h hwhole
      loose := fun h => absurd h hloose }
  exact (obeys_handler (hpermits.allows free_of_true) trivial).sameReply hclock h

/-- All handlers leave the entries alike. -/
theorem near_handler (h : w.Alike t w') :
    Agree (SameEntries t) (handler env lower argv c w) (handler env lower argv c w') := by
  cases hc : showsExpired c with
  | false =>
    by_cases hscan : c = .scan
    · subst hscan
      exact (scan_agrees hclock h).imp fun _ _ _ _ hR => hR.1
    · exact (agree_handler hclock hc (fun hs => absurd hs hscan) h).imp fun _ _ _ _ hR => hR.1
  | true =>
    cases c with
    | del | unlink => exact near_del h
    | randomkey => exact near_randomkey hclock h
    | dbsize => exact near_dbsize h
    | info => exact near_info h hclock
    | _ => cases hc

end TinyRedis.Commands

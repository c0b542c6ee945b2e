import Mathlib.Data.Rat.Floor
import TinyRedis.Commands.Deadlines
import TinyRedis.Db.Purge

/-!
# Keys until their deadline

After a command of the `EXPIRE` family has set a deadline, the key should be found until that time
and no longer, and `TTL` and `PTTL` should reply what is left of it. Between the two, the clients
may make any calls that do not write the key, and `ActiveExpireCycle` may run. Each of these either
leaves the entry alone, or drops it because the deadline has come.

This holds for every deadline but zero, which `Entry` takes for no deadline at all.
-/

namespace TinyRedis.Commands

open Lib Resp

variable {env : Env} {depth i j n : ℕ} {argv : Args} {tx tx' : Tx} {w w' : World} {d : DbIndex}
  {key lower : Bytes} {c : Cmd} {e : Entry} {x x' : Shared} {rem : ℤ}

/-! ## The clock -/

/-- A command reads the clock some times. -/
theorem runCommand_tick_le (hlower : OneLine lower)
    (hrun : runCommand env c lower argv w = .ok ((), w')) : w.tick ≤ w'.tick := by
  obtain ⟨p, -, h⟩ := holds_runCommand freeRules_permits free_of_true hlower hrun
  exact h.tick

/-- So does a call that runs at most one handler. -/
theorem Reacts.tick_le (h : Reacts env argv tx w tx' w') : w.tick ≤ w'.tick := by
  cases h with
  | ran ha _ _ hrun => exact runCommand_tick_le (line_of_findCommand ha) hrun
  | _ => exact le_refl _

/-! ## Calls that do not write -/

/-- The command of a call is not a write command. -/
def isRead (argv : Args) : Bool := (commandOf argv).all fun c => !isWriteCommand c

/-- A call that runs no write command, also from the queue of a transaction. -/
def readsOnly (tx : Tx) (argv : Args) : Bool :=
  isRead argv && (decide (commandOf argv ≠ some .exec) || tx.multiQueue.all isRead)

/-- Without a write command, entries only disappear when their deadline has come. -/
theorem Reacts.aged (hread : isRead argv = true) (h : Reacts env argv tx w tx' w') :
    Aged env w.tick w'.tick w.db w'.db := by
  cases h with
  | ran ha _ _ hrun =>
    unfold isRead at hread
    rw [commandOf_cons ha, Option.all_some, Bool.not_eq_true'] at hread
    exact runCommand_read (line_of_findCommand ha) hread hrun
  | _ => exact .refl _ _ _ _

/-- The calls of a queue are made one after another, so that entries may be dropped in each. -/
theorem runQueue_aged {run : Args → D Unit} (hcall : ∀ argv tx w tx' w', isRead argv = true →
      (∀ q ∈ tx.multiQueue, isRead q = true) → run argv tx w = .ok (((), tx'), w') →
      w.tick ≤ w'.tick ∧ Aged env w.tick w'.tick w.db w'.db ∧
        ∀ q ∈ tx'.multiQueue, isRead q = true)
    {queue : List Args} (hqueue : ∀ q ∈ queue, isRead q = true)
    (hrun : runQueue run queue .idle w = .ok (((), tx'), w')) :
    w.tick ≤ w'.tick ∧ Aged env w.tick w'.tick w.db w'.db ∧
      ∀ q ∈ tx'.multiQueue, isRead q = true := by
  refine runQueue_invariant (I := fun tx₁ w₁ => w.tick ≤ w₁.tick ∧
    Aged env w.tick w₁.tick w.db w₁.db ∧ ∀ q ∈ tx₁.multiQueue, isRead q = true) ?_ ?_ hrun
  · rintro q hq tx₁ w₁ tx₂ w₂ ⟨htick, haged, hall⟩ hrun
    obtain ⟨htick', haged', hall'⟩ := hcall q tx₁ w₁ tx₂ w₂ (hqueue q hq) hall hrun
    exact ⟨htick.trans htick', haged.trans haged' htick htick', hall'⟩
  · exact ⟨le_refl _, .refl _ _ _ _, fun _ hq => absurd hq List.not_mem_nil⟩

/-- So do they in a call, whose queue stays free of write commands. -/
theorem dispatch_reads : ∀ argv tx w tx' w', isRead argv = true →
    (∀ q ∈ tx.multiQueue, isRead q = true) → dispatch env depth argv tx w = .ok (((), tx'), w') →
    w.tick ≤ w'.tick ∧ Aged env w.tick w'.tick w.db w'.db ∧
      ∀ q ∈ tx'.multiQueue, isRead q = true := by
  induction depth with
  | zero => exact fun argv tx w tx' w' _ _ hrun => by cases hrun
  | succ depth ih =>
    intro argv tx w tx' w' hread hqueue hrun
    rcases dispatch_reacts hrun with hreacts | hexec
    · exact ⟨hreacts.tick_le, hreacts.aged hread, hreacts.queue hread hqueue⟩
    · exact runQueue_aged (w := execHeader tx w) ih hqueue hexec.queue

/-- A call that does not write only drops entries whose deadline has come. -/
theorem aged_of_readsOnly (h : readsOnly tx argv = true)
    (hrun : dispatch env depth argv tx w = .ok (((), tx'), w')) :
    Aged env w.tick w'.tick w.db w'.db := by
  obtain ⟨hread, hqueue⟩ := Bool.and_eq_true_iff.1 h
  rcases Bool.or_eq_true_iff.1 hqueue with hexec | hqueue
  · exact (reacts_of_ne_exec (of_decide_eq_true hexec) hrun).aged hread
  · exact (dispatch_reads argv tx w tx' w' hread (List.all_eq_true.1 hqueue) hrun).2.1

/-! ## `ActiveExpireCycle` -/

/-- Entries that were dropped at one reading of the clock. -/
theorem aged_of_shed {db db' : Database} (h : Database.Shed (env.nowMs n) db db') (hi : i ≤ n)
    (hj : n < j) : Aged env i j db db' := by
  intro d key
  rcases h d key with hsame | ⟨e, he, hexp, hnone⟩
  · exact .inl hsame
  · exact .inr ⟨e, n, he, hi, hj, hexp, hnone⟩

/-- One key space. -/
theorem aged_expireOne (env : Env) (r : ℕ × Server) (i : DbIndex) :
    Aged env r.2.tick (Server.expireOne env r i).2.tick r.2.db (Server.expireOne env r i).2.db := by
  have hshed : Database.Shed (env.nowMs (r.2.tick + 2)) r.2.db (Server.expireOne env r i).2.db :=
    (Database.expires_expireTable (r.1, r.2.db) (env.order_perm _ _)).shed
  exact aged_of_shed hshed (by omega) (Nat.lt_succ_self (r.2.tick + 2))

/-- The key spaces are gone through one after another. -/
theorem aged_foldl_expireOne (env : Env) (l : List DbIndex) (r : ℕ × Server) :
    r.2.tick ≤ (l.foldl (Server.expireOne env) r).2.tick ∧
      Aged env r.2.tick (l.foldl (Server.expireOne env) r).2.tick r.2.db
        (l.foldl (Server.expireOne env) r).2.db := by
  induction l generalizing r with
  | nil => exact ⟨le_refl _, .refl _ _ _ _⟩
  | cons i l ih =>
    have hone : r.2.tick ≤ (Server.expireOne env r i).2.tick := Nat.le_add_right _ 3
    obtain ⟨hrest, haged⟩ := ih (Server.expireOne env r i)
    exact ⟨hone.trans hrest, (aged_expireOne env r i).trans haged hone hrest⟩

/-- All of them. -/
theorem aged_activeExpireCycle (env : Env) (s : Server) :
    s.tick ≤ (s.activeExpireCycle env).tick ∧
      Aged env s.tick (s.activeExpireCycle env).tick s.db (s.activeExpireCycle env).db :=
  aged_foldl_expireOne env (List.finRange kNumDatabases) (0, s)

/-! ## Runs -/

/-- What the clients share: the database, and the readings of the clock so far. -/
structure Shared where
  db : Database
  tick : ℕ

/-- What a client sees of it. -/
def World.shared (w : World) : Shared := ⟨w.db, w.tick⟩

/-- What is shared by the clients of a server. -/
def Server.shared (s : Server) : Shared := ⟨s.db, s.tick⟩

/-- The entry under the key was left alone, or it was dropped because its deadline had come. -/
def Passes (env : Env) (d : DbIndex) (key : Bytes) (x x' : Shared) : Prop :=
  (x'.db.table d).lookup key = (x.db.table d).lookup key ∨
    ∃ e n, (x.db.table d).lookup key = some e ∧ x.tick ≤ n ∧ n < x'.tick ∧
      Database.expired e (env.nowMs n) = true ∧ (x'.db.table d).lookup key = none

/-- One event that does not write the key: a call with no write command, a call with one that has no
effect on the entry, or `ActiveExpireCycle`. A call may be made by any client, also from the queue
of a transaction. -/
inductive Happens (env : Env) (d : DbIndex) (key : Bytes) : Shared → Shared → Prop
  | call {depth : ℕ} {argv : Args} {tx tx' : Tx} {w w' : World} :
      dispatch env depth argv tx w = .ok (((), tx'), w') →
      readsOnly tx argv = true ∨ Passes env d key w.shared w'.shared →
      Happens env d key w.shared w'.shared
  | expire (s : Server) : Happens env d key s.shared (s.activeExpireCycle env).shared

/-- An event does not go back to an earlier reading. -/
theorem Happens.tick_le (h : Happens env d key x x') : x.tick ≤ x'.tick := by
  cases h with
  | call hrun =>
    exact dispatch_rel (R := fun w w' => w.tick ≤ w'.tick) (fun _ => le_refl _) le_trans
      (fun h => h.tick_le) (fun _ _ => le_refl _) hrun
  | expire s => exact (aged_activeExpireCycle env s).1

/-- An event leaves the entry alone, or drops it because its deadline has come. -/
theorem Happens.passes (h : Happens env d key x x') : Passes env d key x x' := by
  cases h with
  | call hrun hcall =>
    rcases hcall with hread | hpasses
    · exact aged_of_readsOnly hread hrun d key
    · exact hpasses
  | expire s => exact (aged_activeExpireCycle env s).2 d key

/-- The clock does not go back. -/
def ClockRises (env : Env) : Prop := ∀ i j, i ≤ j → clock env i ≤ clock env j

/-- The entry is still there, or its deadline has come and it is not. -/
def Remains (env : Env) (d : DbIndex) (key : Bytes) (e : Entry) (x : Shared) : Prop :=
  (x.db.table d).lookup key = some e ∨
    (x.db.table d).lookup key = none ∧ Database.expired e (env.nowMs x.tick) = true

/-- The deadline of an entry has come, if it has one. -/
theorem expired_iff : Database.expired e (env.nowMs n) = true ↔
    e.expiresAtMs ≠ 0 ∧ e.expiresAtMs.toInt ≤ clock env n := by
  unfold Database.expired clock
  rw [Bool.and_eq_true, decide_eq_true_iff, decide_eq_true_iff, Int64.le_iff_toInt_le]

/-- What has expired stays so. -/
theorem ClockRises.expired (hclock : ClockRises env) (h : Database.expired e (env.nowMs i) = true)
    (hij : i ≤ j) :
    Database.expired e (env.nowMs j) = true := by
  obtain ⟨hne, hle⟩ := expired_iff.1 h
  exact expired_iff.2 ⟨hne, hle.trans (hclock i j hij)⟩

section Runs

variable {e : Entry} {x x' : Shared} (hclock : ClockRises env)
include hclock

/-- The entry remains through one event. -/
theorem Remains.happens (h : Remains env d key e x) (hstep : Happens env d key x x') :
    Remains env d key e x' := by
  have htick := hstep.tick_le
  rcases h with h | ⟨hnone, hexp⟩
  · rcases hstep.passes with hsame | ⟨e', n, he', -, hn, hexp, hnone⟩
    · exact .inl (hsame.trans h)
    · cases h.symm.trans he'
      exact .inr ⟨hnone, hclock.expired hexp hn.le⟩
  · rcases hstep.passes with hsame | ⟨e', n, he', -⟩
    · exact .inr ⟨hsame.trans hnone, hclock.expired hexp htick⟩
    · cases hnone.symm.trans he'

/-- The entry remains through any number of events. -/
theorem Remains.run (h : Remains env d key e x)
    (hrun : Relation.ReflTransGen (Happens env d key) x x') : Remains env d key e x' := by
  induction hrun with
  | refl => exact h
  | tail _ hstep ih => exact ih.happens hclock hstep

end Runs

/-- What a lookup finds. -/
theorem Remains.live_eq (h : Remains env w.cs.dbIndex key e w.shared) :
    live env key w = if Database.expired e (env.nowMs w.tick) then none else some e := by
  unfold live Database.lookup
  rcases h with h | ⟨hnone, hexp⟩
  · have hentry : (w.db.table w.cs.dbIndex).lookup key = some e := h
    rw [hentry]
    dsimp only
    split_ifs
    · rfl
    · rfl
  · have hentry : (w.db.table w.cs.dbIndex).lookup key = none := hnone
    have hexp' : Database.expired e (env.nowMs w.tick) = true := hexp
    rw [hentry, if_pos hexp']

/-! ## `TTL` and `PTTL` -/

/-- What `TTL` and `PTTL` should reply at the time `t`. -/
def remaining (c : Cmd) (deadline t : ℤ) : ℤ :=
  if deadline ≤ t then -2
  else if c = .ttl then ⌈((deadline - t : ℤ) : ℚ) / 1000⌉
  else deadline - t

/-- The handlers round up. -/
theorem ceil_eq_tdiv (h : 0 < rem) : ⌈(rem : ℚ) / 1000⌉ = (rem + 999).tdiv 1000 := by
  have hceil : ⌈(rem : ℚ) / 1000⌉ = -(-rem / (1000 : ℕ)) := Rat.ceil_intCast_div_natCast rem 1000
  rw [hceil, Int.tdiv_eq_ediv_of_nonneg (by omega)]
  omega

section Ttl

variable {e : Entry} (round : ℤ → M ℤ) (hargs : 1 < argv.length)
include hargs

/-- There is no key. -/
theorem ttlWith_missing (hlive : live env (argv.getD 1 []) w = none) :
    ttlWith env argv round w =
      .ok ((), replied (.int (-2)) (afterLookup env (argv.getD 1 []) w)) := by
  unfold ttlWith
  rw [arg_bind hargs, lookup_bind, hlive]
  exact replyInt_eq _ _

/-- Zero is taken for no deadline. -/
theorem ttlWith_zero (hlive : live env (argv.getD 1 []) w = some e) (hzero : e.expiresAtMs = 0) :
    ttlWith env argv round w = .ok ((), replied (.int (-1)) { w with tick := w.tick + 1 }) := by
  unfold ttlWith
  rw [arg_bind hargs, lookup_bind, hlive, afterLookup_of_live hlive]
  dsimp only
  rw [if_pos hzero]
  exact replyInt_eq _ _

/-- The clock is read once more, after the lookup. -/
theorem ttlWith_found (hlive : live env (argv.getD 1 []) w = some e) (hzero : e.expiresAtMs ≠ 0) :
    ttlWith env argv round w =
      if isInt64 (e.expiresAtMs.toInt - clock env (w.tick + 1)) then
        (if e.expiresAtMs.toInt - clock env (w.tick + 1) ≤ 0 then replyInt (-2)
          else round (e.expiresAtMs.toInt - clock env (w.tick + 1)) >>= replyInt)
          { w with tick := w.tick + 2 }
      else .error .signedOverflow := by
  unfold ttlWith
  rw [arg_bind hargs, lookup_bind, hlive, afterLookup_of_live hlive]
  dsimp only
  rw [if_neg hzero, bind_apply, nowMs_eq, ok_bind]
  exact checked_bind _ _ _

end Ttl

/-- The numbers that the reply is computed from are in range. -/
def ttlFits (c : Cmd) (rem : ℤ) : Bool :=
  isInt64 rem && (decide (rem ≤ 0) || decide (c ≠ .ttl) || isInt64 (rem + 999))

/-- The reply, where the numbers are in range. -/
theorem ttlWith_rounds {round : ℤ → M ℤ} (hargs : 1 < argv.length)
    (hlive : live env (argv.getD 1 []) w = some e) (hzero : e.expiresAtMs ≠ 0)
    (hround : ∀ rem w, 0 < rem → round rem w =
      if decide (c ≠ .ttl) || isInt64 (rem + 999) then
        .ok (if c = .ttl then ⌈(rem : ℚ) / 1000⌉ else rem, w)
      else .error .signedOverflow) : ttlWith env argv round w =
      if ttlFits c (e.expiresAtMs.toInt - clock env (w.tick + 1)) then
        .ok ((), replied (.int (remaining c e.expiresAtMs.toInt (clock env (w.tick + 1))))
          { w with tick := w.tick + 2 })
      else .error .signedOverflow := by
  rw [ttlWith_found round hargs hlive hzero]
  unfold remaining ttlFits
  generalize hrem : e.expiresAtMs.toInt - clock env (w.tick + 1) = rem
  have hle : e.expiresAtMs.toInt ≤ clock env (w.tick + 1) ↔ rem ≤ 0 := by omega
  rw [if_congr hle rfl rfl]
  cases isInt64 rem with
  | false => rfl
  | true =>
    rw [if_pos rfl, Bool.true_and]
    by_cases hpos : rem ≤ 0
    · rw [if_pos hpos, if_pos hpos, decide_eq_true hpos]
      exact replyInt_eq _ _
    · rw [if_neg hpos, if_neg hpos, decide_eq_false hpos, Bool.false_or, bind_apply,
        hround rem _ (by omega)]
      cases decide (c ≠ .ttl) || isInt64 (rem + 999) with
      | false => rfl
      | true => exact replyInt_eq _ _

/-- Both commands reply what is left. -/
theorem handler_ttl (hc : c = .ttl ∨ c = .pttl) (hargs : 1 < argv.length)
    (hlive : live env (argv.getD 1 []) w = some e) (hzero : e.expiresAtMs ≠ 0) :
    handler env lower argv c w =
      if ttlFits c (e.expiresAtMs.toInt - clock env (w.tick + 1)) then
        .ok ((), replied (.int (remaining c e.expiresAtMs.toInt (clock env (w.tick + 1))))
          { w with tick := w.tick + 2 })
      else .error .signedOverflow := by
  rcases hc with rfl | rfl
  · refine ttlWith_rounds hargs hlive hzero fun rem w hpos => ?_
    rw [if_pos rfl, ceil_eq_tdiv hpos]
    exact checked_bind _ _ _
  · exact ttlWith_rounds hargs hlive hzero fun rem w _ => rfl

/-- What is left is reported as it should be by `PTTL` if it is by `TTL`. -/
theorem ttlFits_of_ttl (h : ttlFits .ttl rem = true) (c : Cmd) : ttlFits c rem = true := by
  unfold ttlFits at h ⊢
  simp only [ne_eq, not_true_eq_false, decide_false, Bool.or_false, Bool.and_eq_true,
    Bool.or_eq_true] at h ⊢
  exact ⟨h.1, h.2.imp_left .inl⟩

/-- What is left is never reported as no deadline. -/
theorem remaining_ne_neg_one (c : Cmd) (deadline t : ℤ) : remaining c deadline t ≠ -1 := by
  unfold remaining
  split_ifs with hdue hc
  · decide
  · rw [ceil_eq_tdiv (by omega), Int.tdiv_eq_ediv_of_nonneg (by omega)]
    omega
  · omega

/-! ## Visible keys -/

/-- A call of `TTL` or `PTTL` for the key. -/
structure TtlCall (c : Cmd) (argv : Args) (tx : Tx) (key : Bytes) : Prop where
  command : c = .ttl ∨ c = .pttl
  accepts : accepts c argv = true
  outside : tx.inMulti = false
  key : argv.getD 1 [] = key

/-- A lookup finds the key if and only if the deadline has not come, and `TTL` and `PTTL` reply what
is left. The lookup is the first reading of the clock. The handlers of `TTL` and `PTTL` read the
clock once more after it, and reply according to that. -/
def Visible (env : Env) (key : Bytes) (deadline : ℤ) (w : World) : Prop :=
  ((live env key w).isSome = true ↔ clock env w.tick < deadline) ∧
    ∀ depth c argv tx, TtlCall c argv tx key →
      ∃ w', Answers env depth argv tx w (.int (remaining c deadline (clock env (w.tick + 1)))) w'

namespace TtlCall

variable {c : Cmd} {e : Entry} (h : TtlCall c argv tx key)
include h

/-- The key is there. -/
theorem args : 1 < argv.length := by
  have hargs := minArgs_le_of_accepts h.accepts
  rcases h.command with rfl | rfl
  · exact hargs
  · exact hargs

/-- The call runs the handler. -/
theorem enters : Enters env c argv tx w := by
  rcases h.command with rfl | rfl
  · exact .mk h.accepts h.outside (gated_of_read rfl) rfl
  · exact .mk h.accepts h.outside (gated_of_read rfl) rfl

/-- The reply for a key that is not found. -/
theorem answers_missing (hlive : live env key w = none) (depth : ℕ) :
    Answers env depth argv tx w (.int (-2)) (replied (.int (-2)) (afterLookup env key w)) := by
  have hkey := h.key
  subst hkey
  refine h.enters.answers depth ?_ rfl
  rcases h.command with rfl | rfl
  · exact ttlWith_missing _ h.args hlive
  · exact ttlWith_missing _ h.args hlive

/-- The reply for a key without a deadline. -/
theorem answers_zero (hlive : live env key w = some e) (hzero : e.expiresAtMs = 0) (depth : ℕ) :
    Answers env depth argv tx w (.int (-1))
      (replied (.int (-1)) { w with tick := w.tick + 1 }) := by
  have hkey := h.key
  subst hkey
  refine h.enters.answers depth ?_ rfl
  rcases h.command with rfl | rfl
  · exact ttlWith_zero _ h.args hlive hzero
  · exact ttlWith_zero _ h.args hlive hzero

/-- The reply is what is left, unless one of the numbers is out of range. -/
theorem answers_iff (hlive : live env key w = some e) (hzero : e.expiresAtMs ≠ 0) (depth : ℕ) :
    (∃ w', Answers env depth argv tx w
      (.int (remaining c e.expiresAtMs.toInt (clock env (w.tick + 1)))) w') ↔
      ttlFits c (e.expiresAtMs.toInt - clock env (w.tick + 1)) = true := by
  have hkey := h.key
  subst hkey
  have hrun : handler env (lowerName argv) argv c w = _ :=
    handler_ttl h.command h.args hlive hzero
  cases hfits : ttlFits c (e.expiresAtMs.toInt - clock env (w.tick + 1)) with
  | true =>
    rw [hfits, if_pos rfl] at hrun
    exact iff_of_true ⟨_, h.enters.answers depth hrun rfl⟩ rfl
  | false =>
    rw [hfits, if_neg Bool.false_ne_true] at hrun
    refine iff_of_false ?_ Bool.false_ne_true
    rintro ⟨w', hanswers⟩
    have hdispatch := hanswers.run
    rw [h.enters.dispatch_eq, hrun] at hdispatch
    cases hdispatch

end TtlCall

/-- `TTL` of the key. -/
theorem ttlCall_of_key (key : Bytes) : TtlCall .ttl [bytes "TTL", key] .idle key where
  command := .inl rfl
  accepts := by
    have haccepts : accepts .ttl [bytes "TTL", []] = true := by decide +kernel
    exact haccepts
  outside := rfl
  key := rfl

section Entries

variable {e : Entry} (h : Remains env w.cs.dbIndex key e w.shared) {deadline : ℤ}
include h

/-- A deadline of zero is never visible as one: `TTL` replies that there is none. -/
theorem Remains.not_visible (hzero : e.expiresAtMs = 0) (deadline : ℤ) :
    ¬Visible env key deadline w := by
  have hexp : ¬Database.expired e (env.nowMs w.tick) = true := fun hexp =>
    (expired_iff.1 hexp).1 hzero
  have hlive := h.live_eq
  rw [if_neg hexp] at hlive
  rintro ⟨-, httl⟩
  obtain ⟨w', hanswers⟩ := httl 0 _ _ _ (ttlCall_of_key key)
  have hnone := (ttlCall_of_key key).answers_zero hlive hzero 0
  obtain ⟨-, rfl⟩ := hnone.unique hanswers
  have hreply : Reply.int (remaining .ttl deadline (clock env (w.tick + 1))) = .int (-1) :=
    replied_inj trivial trivial hanswers.out rfl
  exact remaining_ne_neg_one _ _ _ (Reply.int.inj hreply)

/-- A lookup finds it until the deadline. -/
theorem Remains.isSome_live_iff (hzero : e.expiresAtMs ≠ 0) :
    (live env key w).isSome = true ↔ clock env w.tick < e.expiresAtMs.toInt := by
  rw [h.live_eq]
  split_ifs with hexp
  · exact iff_of_false Bool.false_ne_true (expired_iff.1 hexp).2.not_gt
  · refine iff_of_true rfl (lt_of_not_ge fun hle => hexp (expired_iff.2 ⟨hzero, hle⟩))

/-- The key is visible until the deadline of its entry, if what is left can be computed. -/
theorem Remains.visible_iff (hclock : ClockRises env) (hzero : e.expiresAtMs ≠ 0) :
    Visible env key e.expiresAtMs.toInt w ↔ (clock env w.tick < e.expiresAtMs.toInt →
      ttlFits .ttl (e.expiresAtMs.toInt - clock env (w.tick + 1)) = true) := by
  have hsome := h.isSome_live_iff hzero
  unfold Visible
  rw [and_iff_right hsome]
  cases hlive : live env key w with
  | none =>
    rw [hlive] at hsome
    have hdue : e.expiresAtMs.toInt ≤ clock env w.tick := not_lt.1 fun hlt =>
      Bool.false_ne_true (hsome.2 hlt)
    refine iff_of_true (fun depth c argv tx hcall => ?_) fun hlt => absurd hdue hlt.not_ge
    -- The deadline had come at the lookup, so it has come at the second reading.
    have hreply : remaining c e.expiresAtMs.toInt (clock env (w.tick + 1)) = -2 :=
      if_pos (hdue.trans (hclock _ _ (Nat.le_succ _)))
    rw [hreply]
    exact ⟨_, hcall.answers_missing hlive depth⟩
  | some e' =>
    have he' : e' = e := by
      have hfound := h.live_eq
      rw [hlive] at hfound
      split_ifs at hfound
      exact Option.some.inj hfound
    subst he'
    rw [hlive] at hsome
    rw [forall_prop_of_true (hsome.1 rfl)]
    constructor
    · intro hall
      exact ((ttlCall_of_key key).answers_iff hlive hzero 0).1 (hall 0 _ _ _ (ttlCall_of_key key))
    · intro hfits depth c argv tx hcall
      exact (hcall.answers_iff hlive hzero depth).2 (ttlFits_of_ttl hfits c)

end Entries

/-! ## The `EXPIRE` family -/

/-- The commands of the `EXPIRE` family. -/
def isExpire (c : Cmd) : Bool := c ∈ ([.expire, .pexpire, .expireat, .pexpireat] : List Cmd)

/-- They are four. -/
theorem isExpire_iff : isExpire c = true ↔
    c = .expire ∨ c = .pexpire ∨ c = .expireat ∨ c = .pexpireat := by
  unfold isExpire
  simp only [List.mem_cons, List.not_mem_nil, or_false, decide_eq_true_iff]

/-- They set deadlines. -/
theorem setsDeadline_of_isExpire (h : isExpire c = true) : setsDeadline c = true := by
  obtain rfl | rfl | rfl | rfl := isExpire_iff.1 h <;> rfl

/-- After a call that replies one, the entry has the deadline that the call asks for. -/
theorem entry_of_answers {inRange : Bool} (hcmd : commandOf argv = some c)
    (hc : setsDeadline c = true) (htx : tx.inMulti = false)
    (hreq : request env c argv w = .stores deadline inRange)
    (h : Answers env depth argv tx w (.int 1) w') :
    ∃ e, (w'.db.table w.cs.dbIndex).lookup (argv.getD 1 []) = some e ∧
      e.expiresAtMs.toInt = deadline := by
  have hcontrol := isControl_of_setsDeadline hc
  cases hreach : reaches env c argv tx w with
  | false =>
    obtain ⟨s, hrefused⟩ := answers_refused hcmd hcontrol htx hreach depth
    exact absurd (hrefused.unique h).1 (encode_int_ne rfl 1)
  | true =>
    have henters := enters_of_reaches hreach hcontrol
    have hrun := henters.handler_ok h.run
    have hfulfils : Fulfils env (request env c argv w) _ _ w :=
      fulfils_handler hc henters.accepts (lowerName argv)
    rw [hreq] at hfulfils
    cases inRange with
    | false => cases hrun.symm.trans hfulfils
    | true =>
      obtain ⟨v, w₁, hrun₁, -, hmeets⟩ := hfulfils
      cases hrun.symm.trans hrun₁
      exact hmeets

/-- After a command of the `EXPIRE` family that replies one, and any events that do not write the
key, the key is visible until the deadline if and only if this is not zero and what is left of it
can be computed. -/
theorem visible_until_iff {c : Cmd} {deadline : ℤ} {w₁ w₂ : World} (hclock : ClockRises env)
    (hcmd : commandOf argv = some c) (hc : isExpire c = true) (htx : tx.inMulti = false)
    (hreq : request env c argv w = .stores deadline true)
    (hone : Answers env depth argv tx w (.int 1) w₁)
    (hrun : Relation.ReflTransGen (Happens env w.cs.dbIndex (argv.getD 1 [])) w₁.shared w₂.shared)
    (hindex : w₂.cs.dbIndex = w.cs.dbIndex) :
    Visible env (argv.getD 1 []) deadline w₂ ↔ deadline ≠ 0 ∧
      (clock env w₂.tick < deadline →
        ttlFits .ttl (deadline - clock env (w₂.tick + 1)) = true) := by
  obtain ⟨e, hentry, rfl⟩ := entry_of_answers hcmd (setsDeadline_of_isExpire hc) htx hreq hone
  have hremains : Remains env w.cs.dbIndex (argv.getD 1 []) e w₂.shared :=
    Remains.run hclock (.inl hentry) hrun
  rw [← hindex] at hremains
  have hzero : e.expiresAtMs.toInt = 0 ↔ e.expiresAtMs = 0 := Int64.toInt_inj (y := 0)
  by_cases h : e.expiresAtMs = 0
  · exact iff_of_false (hremains.not_visible h _) fun hcond => hcond.1 (hzero.2 h)
  · rw [hremains.visible_iff hclock h, and_iff_right (hzero.not.2 h)]

/-- A call on a key that is found replies one, if the deadline is in range. -/
theorem cmdExpire_one {isAt ms : Bool} (hargs : 2 < argv.length)
    (hreq : expireRequest env isAt ms argv w = .stores deadline true) :
    ∃ w₁, cmdExpire env argv isAt ms w = .ok ((), w₁) ∧
      w₁.out = w.out ++ (Reply.int 1).encode := by
  unfold expireRequest at hreq
  cases hparse : parseIntStrict (argv.getD 2 []) with
  | none =>
    rw [hparse] at hreq
    cases hreq
  | some v =>
    rw [hparse] at hreq
    cases hlive : live env (argv.getD 1 []) w with
    | none =>
      rw [hlive] at hreq
      cases hreq
    | some e =>
      rw [hlive] at hreq
      have hfits := (Request.stores.inj hreq).2
      exact ⟨_, (cmdExpire_found hargs hparse hlive).trans (if_pos hfits), rfl⟩

/-- So does a call that reaches its handler. -/
theorem exists_answers_one (hc : isExpire c = true) (hreach : reaches env c argv tx w = true)
    (hreq : request env c argv w = .stores deadline true) (depth : ℕ) :
    ∃ w₁, Answers env depth argv tx w (.int 1) w₁ := by
  have henters := enters_of_reaches hreach
    (isControl_of_setsDeadline (setsDeadline_of_isExpire hc))
  have hargs := minArgs_le_of_accepts henters.accepts
  have hrun : ∃ w₁, handler env (lowerName argv) argv c w = .ok ((), w₁) ∧
      w₁.out = w.out ++ (Reply.int 1).encode := by
    obtain rfl | rfl | rfl | rfl := isExpire_iff.1 hc
    · exact cmdExpire_one hargs hreq
    · exact cmdExpire_one hargs hreq
    · exact cmdExpire_one hargs hreq
    · exact cmdExpire_one hargs hreq
  obtain ⟨w₁, hrun, hout⟩ := hrun
  exact ⟨w₁, henters.answers depth hrun hout⟩

/-- A session may see any database, and so may a server. -/
theorem exists_shared (x : Shared) (w : World) :
    (∃ w' : World, w'.shared = x ∧ w'.cs = w.cs) ∧ ∃ s : Server, s.shared = x :=
  ⟨⟨{ w with db := x.db, tick := x.tick }, rfl, rfl⟩,
    ⟨{ freshServer with db := x.db, tick := x.tick }, rfl⟩⟩

/-- `EXPIRE k 10`, and then `ActiveExpireCycle`. -/
theorem visible_until_iff_ten : ∃ (s : Server) (w₁ w₂ : World),
    Answers stillEnv 0 [bytes "EXPIRE", bytes "k", bytes "10"] .idle
      (worldWith (.list [bytes "a"])) (.int 1) w₁ ∧
    s.shared = w₁.shared ∧ w₂.shared = (s.activeExpireCycle stillEnv).shared ∧
    Visible stillEnv (bytes "k") 10000 w₂ := by
  have hclock : ClockRises stillEnv := fun _ _ _ => le_refl _
  have hreq : request stillEnv .expire [bytes "EXPIRE", bytes "k", bytes "10"]
      (worldWith (.list [bytes "a"])) = .stores 10000 true := by decide +kernel
  obtain ⟨w₁, hone⟩ : ∃ w₁, Answers stillEnv 0 _ .idle _ _ w₁ :=
    exists_answers_one rfl (by decide +kernel) hreq 0
  obtain ⟨-, s, hs⟩ := exists_shared w₁.shared w₁
  obtain ⟨⟨w₂, hw₂, hcs⟩, -⟩ := exists_shared (s.activeExpireCycle stillEnv).shared
    (worldWith (.list [bytes "a"]))
  have hstep : Happens stillEnv (worldWith (.list [bytes "a"])).cs.dbIndex (bytes "k") s.shared _ :=
    .expire s
  rw [hs, ← hw₂] at hstep
  have hvisible := visible_until_iff hclock (by decide +kernel) rfl rfl hreq hone (.single hstep)
    (congrArg Session.dbIndex hcs)
  exact ⟨s, w₁, w₂, hone, hs, hw₂, hvisible.2 ⟨by decide, fun _ => rfl⟩⟩

/-- `EXPIREAT k 0`. The deadline has come, and yet the key is found, and `TTL` replies that there is
no deadline. -/
theorem expireat_zero : ∃ w₁ w₂ : World,
    request stillEnv .expireat [bytes "EXPIREAT", bytes "k", bytes "0"]
      (worldWith (.list [bytes "a"])) = .stores 0 true ∧
    Answers stillEnv 0 [bytes "EXPIREAT", bytes "k", bytes "0"] .idle
      (worldWith (.list [bytes "a"])) (.int 1) w₁ ∧
    clock stillEnv w₁.tick = 0 ∧ (live stillEnv (bytes "k") w₁).isSome = true ∧
    Answers stillEnv 0 [bytes "TTL", bytes "k"] .idle w₁ (.int (-1)) w₂ ∧
    ¬Visible stillEnv (bytes "k") 0 w₁ := by
  have hlive := (finds_worldWith stillEnv listKind [bytes "a"]).live
  have hfound : cmdExpire stillEnv [bytes "EXPIREAT", bytes "k", bytes "0"] true false _ = _ :=
    cmdExpire_found (v := 0) (by decide) (by decide +kernel) hlive
  rw [if_pos (by decide +kernel)] at hfound
  have hremains : Remains stillEnv (worldWith (.list [bytes "a"])).cs.dbIndex (bytes "k")
      ⟨.list [bytes "a"], 0⟩ (afterExpire true 0 (bytes "k") ⟨.list [bytes "a"], 0⟩
        (worldWith (.list [bytes "a"]))).shared :=
    .inl ((Database.lookup_assign _ _ _ _ _ _).trans (if_pos ⟨rfl, rfl⟩))
  have hstill := Remains.live_eq (w := afterExpire true 0 (bytes "k") ⟨.list [bytes "a"], 0⟩
    (worldWith (.list [bytes "a"]))) hremains
  rw [if_neg (by decide +kernel)] at hstill
  refine ⟨_, _, by decide +kernel, ?_, rfl, ?_,
    (ttlCall_of_key (bytes "k")).answers_zero hstill rfl 0, Remains.not_visible hremains rfl 0⟩
  · exact Enters.answers
      (.mk (c := .expireat) (by decide +kernel) rfl (gated_of_unlimited rfl) rfl) 0 hfound rfl
  · rw [hstill]
    rfl

end TinyRedis.Commands

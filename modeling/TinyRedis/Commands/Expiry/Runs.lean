import TinyRedis.Commands.Expiry.Tables

/-!
# Expiry in runs of the server

`Dispatch` does the same in worlds that are alike, and `ActiveExpireCycle` leaves the server alike.
So it makes no difference to the replies of a run where it is called.

The two runs to be compared read the clock and the random numbers at different times. For this
reason every command gets readings of its own here, which are the same in both runs. The commands in
the queue of a transaction are told apart by `unwind`, which says what a call comes down to.
-/

namespace TinyRedis.Commands

open Lib Resp List

variable {env : Env} {argv : Args} {tx : Tx} {w w' : World} {t t' : Int64}

/-! ## `Dispatch` -/

/-- The clock is at `t`, and there is no limit on the memory. -/
structure Env.Steady (env : Env) (t : Int64) : Prop where
  clock : ∀ n, env.nowMs n = t
  maxmemory : env.opts.maxmemory = 0

/-- Then no command is rejected for lack of memory. -/
theorem gated_of_steady (henv : env.Steady t) (c : Cmd) (w : World) : gated env c w = false := by
  unfold gated
  rw [henv.maxmemory]
  rfl

section Dispatch

/- `S` is what is left alike: the entries, or the entries and the replies. -/
variable {S : World → World → Prop}
  (hreply : ∀ w w' : World, w.Near t w' → w.out = w'.out → S w w')

include hreply

/-- A reply that does not depend on the world. -/
theorem agree_answer (h : w.Alike t w') (f : Bytes → Bytes) (tx : Tx) :
    Agree (fun r w₁ r' w₁' => r' = r ∧ S w₁ w₁') (.ok (((), tx), { w with out := f w.out }))
      (.ok (((), tx), { w' with out := f w'.out })) := by
  have hw := h.reply f
  exact .ok ⟨rfl, hreply _ _ hw.toNear hw.out⟩

/-- A call that does not run the queue of a transaction. -/
theorem dispatch_agrees (henv : env.Steady t)
    (hexec : ∀ a, findCommand (toUpper (argv.headD [])) = some a →
      arityOk a argv.length = true → a.cmd ≠ .exec)
    (hhandler : ∀ c lower, commandOf argv = some c →
      Agree (fun _ w₁ _ w₁' => S w₁ w₁') (handler env lower argv c w) (handler env lower argv c w'))
    (depth : ℕ) (h : w.Alike t w') :
    Agree (fun r w₁ r' w₁' => r' = r ∧ S w₁ w₁') (dispatch env depth argv tx w)
      (dispatch env depth argv tx w') := by
  rcases depth with _ | depth
  · exact .error _
  rw [dispatch_eq_plan, dispatch_eq_plan]
  rcases plan_cases argv tx with ⟨tx', f, hplan⟩ | ⟨a, ha, hok, ⟨hplan, -⟩ | ⟨-, hc, -⟩⟩
  · rw [hplan]
    exact agree_answer hreply h f tx'
  · have hrun := hhandler a.cmd (toLower (argv.headD [])) (congrArg (Option.map Arity.cmd) ha)
    rw [hplan]
    dsimp only [Plan.run, runCommand]
    rw [gated_of_steady henv, gated_of_steady henv, if_neg Bool.false_ne_true]
    exact hrun.andThen fun _ _ _ _ hS => .ok ⟨rfl, hS⟩
  · exact absurd hc (hexec a ha hok)

end Dispatch

/-- The reply to a call may show entries whose deadline has come, or the order of the table, unless
this order is `kept`. -/
def ShowsTable (kept : Prop) (argv : Args) : Prop :=
  ∃ c, commandOf argv = some c ∧ (showsExpired c = true ∨ (c = .scan ∧ NamesCount argv ∧ ¬kept))

/-- The other calls reply the same in worlds that are alike. -/
theorem dispatch_sameReply (henv : env.Steady t)
    (hexec : ∀ a, findCommand (toUpper (argv.headD [])) = some a →
      arityOk a argv.length = true → a.cmd ≠ .exec)
    {kept : Prop} (hkept : kept → env.KeepsOrder t) (hshows : ¬ShowsTable kept argv) (depth : ℕ)
    (h : w.Alike t w') :
    Agree (fun r w₁ r' w₁' => r' = r ∧ w₁.Near t w₁' ∧ w₁.out = w₁'.out)
      (dispatch env depth argv tx w) (dispatch env depth argv tx w') := by
  refine dispatch_agrees (fun _ _ hnear hout => ⟨hnear, hout⟩) henv hexec
    (fun c lower hc => ?_) depth h
  refine agree_handler henv.clock ?_ (fun hscan hcount => hkept ?_) h
  · cases hcs : showsExpired c with
    | false => rfl
    | true => exact absurd ⟨c, hc, .inl hcs⟩ hshows
  · by_contra horder
    exact hshows ⟨c, hc, .inr ⟨hscan, hcount, horder⟩⟩

/-! ## `ActiveExpireCycle` -/

/-- Worlds that are near stay near. -/
theorem World.Near.mono (h : w.Near t w') (htt : t ≤ t') : w.Near t' w' :=
  ⟨h.db.mono htt, h.maxMemory, h.lastSave, h.startTime, h.cs⟩

namespace Server

variable {s s' s'' : Server}

/-- The servers differ only in entries whose deadline has come, in the counters, and in what was
replied. -/
structure Near (t : Int64) (s s' : Server) : Prop where
  worlds : ∀ i, (s.world i).Near t (s'.world i)
  txs : s.txs = s'.txs

/-- A server is near itself. -/
theorem Near.refl (t : Int64) (s : Server) : s.Near t s := ⟨fun i => .refl t (s.world i), rfl⟩

/-- One change after another. -/
theorem Near.trans (h : s.Near t s') (h' : s'.Near t s'') : s.Near t s'' :=
  ⟨fun i => (h.worlds i).trans (h'.worlds i), h.txs.trans h'.txs⟩

/-- Servers that are near stay near. -/
theorem Near.mono (h : s.Near t s') (htt : t ≤ t') : s.Near t' s' :=
  ⟨fun i => (h.worlds i).mono htt, h.txs⟩

/-- The same client is updated. -/
theorem Near.update (h : s.Near t s') (i : ℕ) (tx : Tx) (hw : w.Near t w') :
    (s.update i tx w).Near t (s'.update i tx w') := by
  constructor
  · intro j
    refine ⟨hw.db, hw.maxMemory, hw.lastSave, hw.startTime, ?_⟩
    show (Function.update s.clients i _ j).session = (Function.update s'.clients i _ j).session
    by_cases hj : j = i
    · rw [hj, Function.update_self, Function.update_self]
      exact hw.cs
    · rw [Function.update_of_ne hj, Function.update_of_ne hj]
      exact (h.worlds j).cs
  · rw [txs_update, txs_update, h.txs]

/-- What a part of `ActiveExpireCycle` does to the count of deleted keys and the server. -/
structure Expires (t : Int64) (r r' : ℕ × Server) : Prop where
  expires : Database.Expires t (r.1, r.2.db) (r'.1, r'.2.db)
  maxMemory : r'.2.db.maxMemory = r.2.db.maxMemory
  lastSave : r'.2.lastSave = r.2.lastSave
  stats : r'.2.stats = r.2.stats
  clients : r'.2.clients = r.2.clients

/-- One key space. -/
theorem expires_expireOne (hclock : ∀ n, env.nowMs n = t) (r : ℕ × Server) (i : DbIndex) :
    Expires t r (expireOne env r i) := by
  refine ⟨?_, Database.maxMemory_expireTable i _ _ _ _, rfl, rfl, rfl⟩
  unfold expireOne
  dsimp only
  rw [hclock]
  exact Database.expires_expireTable (r.1, r.2.db) (env.order_perm _ _)

/-- The key spaces one after another. -/
theorem expires_foldl (hclock : ∀ n, env.nowMs n = t) (l : List DbIndex) (r : ℕ × Server) :
    Expires t r (l.foldl (expireOne env) r) := by
  induction l generalizing r with
  | nil => exact ⟨.refl t _, rfl, rfl, rfl, rfl⟩
  | cons i l ih =>
    have hone := expires_expireOne hclock r i
    have hrest := ih (expireOne env r i)
    exact ⟨hone.expires.trans hrest.expires, hrest.maxMemory.trans hone.maxMemory,
      hrest.lastSave.trans hone.lastSave, hrest.stats.trans hone.stats,
      hrest.clients.trans hone.clients⟩

/-- `ActiveExpireCycle` at the time `t` takes out entries whose deadline has come, and counts
them. -/
theorem activeExpireCycle_sheds (hclock : ∀ n, env.nowMs n = t) (s : Server) :
    Database.Shed t s.db (s.activeExpireCycle env).db ∧
      (s.activeExpireCycle env).stats.expiredKeys + (s.activeExpireCycle env).db.totalKeys =
        s.stats.expiredKeys + s.db.totalKeys := by
  have h := expires_foldl hclock (List.finRange kNumDatabases) (0, s)
  unfold activeExpireCycle
  generalize (List.finRange kNumDatabases).foldl (expireOne env) (0, s) = r at h ⊢
  refine ⟨h.expires.shed, ?_⟩
  have hcount := h.expires.count
  have hstats := congrArg ServerStats.expiredKeys h.stats
  dsimp only at hcount hstats ⊢
  omega

/-- `ActiveExpireCycle` leaves the server near to what it was. -/
theorem near_activeExpireCycle (hclock : ∀ n, env.nowMs n = t) (s : Server) :
    (s.activeExpireCycle env).Near t s := by
  have h := expires_foldl hclock (List.finRange kNumDatabases) (0, s)
  unfold activeExpireCycle
  generalize (List.finRange kNumDatabases).foldl (expireOne env) (0, s) = r at h ⊢
  refine ⟨fun i => ⟨h.expires.alike, h.maxMemory, h.lastSave, ?_, ?_⟩, ?_⟩
  · show r.2.stats.startTimeUs = _
    rw [h.stats]
    rfl
  · show (r.2.clients i).session = _
    rw [h.clients]
    rfl
  · show (fun i => (r.2.clients i).tx) = _
    rw [h.clients]
    rfl

end Server

/-! ## Runs -/

/-- A step of a call, and the reply to it. -/
structure Exchange where
  what : Local
  reply : Bytes

/-- The reply may show entries whose deadline has come, or the order of the table. -/
def Exchange.Shows (kept : Prop) (x : Exchange) : Prop :=
  ∃ argv, x.what = .command argv ∧ ShowsTable kept argv

/-- The same step, with the same reply unless it shows more than the live entries. -/
structure Exchange.Same (kept : Prop) (x x' : Exchange) : Prop where
  what : x'.what = x.what
  reply : ¬x.Shows kept → x'.reply = x.reply

/-- The steps that a call comes down to, each with readings of its own. -/
def serve (readings : ℕ → Env) :
    List Local → World → Except CommandFault (List Exchange × World)
  | [], w => .ok ([], w)
  | x :: xs, w => do
    let w ← x.run (readings 0) { w with tick := 0, out := [] }
    let (rest, w') ← serve (fun k => readings (k + 1)) xs w
    .ok (⟨x, w.out⟩ :: rest, w')

/-- One event at a time, with what its steps read. -/
structure Turn where
  event : Event
  time : Int64
  readings : ℕ → Env

namespace Turn

/-- A call of a client. -/
def isCall (turn : Turn) : Bool :=
  match turn.event with
  | .call _ _ => true
  | .expire => false

/-- The clock does not move during the turn, and there is no limit on the memory. -/
def Steady (turn : Turn) : Prop := ∀ k, (turn.readings k).Steady turn.time

/-- Taking out the entries whose deadline has come leaves the rest in their order. -/
def KeepsOrder (turn : Turn) : Prop := ∀ k, (turn.readings k).KeepsOrder turn.time

end Turn

namespace Server

/-- One turn. -/
def take (s : Server) (turn : Turn) : Except CommandFault (List Exchange × Server) :=
  match turn.event with
  | .call i argv => do
    let (exchanges, w) ← serve turn.readings (unwind argv (s.clients i).tx).1 (s.world i)
    .ok (exchanges, s.update i (unwind argv (s.clients i).tx).2 w)
  | .expire => .ok ([], { s with tick := 0 }.activeExpireCycle (turn.readings 0))

/-- Some turns, one after another. -/
def takeAll : List Turn → Server → Except CommandFault (List Exchange × Server)
  | [], s => .ok ([], s)
  | turn :: turns, s => do
    let (first, s) ← s.take turn
    let (rest, s) ← takeAll turns s
    .ok (first ++ rest, s)

end Server

variable {kept : Prop}

/-- One step of a call. -/
theorem local_agrees (henv : env.Steady t) (hkept : kept → env.KeepsOrder t) {x : Local}
    (hx : x.Direct) (h : w.Alike t w') :
    (∃ f, x.run env w = .error f ∧ x.run env w' = .error f) ∨
      ∃ w₁ w₁', x.run env w = .ok w₁ ∧ x.run env w' = .ok w₁' ∧ w₁.Near t w₁' ∧
        Exchange.Same kept ⟨x, w₁.out⟩ ⟨x, w₁'.out⟩ := by
  cases x with
  | reply f =>
    have hw := h.reply f
    exact .inr ⟨_, _, rfl, rfl, hw.toNear, rfl, fun _ => hw.out.symm⟩
  | command argv =>
    have hexec : ∀ a, findCommand (toUpper (argv.headD [])) = some a →
        arityOk a argv.length = true → a.cmd ≠ .exec := fun a ha hok => (hx a ha hok).2.2
    have hagree : Agree (fun _ w₁ _ w₁' => w₁.Near t w₁' ∧
        Exchange.Same kept ⟨.command argv, w₁.out⟩ ⟨.command argv, w₁'.out⟩)
        (dispatch env 2 argv .idle w) (dispatch env 2 argv .idle w') := by
      by_cases hshows : ShowsTable kept argv
      · refine Agree.imp (dispatch_agrees (fun _ _ hnear _ => hnear) henv hexec
          (fun _ _ _ => near_handler henv.clock h) 2 h) fun _ _ _ _ hR => ?_
        exact ⟨hR.2, rfl, fun hc => absurd ⟨argv, rfl, hshows⟩ hc⟩
      · exact (dispatch_sameReply henv hexec hkept hshows 2 h).imp fun _ _ _ _ hR =>
          ⟨hR.2.1, rfl, fun _ => hR.2.2.symm⟩
    rw [Local.run, Local.run]
    generalize dispatch env 2 argv .idle w = y at hagree ⊢
    generalize dispatch env 2 argv .idle w' = y' at hagree ⊢
    cases hagree with
    | error f => exact .inl ⟨f, rfl, rfl⟩
    | ok hR => exact .inr ⟨_, _, rfl, rfl, hR⟩

/-- The steps of a call, one after another. -/
theorem serve_agrees {readings : ℕ → Env} (henv : ∀ k, (readings k).Steady t)
    (hkept : kept → ∀ k, (readings k).KeepsOrder t) (xs : List Local)
    (hxs : ∀ x ∈ xs, x.Direct) (h : w.Near t w') :
    Agree (fun ys (w₁ : World) ys' w₁' => List.Forall₂ (Exchange.Same kept) ys ys' ∧ w₁.Near t w₁')
      (serve readings xs w) (serve readings xs w') := by
  induction xs generalizing w w' readings with
  | nil => exact .ok ⟨.nil, h⟩
  | cons x xs ih =>
    have hstart : World.Alike t { w with tick := 0, out := [] } { w' with tick := 0, out := [] } :=
      ⟨h.aside _ _ _ _, rfl, rfl⟩
    rw [serve, serve]
    rcases local_agrees (henv 0) (fun hk => hkept hk 0) (hxs x mem_cons_self) hstart with
      ⟨f, hf, hf'⟩ | ⟨w₁, w₁', hw₁, hw₁', hnear, hsame⟩
    · rw [hf, hf']
      exact .error f
    · rw [hw₁, hw₁', ok_bind, ok_bind]
      have hrest := ih (fun k => henv (k + 1)) (fun hk k => hkept hk (k + 1))
        (fun y hy => hxs y (mem_cons_of_mem _ hy)) hnear
      exact hrest.andThen fun _ _ _ _ hR => .ok ⟨.cons hsame hR.1, hR.2⟩

namespace Server

variable {s s' : Server}

/-- One call. -/
theorem take_agrees {turn : Turn} (hturn : turn.Steady) (hkept : kept → turn.KeepsOrder)
    (hcall : turn.isCall = true) (hs : s.WellFormed) (h : s.Near turn.time s') :
    Agree (fun ys (s₁ : Server) ys' s₁' => List.Forall₂ (Exchange.Same kept) ys ys' ∧
      s₁.WellFormed ∧ s₁.Near turn.time s₁') (s.take turn) (s'.take turn) := by
  obtain ⟨event, time, readings⟩ := turn
  cases event with
  | expire => cases hcall
  | call i argv =>
    have htx : (s'.clients i).tx = (s.clients i).tx := (congrFun h.txs i).symm
    have hunwind := unwind_wellFormed (hs i) argv
    unfold txs at hunwind
    unfold take
    dsimp only
    rw [htx]
    have hserve := serve_agrees hturn hkept _ hunwind.1 (h.worlds i)
    exact hserve.andThen fun _ _ _ _ hR =>
      .ok ⟨hR.1, wellFormed_update hs i hunwind.2 _, h.update i _ hR.2⟩

/-- A turn of `ActiveExpireCycle`. -/
theorem near_take {turn : Turn} (hturn : turn.Steady) (hcall : turn.isCall = false) (s : Server) :
    ∃ s₁, s.take turn = .ok ([], s₁) ∧ s₁.Near turn.time s := by
  obtain ⟨event, time, readings⟩ := turn
  cases event with
  | call i argv => cases hcall
  | expire =>
    refine ⟨_, rfl, (near_activeExpireCycle (hturn 0).clock _).trans ?_⟩
    exact ⟨fun i => ⟨.refl _ _, rfl, rfl, rfl, rfl⟩, rfl⟩

/-- Leaving the turns of `ActiveExpireCycle` out makes no difference to the replies. -/
theorem takeAll_agrees (turns : List Turn) (hturns : ∀ turn ∈ turns, turn.Steady)
    (hkept : kept → ∀ turn ∈ turns, turn.KeepsOrder)
    (htimes : turns.Pairwise fun turn turn' => turn.time ≤ turn'.time)
    (hlater : ∀ turn ∈ turns, t ≤ turn.time) (hs : s.WellFormed) (h : s.Near t s') :
    Agree (fun ys _ ys' _ => List.Forall₂ (Exchange.Same kept) ys ys') (takeAll turns s)
      (takeAll (turns.filter Turn.isCall) s') := by
  induction turns generalizing s s' t with
  | nil => exact .ok .nil
  | cons turn turns ih =>
    rw [pairwise_cons] at htimes
    have hsteady := hturns turn mem_cons_self
    have h₀ := h.mono (hlater turn mem_cons_self)
    have hrest : ∀ {s₁ s₁' : Server}, s₁.WellFormed → s₁.Near turn.time s₁' →
        Agree (fun ys _ ys' _ => List.Forall₂ (Exchange.Same kept) ys ys') (takeAll turns s₁)
          (takeAll (turns.filter Turn.isCall) s₁') := fun hs₁ h₁ =>
      ih (fun x hx => hturns x (mem_cons_of_mem _ hx))
        (fun hk x hx => hkept hk x (mem_cons_of_mem _ hx)) htimes.2 htimes.1 hs₁ h₁
    cases hcall : turn.isCall with
    | false =>
      obtain ⟨s₁, hs₁, hnear⟩ := near_take hsteady hcall s
      have hwf : s₁.WellFormed := by
        unfold WellFormed
        rw [hnear.txs]
        exact hs
      have hagree := hrest hwf (hnear.trans h₀)
      rw [filter_cons_of_neg (by rw [hcall]; exact Bool.false_ne_true), takeAll, hs₁, ok_bind]
      generalize takeAll (turns.filter Turn.isCall) s' = y' at hagree ⊢
      dsimp only
      generalize takeAll turns s₁ = y at hagree ⊢
      cases hagree with
      | error f => exact .error f
      | ok hR => exact .ok hR
    | true =>
      have hfirst := take_agrees hsteady (fun hk => hkept hk turn mem_cons_self) hcall hs h₀
      rw [filter_cons_of_pos hcall, takeAll, takeAll]
      exact hfirst.andThen fun _ _ _ _ hR => (hrest hR.2.1 hR.2.2).andThen fun _ _ _ _ hR' =>
        .ok (rel_append hR.1 hR')

end Server

open Server in
/-- Entries whose deadline has come are logically absent, and active expiry is unobservable:
`Dispatch` does the same with them and without them, `ActiveExpireCycle` takes out only such entries
and counts them, and the replies of a run are the same without it. -/
theorem expiry_unobservable :
    (∀ (env : Env) (t : Int64) (depth : ℕ) (argv : Args) (tx : Tx) (w : World), env.Steady t →
      commandOf argv ≠ some .exec → ¬ShowsTable (env.KeepsOrder t) argv →
      Agree (fun r w₁ r' w₁' => r' = r ∧ w₁.out = w₁'.out ∧ w₁.cs = w₁'.cs ∧ w₁.db.Alike t w₁'.db)
        (dispatch env depth argv tx w)
        (dispatch env depth argv tx { w with db := w.db.purge t })) ∧
    (∀ (env : Env) (t : Int64) (s : Server), (∀ n, env.nowMs n = t) →
      Database.Shed t s.db (s.activeExpireCycle env).db ∧
        (s.activeExpireCycle env).stats.expiredKeys + (s.activeExpireCycle env).db.totalKeys =
          s.stats.expiredKeys + s.db.totalKeys) ∧
    ∀ (turns : List Turn) (s : Server), (∀ turn ∈ turns, turn.Steady) →
      (turns.Pairwise fun turn turn' => turn.time ≤ turn'.time) → s.WellFormed →
      Agree (fun ys _ ys' _ =>
          List.Forall₂ (Exchange.Same (∀ turn ∈ turns, turn.KeepsOrder)) ys ys')
        (takeAll turns s) (takeAll (turns.filter Turn.isCall) s) := by
  refine ⟨fun env t depth argv tx w henv hexec hshows => ?_,
    fun env t s hclock => activeExpireCycle_sheds hclock s, fun turns s hturns htimes hs => ?_⟩
  · have halike : w.Alike t { w with db := w.db.purge t } :=
      ⟨⟨Database.alike_purge t w.db, rfl, rfl, rfl, rfl⟩, rfl, rfl⟩
    have hexec' : ∀ a, findCommand (toUpper (argv.headD [])) = some a →
        arityOk a argv.length = true → a.cmd ≠ .exec := by
      intro a ha _ hc
      refine hexec ?_
      unfold commandOf
      rw [ha, Option.map_some, hc]
    exact (dispatch_sameReply henv hexec' id hshows depth halike).imp fun _ _ _ _ hR =>
      ⟨hR.1, hR.2.2, hR.2.1.cs, hR.2.1.db⟩
  · exact takeAll_agrees turns hturns id htimes (fun turn _ => Int64.minValue_le turn.time) hs
      (Near.refl Int64.minValue s)

/-- An environment at the time `t`. -/
def envAt (t : Int64) : Env := { stillEnv with nowMs := fun _ => t }

/-- A key is set for three milliseconds, and read after five. -/
def briefKey : List Turn :=
  [⟨.call 0 [bytes "SET", bytes "k", bytes "v", bytes "PX", bytes "3"], 0, fun _ => envAt 0⟩,
    ⟨.expire, 5, fun _ => envAt 5⟩, ⟨.call 0 [bytes "GET", bytes "k"], 5, fun _ => envAt 5⟩]

/-- The world when the deadline of the key has come. -/
def staleWorld : World := { freshServer.world 0 with
  db := freshServer.db.set (freshServer.world 0).cs.dbIndex (bytes "k") (.rawString (bytes "v")) 3 }

/-- The key is not there any more, with the turn of `ActiveExpireCycle` and without it. -/
theorem expiry_unobservable_briefKey :
    ((Server.takeAll briefKey freshServer).toOption.map fun r => r.1.map Exchange.reply) =
        some [bytes "+OK\r\n", bytes "$-1\r\n"] ∧
      Agree (fun r w₁ r' w₁' => r' = r ∧ w₁.out = w₁'.out ∧ w₁.cs = w₁'.cs ∧ w₁.db.Alike 5 w₁'.db)
        (dispatch (envAt 5) 2 [bytes "GET", bytes "k"] .idle staleWorld)
        (dispatch (envAt 5) 2 [bytes "GET", bytes "k"] .idle
          { staleWorld with db := staleWorld.db.purge 5 }) ∧
      Database.Shed 5 freshServer.db (freshServer.activeExpireCycle (envAt 5)).db ∧
      Agree (fun ys _ ys' _ =>
          List.Forall₂ (Exchange.Same (∀ turn ∈ briefKey, turn.KeepsOrder)) ys ys')
        (Server.takeAll briefKey freshServer)
        (Server.takeAll (briefKey.filter Turn.isCall) freshServer) := by
  have hsteady : ∀ t, (envAt t).Steady t := fun t => ⟨fun _ => rfl, rfl⟩
  have hget : commandOf [bytes "GET", bytes "k"] = some .get := by decide
  obtain ⟨hdispatch, hcycle, hruns⟩ := expiry_unobservable
  refine ⟨by decide +kernel, hdispatch (envAt 5) 5 2 _ .idle staleWorld (hsteady 5) ?_ ?_,
    (hcycle (envAt 5) 5 freshServer (hsteady 5).clock).1, hruns briefKey freshServer ?_ ?_ ?_⟩
  · rw [hget]
    decide
  · rintro ⟨c, hc, h⟩
    cases hget.symm.trans hc
    rcases h with h | ⟨h, -⟩ <;> cases h
  · intro turn hturn k
    simp only [briefKey, mem_cons, not_mem_nil, or_false] at hturn
    rcases hturn with rfl | rfl | rfl <;> exact hsteady _
  · refine .cons (fun turn hturn => ?_) (.cons (fun turn hturn => ?_) (pairwise_singleton _ _))
    · simp only [mem_cons, not_mem_nil, or_false] at hturn
      rcases hturn with rfl | rfl <;> decide
    · cases mem_singleton.1 hturn
      decide
  · exact fun i argv h => absurd h not_mem_nil

end TinyRedis.Commands

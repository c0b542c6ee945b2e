import TinyRedis.Commands.Calls
import TinyRedis.EventLoop.Runs
import TinyRedis.Lib.Objects

/-!
# Connections that are closed

`OnWritable` closes the connection when `write` fails. `OnReadable` goes on to use the connection
after this, if it has replied to a protocol error or to `QUIT`, and so does `Run`, if there is
another event of the connection in the batch. Apart from that no connection is used after it was
closed, and none is closed twice.
-/

namespace TinyRedis.Commands

open Lib Resp

variable {env : Env} {argv : Args} {tx tx' : Tx} {w w' : World}

/-! ## What asks to quit -/

/-- No command but `QUIT` asks to close the connection. -/
theorem runCommand_quitRequested {c : Cmd} {lower : Bytes} (hlower : OneLine lower) (hc : c ≠ .quit)
    (hrun : runCommand env c lower argv w = .ok ((), w')) :
    w'.cs.quitRequested = w.cs.quitRequested := by
  have hpermits : Rules.Permits { freeRules env with quits := false } c argv :=
    { freeRules_permits with quits := fun h => absurd h hc }
  obtain ⟨p, -, h⟩ := holds_runCommand hpermits free_of_true hlower hrun
  exact h.quit rfl

/-- Nor does the reaction to one. -/
theorem Reacts.quitRequested (h : Reacts env argv tx w tx' w')
    (hquit : accepts .quit argv = false) :
    w'.cs.quitRequested = w.cs.quitRequested := by
  cases h with
  | ran ha hok _ hrun =>
    refine runCommand_quitRequested (line_of_findCommand ha) (fun hc => ?_) hrun
    unfold accepts at hquit
    rw [List.headD_cons, ha, Option.any_some, hok, hc] at hquit
    cases hquit
  | _ => rfl

/-- Nor does a queue. -/
theorem runQueue_quitRequested {queue : List Args} (hqueue : ∀ argv ∈ queue, Queueable argv)
    (hrun : runQueue (dispatch env 1) queue tx w = .ok (((), tx'), w')) :
    w'.cs.quitRequested = w.cs.quitRequested := by
  induction queue generalizing tx w with
  | nil =>
    cases hrun
    rfl
  | cons q queue ih =>
    rw [runQueue_cons] at hrun
    obtain ⟨⟨⟨⟨⟩, tx₁⟩, w₁⟩, hfirst, hrest⟩ := bind_eq_ok hrun
    obtain ⟨a, ha, -, hcontrol⟩ := (hqueue q List.mem_cons_self).known
    have hcmd : commandOf q = some a.cmd := congrArg (Option.map Arity.cmd) ha
    have hnot : accepts .quit q = false := by
      unfold accepts
      rw [ha, Option.any_some, decide_eq_false fun hc => by rw [hc] at hcontrol; cases hcontrol]
      rfl
    refine (ih (fun r hr => hqueue r (List.mem_cons_of_mem q hr)) hrest).trans ?_
    rcases dispatch_reacts hfirst with hreacts | hexec
    · exact hreacts.quitRequested hnot
    · -- `EXEC` is not queued.
      rw [Option.some.inj (hcmd.symm.trans hexec.exec)] at hcontrol
      cases hcontrol

/-- Nor does `Dispatch`. -/
theorem dispatch_quitRequested (hwf : tx.WellFormed) (hquit : accepts .quit argv = false)
    (hrun : dispatch env 2 argv tx w = .ok (((), tx'), w')) :
    w'.cs.quitRequested = w.cs.quitRequested := by
  rcases dispatch_reacts hrun with hreacts | hexec
  · exact hreacts.quitRequested hquit
  · exact runQueue_quitRequested (w := execHeader tx w) hwf hexec.queue

/-- What is queued can be queued. -/
theorem dispatch_wellFormed (hwf : tx.WellFormed)
    (hrun : dispatch env 2 argv tx w = .ok (((), tx'), w')) : tx'.WellFormed := by
  rw [dispatch_eq_unwind hwf 0] at hrun
  obtain ⟨w₁, -, hend⟩ := bind_eq_ok hrun
  cases hend
  exact (unwind_wellFormed hwf argv).2

end TinyRedis.Commands

namespace TinyRedis.EventLoop

open Lib Commands List

variable {env : Env} {h : Handle} {s s' : Reactor} {c : Connection} {q : Bool}
  {T R : Connection → Prop} {writes : List WriteResult} {polls : ℕ → Poll} {m m' : Machine}
  {closes : Bool} {reads : List ReadResult}

/-! ## The connections as objects -/

/-- The connections, as objects under their descriptors. -/
def Reactor.objects (s : Reactor) : Objects ℕ where
  number fd := (s.conns.lookup fd).map Connection.ptr
  freed := s.gone.map Connection.ptr
  next := s.nextClientId

/-- A handle can be used if and only if it is a valid pointer. -/
theorem number_iff : s.objects.number h.fd = some h.ptr ↔ ∃ c, At h c s := by
  unfold Reactor.objects
  dsimp only
  rw [Option.map_eq_some_iff]
  exact ⟨fun ⟨c, hc, hptr⟩ => ⟨c, hc, hptr⟩, fun ⟨c, hc⟩ => ⟨c, hc.lookup, hc.ptr⟩⟩

/-- A handler that leaves the connection where it is leaves all objects as they are. -/
theorem Kept.objects_eq (hc : At h c s) (hk : Kept h s q R s') : s'.objects = s.objects := by
  obtain ⟨c', hc', -⟩ := hk.here
  have hnumber : s'.objects.number = s.objects.number := by
    funext fd
    by_cases hfd : fd = h.fd
    · rw [hfd, number_iff.2 ⟨c', hc'⟩, number_iff.2 ⟨c, hc⟩]
    · exact congrArg (Option.map Connection.ptr) (hk.framed.others fd hfd)
  unfold Reactor.objects at hnumber ⊢
  rw [hk.gone, hk.framed.nextClientId]
  congr 1

/-- A handler that closes the connection destroys its object. -/
theorem Shut.objects_eq (hc : At h c s) (hk : Shut h s q (fun c => T c ∧ c.ptr = h.ptr) s') :
    s'.objects = s.objects.free h.fd := by
  obtain ⟨c', hgone, -, hptr⟩ := hk.gone
  have hnumber : s'.objects.number = (s.objects.free h.fd).number := by
    funext fd
    unfold Objects.free
    dsimp only
    by_cases hfd : fd = h.fd
    · rw [hfd, Function.update_self]
      exact congrArg (Option.map Connection.ptr) hk.here
    · rw [Function.update_of_ne hfd]
      exact congrArg (Option.map Connection.ptr) (hk.framed.others fd hfd)
  have hfreed : s'.objects.freed = (s.objects.free h.fd).freed := by
    unfold Objects.free
    rw [number_iff.2 ⟨c, hc⟩, Option.toList_some, ← hptr]
    show s'.gone.map Connection.ptr = s.gone.map Connection.ptr ++ [c'.ptr]
    rw [hgone, map_append, map_singleton]
  have hnext : s'.objects.next = (s.objects.free h.fd).next := hk.framed.nextClientId
  generalize s'.objects = o at hnumber hfreed hnext
  cases o
  cases hnumber
  cases hfreed
  cases hnext
  rfl

/-- A connection that is accepted is a new object. -/
theorem objects_accept (s : Reactor) (fd : ℕ) : (s.accept fd).objects = s.objects.alloc fd := by
  unfold Objects.alloc Reactor.objects Reactor.accept
  dsimp only
  congr 1
  funext fd'
  rw [Dict.lookup_insert_eq]
  by_cases hfd : fd' = fd
  · rw [if_pos hfd, hfd, Function.update_self]
    rfl
  · rw [if_neg hfd, Function.update_of_ne hfd]

/-! ## What may close a connection -/

/-- Whether a `write` fails can be decided. -/
instance : DecidablePred WriteResult.Fails := fun r =>
  inferInstanceAs (Decidable (r = .failed ∨ r = .wrote 0))

/-- The handle that an event comes with. -/
def KEvent.udata : KEvent → Option Handle
  | .conn _ udata _ _ => udata
  | _ => none

/-- The connection has asked to quit, or does so now. -/
def quits (c : Connection) (r : Reading) : Bool :=
  c.session.quitRequested || r.parsedCmds.any (accepts .quit)

/-- Whether `OnReadable` may close the connection. -/
def mayClose (writes : List WriteResult) (c : Connection) : Reading × ReadEnd → Bool
  | (r, .drained) => quits c r || decide (∃ w ∈ writes, w.Fails)
  | _ => true

/-- Whether `OnReadable` uses the connection after `OnWritable`. -/
def usedAgain (c : Connection) : Reading × ReadEnd → Bool
  | (_, .refused) => true
  | (_, .hangup) => false
  | (r, .drained) => quits c r

/-- What is known of a connection while its commands are run. -/
structure Bound (h : Handle) (mayQuit : Bool) (c : Connection) : Prop where
  wellFormed : c.tx.WellFormed
  ptr : c.ptr = h.ptr
  quit : c.session.quitRequested = true → mayQuit = true

/-- It does not depend on the output. -/
theorem undisturbed_bound (h : Handle) (mayQuit : Bool) : Undisturbed (Bound h mayQuit) where
  send _ _ hc := ⟨hc.wellFormed, hc.ptr, hc.quit⟩
  interest _ _ hc := ⟨hc.wellFormed, hc.ptr, hc.quit⟩

/-- A command keeps it, unless it is `QUIT`. -/
theorem Bound.answers {mayQuit quit shutdown : Bool} {argv : Args} {c' : Connection}
    (hc : Bound h mayQuit c) (hargv : mayQuit = true ∨ accepts .quit argv = false)
    (hanswers : Answers env argv c c' quit shutdown) : Bound h mayQuit c' := by
  obtain ⟨s, tx, w, hrun, rfl, -⟩ := hanswers.result
  refine ⟨dispatch_wellFormed hc.wellFormed hrun, hc.ptr, fun hquit => ?_⟩
  rcases hargv with hmay | hnot
  · exact hmay
  · exact hc.quit ((dispatch_quitRequested hc.wellFormed hnot hrun).symm.trans hquit)

/-- So do all commands. -/
theorem serves_bound (env : Env) (h : Handle) (mayQuit : Bool) :
    Serves env (fun cmds c => Bound h mayQuit c ∧
      (mayQuit = true ∨ ∀ argv ∈ cmds, accepts .quit argv = false)) (Bound h mayQuit) where
  done _ hc := hc.1
  skip _ _ hc := ⟨hc.1, hc.2.imp_right fun hcmds argv hargv => hcmds argv (.tail _ hargv)⟩
  last argv _ _ _ _ _ _ hc hanswers _ :=
    hc.1.answers (hc.2.imp_right fun hcmds => hcmds argv mem_cons_self) hanswers
  next argv _ _ _ _ hc hanswers :=
    ⟨hc.1.answers (hc.2.imp_right fun hcmds => hcmds argv mem_cons_self) hanswers,
      hc.2.imp_right fun hcmds argv' hargv' => hcmds argv' (.tail _ hargv')⟩

/-- `OnReadable` uses no connection that was closed, if no `write` fails before it uses the
connection again. -/
theorem triple_onReadable_lives (env : Env) {p : Reading × ReadEnd} (hptr : c.ptr = h.ptr)
    (hwf : c.tx.WellFormed) (hp : readLoop reads ⟨c.parser, [], []⟩ = some p)
    (hsafe : usedAgain c p = true → ¬∃ w ∈ writes, w.Fails) :
    Triple (Kept h s s.quit (· = c)) (· ≠ .useAfterFree) (onReadable env h reads writes)
      fun _ => Handled h s (Bound h (quits c p.1)) fun d =>
        mayClose writes c p = true ∧ d.ptr = h.ptr := by
  have hclosing : Undisturbed fun d : Connection => mayClose writes c p = true ∧ d.ptr = h.ptr :=
    ⟨fun _ _ hd => hd, fun _ _ hd => hd⟩
  refine triple_onReadable (undisturbed_bound h _) hclosing (fun d hd hreason => ?_) nofun
    (fun _ => nofun) fun r e hloop => ?_
  · obtain ⟨r, e⟩ := p
    refine ⟨?_, hd.ptr⟩
    cases e with
    | drained =>
      unfold mayClose
      rw [Bool.or_eq_true, decide_eq_true_eq]
      exact hreason.symm.imp hd.quit id
    | refused => rfl
    | hangup => rfl
  · cases hp.symm.trans hloop
    cases e with
    | refused => exact ⟨⟨rfl, hptr⟩, fun hfail => absurd hfail (hsafe rfl)⟩
    | hangup => exact ⟨rfl, hptr⟩
    | drained =>
      refine ⟨_, serves_bound env h _, ⟨⟨hwf, hptr, fun hquit => ?_⟩, ?_⟩,
        fun d hd hquit hfail => ?_⟩
      · unfold quits
        rw [show c.session.quitRequested = true from hquit, Bool.true_or]
      · cases hany : r.parsedCmds.any (accepts .quit) with
        | true =>
          refine .inl ?_
          unfold quits
          rw [hany, Bool.or_true]
        | false =>
          refine .inr fun argv hargv => ?_
          rw [any_eq_false] at hany
          exact Bool.eq_false_iff.2 (hany argv hargv)
      · exact absurd hfail (hsafe (hd.quit hquit))

/-! ## One event -/

/-- A computation that uses no connection that was closed, and comes to `Q`. -/
structure Spares {α : Type} (x : Except LoopFault α) (Q : α → Prop) : Prop where
  unused : x ≠ .error .useAfterFree
  post : ∀ a, x = .ok a → Q a

namespace Spares

variable {α β : Type} {x : Except LoopFault α} {f : α → Except LoopFault β} {Q Q' : α → Prop}
  {P : β → Prop}

/-- A computation that returns. -/
theorem ok {a : α} (ha : Q a) : Spares (.ok a) Q :=
  ⟨nofun, fun _ h => Except.ok.inj h ▸ ha⟩

/-- Another fault. -/
theorem error {e : LoopFault} (he : e ≠ .useAfterFree) : Spares (.error e) Q :=
  ⟨fun h => he (Except.error.inj h), nofun⟩

/-- What it comes to may be weakened. -/
theorem imp (hx : Spares x Q) (h : ∀ a, Q a → Q' a) : Spares x Q' :=
  ⟨hx.unused, fun a ha => h a (hx.post a ha)⟩

/-- One computation after another. -/
theorem bind (hx : Spares x Q) (hf : ∀ a, Q a → Spares (f a) P) : Spares (x >>= f) P := by
  cases x with
  | error e => exact error fun he => hx.unused (congrArg _ he)
  | ok a => exact hf a (hx.post a rfl)

end Spares

/-- What a triple says. -/
theorem spares_of_triple {α : Type} {pre : Reactor → Prop} {m : L α} {post : α → Reactor → Prop}
    (hm : Triple pre (· ≠ .useAfterFree) m post) (hs : pre s) :
    Spares (m s) fun p => post p.1 p.2 :=
  ⟨fun hrun => hm.of_error hs hrun rfl, fun _ hrun => hm.of_ok hs hrun⟩

/-- An event of a connection leaves all objects as they are, or closes the connection. -/
def Leaves (h : Handle) (closes : Bool) (s s' : Reactor) : Prop :=
  s'.objects = s.objects ∨ (closes = true ∧ s'.objects = s.objects.free h.fd)

/-- What a handler does to the objects. -/
theorem Handled.leaves (hc : At h c s)
    (hs : Handled h s T (fun d => closes = true ∧ d.ptr = h.ptr) s') : Leaves h closes s s' := by
  cases hs with
  | settled hs => exact .inl (hs.objects_eq hc)
  | stopping hs => exact .inl (hs.objects_eq hc)
  | shut hs =>
    obtain ⟨d, -, hcloses, -⟩ := hs.gone
    exact .inr ⟨hcloses, hs.objects_eq hc⟩

/-- Whether an event may close its connection. -/
def KEvent.mayClose (s : Reactor) : KEvent → Bool
  | .conn .read (some h) reads writes =>
    (s.conns.lookup h.fd).any fun c =>
      (readLoop reads ⟨c.parser, [], []⟩).any (EventLoop.mayClose writes c)
  | .conn .write (some _) _ writes => decide (∃ w ∈ writes, w.Fails)
  | _ => false

/-- Whether the connection of an event is used again after a `write` that fails. -/
def KEvent.misuses (s : Reactor) : KEvent → Bool
  | .conn .read (some h) reads writes =>
    (s.conns.lookup h.fd).any fun c =>
      (readLoop reads ⟨c.parser, [], []⟩).any (usedAgain c) && decide (∃ w ∈ writes, w.Fails)
  | _ => false

/-- Reading does not come to an end. -/
theorem onReadable_unfinished (hc : At h c s) (hloop : readLoop reads ⟨c.parser, [], []⟩ = none) :
    onReadable env h reads writes s = .error .unfinished := by
  unfold onReadable
  show (deref h s >>= fun p => _) = _
  rw [deref_eq hc, ok_bind]
  dsimp only
  rw [hloop]
  rfl

/-- An event whose handle is valid uses no connection that was closed, and leaves the other
connections. -/
theorem onEvent_lives (env : Env) {filter : Filter} (hc : At h c s) (hwf : c.tx.WellFormed)
    (hmisuses : (KEvent.conn filter (some h) reads writes).misuses s = false) :
    Spares (onEvent env (.conn filter (some h) reads writes) s) fun p =>
      Leaves h ((KEvent.conn filter (some h) reads writes).mayClose s) s p.2 := by
  rw [onEvent_conn hc]
  cases filter with
  | write =>
    have hwrite : Triple (Kept h s s.quit fun d => d.ptr = h.ptr) (· ≠ .useAfterFree)
        (onWritable h writes) fun _ => Flushed h s s.quit (fun d => d.ptr = h.ptr) writes :=
      triple_onWritable ⟨fun _ _ hd => hd, fun _ _ hd => hd⟩ nofun writes
    have hstart : Kept h s s.quit (fun d => d.ptr = h.ptr) s :=
      hc.kept.imp fun d hd => hd ▸ hc.ptr
    refine (spares_of_triple hwrite hstart).imp fun p hp => Handled.leaves hc (hp.handled ?_)
    exact fun hfail d hd => ⟨decide_eq_true hfail, hd⟩
  | read =>
    cases hloop : readLoop reads ⟨c.parser, [], []⟩ with
    | none =>
      dsimp only
      rw [onReadable_unfinished hc hloop]
      exact .error nofun
    | some p =>
      have hsafe : usedAgain c p = true → ¬∃ w ∈ writes, w.Fails := by
        intro hused hfail
        rw [KEvent.misuses, hc.lookup, Option.any_some, hloop, Option.any_some, hused,
          decide_eq_true hfail] at hmisuses
        cases hmisuses
      have hmay : (KEvent.conn .read (some h) reads writes).mayClose s = mayClose writes c p := by
        rw [KEvent.mayClose, hc.lookup, Option.any_some, hloop, Option.any_some]
      rw [hmay]
      have hread := spares_of_triple (triple_onReadable_lives env hc.ptr hwf hloop hsafe) hc.kept
      exact hread.imp fun p hp => hp.leaves hc

/-- `OnAccept` creates objects under the descriptors that it is given, and nothing else. -/
theorem onAccept_lives (accepts : List AcceptResult) (hnum : s.objects.Numbered) :
    Spares (onAccept accepts s) fun p => p.2.objects.Numbered ∧ ∀ fd n, .accepted fd ∉ accepts →
      s.objects.number fd = some n → p.2.objects.number fd = some n := by
  induction accepts generalizing s with
  | nil => exact .error nofun
  | cons r accepts ih =>
    cases r with
    | accepted fd =>
      rw [onAccept_accepted]
      have hnext : (s.accept fd).objects.Numbered := by
        rw [objects_accept]
        exact hnum.alloc fd
      refine (ih hnext).imp fun p ⟨hnum', hkept⟩ => ⟨hnum', fun fd' n hnot hn =>
        hkept fd' n (fun hmem => hnot (.tail _ hmem)) ?_⟩
      rw [objects_accept]
      refine Objects.number_alloc (fun hfd => hnot ?_) hn
      rw [hfd]
      exact mem_cons_self
    | interrupted =>
      exact (ih hnum).imp fun p ⟨hnum', hkept⟩ =>
        ⟨hnum', fun fd n hnot => hkept fd n fun hmem => hnot (.tail _ hmem)⟩
    | again => exact .ok ⟨hnum, fun _ _ _ hn => hn⟩
    | failed => exact .ok ⟨hnum, fun _ _ _ hn => hn⟩

/-! ## The end -/

/-- Connections under different descriptors are closed one after another. -/
theorem closeEach_lives {l : List (ℕ × Connection)} (hnum : s.objects.Numbered)
    (hl : (l.map Prod.fst).Nodup) (hvalid : ∀ fc ∈ l, s.objects.number fc.1 = some fc.2.ptr) :
    Spares (closeEach l s) fun p => p.2.objects.Numbered := by
  induction l generalizing s with
  | nil => exact .ok hnum
  | cons fc l ih =>
    obtain ⟨hnot, hl⟩ := nodup_cons.1 hl
    have hfirst := hvalid fc mem_cons_self
    obtain ⟨c, hc⟩ := number_iff (h := ⟨fc.1, fc.2.ptr⟩).1 hfirst
    have hclose : Triple (Kept ⟨fc.1, fc.2.ptr⟩ s s.quit (· = c)) (· ≠ .useAfterFree)
        (closeConn ⟨fc.1, fc.2.ptr⟩)
        fun _ => Shut ⟨fc.1, fc.2.ptr⟩ s s.quit fun d => True ∧ d.ptr = fc.2.ptr :=
      triple_closeConn fun d hd => ⟨trivial, hd ▸ hc.ptr⟩
    refine (spares_of_triple hclose hc.kept).bind fun p hp => ?_
    have hobjects := hp.objects_eq hc
    have hnext : p.2.objects.Numbered := by
      rw [hobjects]
      exact hnum.free hfirst
    refine ih hnext hl fun fc' hfc' => ?_
    rw [hobjects]
    refine Objects.number_free (fun hfd => hnot ?_) (hvalid fc' (.tail _ hfc'))
    rw [← show fc'.1 = fc.1 from hfd]
    exact mem_map_of_mem hfc'

/-! ## Runs -/

/-- The events that are still to be handled. -/
def Point.rest : Point → List KEvent
  | .handling rest => rest
  | _ => []

/-- Nothing in the queues of the connections but what `Dispatch` queues. -/
theorem course_wellFormed :
    Course (fun _ c => c.tx.WellFormed) (fun _ => True) fun c => c.tx.WellFormed where
  output := ⟨fun _ _ hc => hc, fun _ _ hc => hc⟩
  closing := ⟨fun _ _ _ => trivial, fun _ _ _ => trivial⟩
  fresh _ _ := fun _ hq => absurd hq not_mem_nil
  starts _ _ hc := hc
  settled _ _ hc := hc.1
  stopping _ hc := hc
  destroyed _ _ := trivial

/-- The commands keep it. -/
theorem serves_wellFormed (env : Env) :
    Serves env (fun _ c => c.tx.WellFormed) fun c => c.tx.WellFormed where
  done _ hc := hc
  skip _ _ hc := hc
  last _ _ _ _ _ _ _ hc hanswers _ := by
    obtain ⟨s, tx, w, hrun, rfl, -⟩ := hanswers.result
    exact dispatch_wellFormed hc hrun
  next _ _ _ _ _ hc hanswers := by
    obtain ⟨s, tx, w, hrun, rfl, -⟩ := hanswers.result
    exact dispatch_wellFormed hc hrun

/-- So does everything that is read. -/
theorem ensures_wellFormed (env : Env) (K : Machine → Bool) :
    Ensures env (fun _ c => c.tx.WellFormed) (fun c => c.tx.WellFormed) (fun _ => True) K := by
  intro m e rest _ _ h reads writes c _ _ hc r end_ _
  cases end_ with
  | refused => exact ⟨trivial, fun _ => trivial⟩
  | hangup => exact trivial
  | drained => exact ⟨_, serves_wellFormed env, hc, fun _ _ _ _ => trivial⟩

/-- The handles of the events that are still to be handled are valid. -/
structure Ready (s : Reactor) (events : List KEvent) : Prop where
  numbered : s.objects.Numbered
  valid : ∀ e ∈ events, ∀ h, e.udata = some h → s.objects.number h.fd = some h.ptr

/-- What holds in every state of a run. -/
structure Lives (m : Machine) : Prop where
  wellFormed : Everyone (fun _ c => c.tx.WellFormed) (fun _ => True) m.reactor
  ready : Ready m.reactor m.point.rest

/-- What `kevent` and `accept` ensure: an event comes with a handle that is valid when it is polled,
and a new descriptor is not one that is open. -/
def kernel (polls : ℕ → Poll) (m : Machine) : Bool :=
  match m.point with
  | .polling =>
    match polls m.round with
    | .events batch => batch.all fun e => e.udata.all fun h =>
        decide (m.reactor.objects.number h.fd = some h.ptr)
    | _ => true
  | .handling (.listen accepts :: _) => accepts.all fun r =>
      match r with
      | .accepted fd => (m.reactor.conns.lookup fd).isNone
      | _ => true
  | _ => true

/-- Before an event is handled: its connection is not used again after a `write` that fails, and if
the connection may be closed, there is no other event of it in the batch. -/
def careful (m : Machine) : Bool :=
  match m.point with
  | .handling (e :: rest) => !e.misuses m.reactor &&
      !(e.mayClose m.reactor && rest.any fun e' => decide (e'.udata = e.udata))
  | _ => true

/-- A valid handle of another connection stays valid. -/
theorem Leaves.number {h' : Handle} (hs : Leaves h closes s s')
    (hh : s.objects.number h.fd = some h.ptr) (hh' : s.objects.number h'.fd = some h'.ptr)
    (hne : closes = true → h' ≠ h) : s'.objects.number h'.fd = some h'.ptr := by
  rcases hs with hs | ⟨hcloses, hs⟩
  · rw [hs]
    exact hh'
  · rw [hs]
    refine Objects.number_free (fun hfd => hne hcloses ?_) hh'
    rw [hfd, hh] at hh'
    obtain ⟨fd, ptr⟩ := h
    obtain ⟨fd', ptr'⟩ := h'
    cases hfd
    cases hh'
    rfl

/-- No object is numbered twice. -/
theorem Leaves.numbered (hs : Leaves h closes s s') (hh : s.objects.number h.fd = some h.ptr)
    (hnum : s.objects.Numbered) : s'.objects.Numbered := by
  rcases hs with hs | ⟨-, hs⟩
  · rw [hs]
    exact hnum
  · rw [hs]
    exact hnum.free hh

/-- The first event of what is left of a batch. -/
theorem event_lives (env : Env) {e : KEvent} {rest : List KEvent} (hm : Lives m)
    (hpoint : m.point = .handling (e :: rest)) (hkernel : kernel polls m = true)
    (hcareful : careful m = true) :
    Spares (onEvent env e m.reactor) fun p => Ready p.2 rest := by
  have hready : Ready m.reactor (e :: rest) := by
    have hready := hm.ready
    rwa [hpoint] at hready
  have hrest : Ready m.reactor rest :=
    ⟨hready.numbered, fun e' he' => hready.valid e' (.tail _ he')⟩
  cases e with
  | signal => exact .ok ⟨hrest.numbered, hrest.valid⟩
  | listen accepts =>
    refine (onAccept_lives accepts hrest.numbered).imp fun p ⟨hnum, hkept⟩ => ⟨hnum, ?_⟩
    refine fun e' he' h hh => hkept _ _ (fun hmem => ?_) (hrest.valid e' he' h hh)
    -- A new descriptor is not the one of a handle.
    unfold kernel at hkernel
    rw [hpoint] at hkernel
    have hnone := all_eq_true.1 hkernel _ hmem
    obtain ⟨c, hc⟩ := number_iff.1 (hrest.valid e' he' h hh)
    dsimp only at hnone
    rw [hc.lookup] at hnone
    cases hnone
  | conn filter udata reads writes =>
    cases udata with
    | none => exact .ok hrest
    | some h =>
      unfold careful at hcareful
      rw [hpoint] at hcareful
      dsimp only at hcareful
      rw [Bool.and_eq_true, Bool.not_eq_true', Bool.not_eq_true', Bool.and_eq_false_iff] at hcareful
      have hvalid := hready.valid _ mem_cons_self h rfl
      obtain ⟨c, hc⟩ := number_iff.1 hvalid
      have hevent := onEvent_lives env hc (hm.wellFormed.alive h.fd c hc.lookup) hcareful.1
      refine hevent.imp fun p hleaves => ⟨hleaves.numbered hvalid hrest.numbered, ?_⟩
      refine fun e' he' h' hh' => hleaves.number hvalid (hrest.valid e' he' h' hh') ?_
      intro hcloses hsame
      rcases hcareful.2 with hnot | hnone
      · rw [hcloses] at hnot
        cases hnot
      · rw [any_eq_false] at hnone
        refine hnone e' he' (decide_eq_true ?_)
        rw [hh', hsame]
        rfl

/-- At the end all connections are closed. -/
theorem finish_lives (hm : Lives m) : Spares m.finish fun m' => Ready m'.reactor m'.point.rest := by
  have hvalid : ∀ fc ∈ m.reactor.conns.toList,
      m.reactor.objects.number fc.1 = some fc.2.ptr := by
    intro fc hfc
    exact congrArg (Option.map Connection.ptr) (Dict.lookup_eq_some_iff.2 hfc)
  have hclose := closeEach_lives hm.ready.numbered (Dict.toList_nodup m.reactor.conns) hvalid
  exact hclose.bind fun p hp => .ok ⟨hp, nofun⟩

/-- The batch that is polled next. -/
theorem polled_lives {batch : List KEvent} (hm : Lives m) (hpoint : m.point = .polling)
    (hpoll : polls m.round = .events batch) (hkernel : kernel polls m = true) :
    Ready m.reactor batch := by
  refine ⟨hm.ready.numbered, fun e he h hh => ?_⟩
  unfold kernel at hkernel
  rw [hpoint] at hkernel
  dsimp only at hkernel
  rw [hpoll] at hkernel
  have hvalid := all_eq_true.1 hkernel e he
  rw [hh, Option.all_some] at hvalid
  exact of_decide_eq_true hvalid

/-- One step. -/
theorem step_lives (hm : Lives m) (hkernel : kernel polls m = true) (hcareful : careful m = true) :
    Spares (step env polls m) Lives := by
  have hready : Spares (step env polls m) fun m' => Ready m'.reactor m'.point.rest := by
    unfold step
    split
    · next hpoint =>
      split_ifs
      · exact finish_lives hm
      · split
        · exact .ok hm.ready
        · exact finish_lives hm
        · next hpoll =>
          have hbatch := polled_lives hm hpoint hpoll hkernel
          exact .ok hbatch
    · next hpoint =>
      exact (event_lives env hm hpoint hkernel hcareful).bind fun p hp => .ok hp
    · exact .ok ⟨hm.ready.numbered, nofun⟩
    · exact .ok hm.ready
  refine ⟨hready.unused, fun m' hstep => ⟨?_, hready.post m' hstep⟩⟩
  exact step_keeps course_wellFormed (ensures_wellFormed env fun _ => true) hm.wellFormed rfl hstep

/-- No connection was accepted yet. -/
theorem Machine.Initial.lives (hm : m.Initial) : Lives m := by
  have hobjects : m.reactor.objects = ⟨fun _ => none, [], m.reactor.nextClientId⟩ := by
    unfold Reactor.objects
    rw [hm.conns, hm.gone]
    rfl
  refine ⟨hm.everyone, hobjects ▸ ⟨nofun, nofun, nofun, nofun, nodup_nil⟩, ?_⟩
  rw [hm.point]
  exact nofun

/-- No connection is used after it was closed, and none is closed twice, in a run in which no
`write` fails before `OnReadable` uses the connection again, and there are no more events in a batch
for a connection after one that may close it. -/
theorem run_never_uses_closed {n : ℕ} (hm : m.Initial)
    (hkernel : Process.meets (step env polls) (kernel polls) n m = true)
    (hcareful : Process.meets (step env polls) careful n m = true) :
    run env polls n m ≠ .error .useAfterFree ∧
      ∀ m', run env polls n m = .ok m' → (m'.reactor.gone.map Connection.ptr).Nodup := by
  have hmeets := Process.meets_and hkernel hcareful
  have hstep : ∀ m, Lives m → (kernel polls m && careful m) = true →
      Spares (step env polls m) Lives := by
    intro m hm htest
    rw [Bool.and_eq_true] at htest
    exact step_lives hm htest.1 htest.2
  refine ⟨?_, fun m' hrun => ?_⟩
  · exact Process.run_ne_error (fun m m' hm htest => (hstep m hm htest).post m')
      (fun m hm htest => (hstep m hm htest).unused) hm.lives hmeets
  · have hlives : Lives m' :=
      Process.run_keeps (fun m m' hm htest => (hstep m hm htest).post m') hm.lives hmeets hrun
    exact hlives.ready.numbered.nodup

/-- The reply to a command cannot be written. -/
def unreachable : ℕ → Poll :=
  batches [[.listen [.accepted 5, .again]],
    [.conn .read (some ⟨5, 1⟩) [.ofBytes (bytes "PING\r\n")] [.failed]]]

/-- It is closed, once. -/
theorem run_never_uses_closed_unreachable : ∃ m, run stillEnv unreachable 6 freshMachine = .ok m ∧
    m.reactor.gone.length = 1 ∧ (m.reactor.gone.map Connection.ptr).Nodup := by
  obtain ⟨m, hrun, hm⟩ := exists_ok_of_any
    (p := fun m : Machine => decide (m.reactor.gone.length = 1))
    (x := run stillEnv unreachable 6 freshMachine) (by decide +kernel)
  have hclosed := run_never_uses_closed freshMachine_initial
    (by decide +kernel : Process.meets (step stillEnv unreachable) (kernel unreachable) 6 _ = true)
    (by decide +kernel)
  exact ⟨m, hrun, of_decide_eq_true hm, hclosed.2 m hrun⟩

/-- The reply to `QUIT` cannot be written. -/
def unreachableQuit : ℕ → Poll :=
  batches [[.listen [.accepted 5, .again]],
    [.conn .read (some ⟨5, 1⟩) [.ofBytes (bytes "QUIT\r\n")] [.failed]]]

/-- Then `OnReadable` uses the connection after `OnWritable` has closed it. -/
theorem quit_uses_closed :
    Process.meets (step stillEnv unreachableQuit) (kernel unreachableQuit) 5 freshMachine = true ∧
      run stillEnv unreachableQuit 5 freshMachine = .error .useAfterFree :=
  ⟨by decide +kernel, eq_error_of_errorOf (by decide +kernel)⟩

end TinyRedis.EventLoop

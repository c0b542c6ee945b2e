import TinyRedis.EventLoop.Model
import TinyRedis.Lib.Safe

/-!
# What handling an event does

The handlers touch one connection. `Kept h s₀ q R s` says that from the state `s₀` on nothing has
happened to the others, that the connection of the handle `h` is still there, and what it is like
now, and `Shut h s₀ q T s` that it was destroyed. There is one rule for each function, so that what
is to be shown of a handler is only what each of its steps does to the one connection: what `T` says
of a connection has to survive output (`Undisturbed`), and to be reached by reading and by the
commands (`Serves`).
-/

namespace TinyRedis.EventLoop

open Lib Commands Resp

variable {env : Env} {h : Handle} {s₀ s s' : Reactor} {q : Bool} {R R' T P : Connection → Prop}
  {E : LoopFault → Prop} {c c₀ : Connection} {α : Type} {writes : List WriteResult}
  {post : α → Reactor → Prop} {pre : Reactor → Prop} {f : Connection → L α} {m : L α}

/-! ## States -/

/-- The handle points to the connection. -/
structure At (h : Handle) (c : Connection) (s : Reactor) : Prop where
  lookup : s.conns.lookup h.fd = some c
  ptr : c.ptr = h.ptr

/-- Nothing has happened to the other connections. -/
structure Framed (h : Handle) (s₀ s : Reactor) : Prop where
  others : ∀ fd, fd ≠ h.fd → s.conns.lookup fd = s₀.conns.lookup fd
  nextClientId : s.nextClientId = s₀.nextClientId

/-- The connection is still there. -/
structure Kept (h : Handle) (s₀ : Reactor) (q : Bool) (R : Connection → Prop) (s : Reactor) :
    Prop where
  framed : Framed h s₀ s
  here : ∃ c, At h c s ∧ R c
  gone : s.gone = s₀.gone
  quit : s.quit = q

/-- The connection was destroyed. -/
structure Shut (h : Handle) (s₀ : Reactor) (q : Bool) (T : Connection → Prop) (s : Reactor) :
    Prop where
  framed : Framed h s₀ s
  here : s.conns.lookup h.fd = none
  gone : ∃ c, s.gone = s₀.gone ++ [c] ∧ T c
  quit : s.quit = q

/-- What is said of the connection may be weakened. -/
theorem Kept.imp (hs : Kept h s₀ q R s) (hR : ∀ c, R c → R' c) : Kept h s₀ q R' s := by
  obtain ⟨c, hc, hr⟩ := hs.here
  exact ⟨hs.framed, ⟨c, hc, hR c hr⟩, hs.gone, hs.quit⟩

/-- A handler starts with the connection as it is. -/
theorem At.kept (hc : At h c s) : Kept h s s.quit (· = c) s :=
  ⟨⟨fun _ _ => rfl, rfl⟩, ⟨c, hc, rfl⟩, rfl, rfl⟩

/-- What no rule looks at may change. -/
theorem Kept.of_eq (hs : Kept h s₀ q R s) (hconns : s'.conns = s.conns) (hgone : s'.gone = s.gone)
    (hquit : s'.quit = s.quit) (hnext : s'.nextClientId = s.nextClientId) : Kept h s₀ q R s' := by
  obtain ⟨c, hc, hr⟩ := hs.here
  refine ⟨⟨fun fd hfd => ?_, hnext.trans hs.framed.nextClientId⟩, ⟨c, ⟨?_, hc.ptr⟩, hr⟩,
    hgone.trans hs.gone, hquit.trans hs.quit⟩
  · rw [hconns]
    exact hs.framed.others fd hfd
  · rw [hconns]
    exact hc.lookup

/-- The connection is replaced by another state of it. -/
theorem Kept.put (hs : Kept h s₀ q R s) (hptr : c.ptr = h.ptr) (hR : R' c)
    (hconns : s'.conns = s.conns.insert h.fd c) (hgone : s'.gone = s.gone)
    (hquit : s'.quit = s.quit) (hnext : s'.nextClientId = s.nextClientId) :
    Kept h s₀ q R' s' := by
  refine ⟨⟨fun fd hfd => ?_, hnext.trans hs.framed.nextClientId⟩, ⟨c, ⟨?_, hptr⟩, hR⟩,
    hgone.trans hs.gone, hquit.trans hs.quit⟩
  · rw [hconns, AList.lookup_insert_ne hfd]
    exact hs.framed.others fd hfd
  · rw [hconns, AList.lookup_insert]

/-! ## Handles -/

/-- A handle that points to a connection can be used. -/
theorem deref_eq (hc : At h c s) : deref h s = .ok (c, s) := by
  unfold deref
  rw [hc.lookup]
  exact if_pos hc.ptr

/-- A handle is used, and the rest of the program. -/
theorem triple_deref (hf : ∀ c, R c → Triple (Kept h s₀ q (· = c)) E (f c) post) :
    Triple (Kept h s₀ q R) E (deref h >>= f) post := by
  refine .intro fun s hs => ?_
  obtain ⟨c, hc, hr⟩ := hs.here
  have hstart : Kept h s₀ q (· = c) s := ⟨hs.framed, ⟨c, hc, rfl⟩, hs.gone, hs.quit⟩
  have hrun : (deref h >>= f) s = f c s := by
    show (deref h s >>= fun p => f p.1 p.2) = _
    rw [deref_eq hc, ok_bind]
  rw [hrun]
  exact (hf c hr).outcome hstart

/-- A rule is used for a connection that is known. -/
theorem triple_here (hc : R c) (hm : Triple (Kept h s₀ q R) E m post) :
    Triple (Kept h s₀ q (· = c)) E m post :=
  hm.weaken fun _ hs => hs.imp fun _ hd => hd ▸ hc

/-- The connection is updated. -/
theorem triple_update {f : Connection → Connection} (hptr : ∀ c, (f c).ptr = c.ptr)
    (hR : ∀ c, R c → R' (f c)) :
    Triple (Kept h s₀ q R) E (update h f) fun _ => Kept h s₀ q R' := by
  refine triple_deref fun c hr => .intro fun s hs => ?_
  obtain ⟨c', hc, rfl⟩ := hs.here
  exact hs.put ((hptr c').trans hc.ptr) (hR c' hr) rfl rfl rfl rfl

/-- Nothing is done. -/
theorem triple_pure {a : α} (hpost : ∀ s, pre s → post a s) : Triple pre E (pure a : L α) post :=
  .intro fun s hs => hpost s hs

/-- A fault that is allowed. -/
theorem triple_fault {f : LoopFault} (hf : E f) : Triple pre E (fault f : L α) post :=
  .intro fun _ _ => hf

/-- The rest of a program that looks at the state. -/
theorem triple_get {f : Reactor → L α} (hf : ∀ s, pre s → Triple pre E (f s) post) :
    Triple pre E (get >>= f) post :=
  .intro fun s hs => (hf s hs).outcome hs

/-! ## Output -/

/-- The interest in writing is set. -/
theorem triple_enableWrite {b : Bool} (hR : ∀ c, R c → R' { c with wantWrite := b }) :
    Triple (Kept h s₀ q R) E (enableWrite h b) fun _ => Kept h s₀ q R' := by
  refine triple_deref fun c hr => ?_
  have hset : Triple (Kept h s₀ q (· = c)) E
      (update h fun c => { c with wantWrite := b }) fun _ => Kept h s₀ q R' :=
    triple_here hr (triple_update (fun _ => rfl) hR)
  refine .ite (fun hb => ?_) fun hb => .ite (fun hb' => ?_) fun hb' => ?_
  · obtain ⟨rfl, -⟩ := (Bool.and_eq_true _ _).mp hb
    exact hset
  · obtain ⟨hb', -⟩ := (Bool.and_eq_true _ _).mp hb'
    rw [Bool.not_eq_true'] at hb'
    subst hb'
    exact hset
  · -- The interest is already as it should be.
    refine triple_pure fun s hs => hs.imp fun c' hc' => ?_
    have hsame : c.wantWrite = b := by
      cases b <;> cases hw : c.wantWrite <;> simp_all
    have hstill := hR c hr
    rw [← hsame] at hstill
    rw [hc']
    exact hstill

/-- The connection is destroyed. -/
theorem triple_destroy (hT : ∀ c, R c → T c) :
    Triple (Kept h s₀ q R) E (destroy h) fun _ => Shut h s₀ q T := by
  refine triple_deref fun c hr => .intro fun s hs => ?_
  obtain ⟨c', hc, rfl⟩ := hs.here
  refine ⟨⟨fun fd hfd => ?_, hs.framed.nextClientId⟩, ?_, ⟨c', ?_, hT c' hr⟩, hs.quit⟩
  · show (s.conns.erase h.fd).lookup fd = _
    rw [AList.lookup_erase_ne hfd]
    exact hs.framed.others fd hfd
  · exact AList.lookup_erase _ _
  · show s.gone ++ [c'] = _
    rw [hs.gone]

/-- The check that the connection is in `conns_`. -/
theorem present_run (hc : At h c s) (m : L Unit) :
    (get >>= fun s : Reactor => if (s.conns.lookup h.fd).isNone then pure () else m) s = m s := by
  have hfound : ¬(s.conns.lookup h.fd).isNone = true := by
    rw [hc.lookup]
    exact Bool.false_ne_true
  show (if (s.conns.lookup h.fd).isNone then pure () else m : L Unit) s = _
  rw [if_neg hfound]

/-- The connection is closed. -/
theorem triple_closeConn (hT : ∀ c, R c → T { c with wantWrite := false }) :
    Triple (Kept h s₀ q R) E (closeConn h) fun _ => Shut h s₀ q T := by
  refine triple_deref fun c hr => .intro fun s hs => ?_
  obtain ⟨_, hc, rfl⟩ := hs.here
  rw [present_run hc]
  refine Triple.outcome (.ite (fun _ => ?_) fun hw => ?_) hs
  · exact (triple_here hr (triple_enableWrite hT)).bind fun _ => triple_destroy fun _ hc' => hc'
  · refine triple_destroy fun c' hc' => ?_
    have hT := hT _ hr
    rw [← Bool.not_eq_true _ |>.mp hw] at hT
    rw [hc']
    exact hT

/-- What is said of a connection does not depend on the output. -/
structure Undisturbed (T : Connection → Prop) : Prop where
  send : ∀ c n, T c → T (c.send n)
  interest : ∀ c b, T c → T { c with wantWrite := b }

/-- It is the same when the connection is closed. -/
theorem Undisturbed.closes (hT : Undisturbed T) :
    Triple (Kept h s₀ q T) E (closeConn h) fun _ => Shut h s₀ q T :=
  triple_closeConn fun c hc => hT.interest c false hc

/-- What there is to write is waited for. -/
def Settled (T : Connection → Prop) (c : Connection) : Prop :=
  T c ∧ (c.out = [] ∨ c.wantWrite = true)

/-- A result of `write` that closes the connection. -/
def WriteResult.Fails (r : WriteResult) : Prop := r = .failed ∨ r = .wrote 0

/-- What `OnWritable` comes to. -/
def Flushed (h : Handle) (s₀ : Reactor) (q : Bool) (T : Connection → Prop)
    (writes : List WriteResult) (s : Reactor) : Prop :=
  Kept h s₀ q (Settled T) s ∨ (∃ r ∈ writes, r.Fails) ∧ Shut h s₀ q T s

/-- The loop of `OnWritable` goes on only while there is something to write. -/
theorem triple_whileOut (hT : Undisturbed T) {body : L Unit}
    (hbody : Triple (Kept h s₀ q fun c => T c ∧ c.out ≠ []) E body
      fun _ => Flushed h s₀ q T writes) :
    Triple (Kept h s₀ q T) E (whileOut h body) fun _ => Flushed h s₀ q T writes := by
  refine triple_deref fun c hc => .ite (fun hout => ?_) fun hout => ?_
  · have hoff : Triple (Kept h s₀ q (· = c)) E (enableWrite h false)
        fun _ => Kept h s₀ q (Settled T) := by
      refine triple_enableWrite fun c' hc' => ?_
      rw [hc']
      exact ⟨hT.interest c false hc, .inl hout⟩
    exact hoff.relax fun _ _ hs => .inl hs
  · exact triple_here (R := fun c => T c ∧ c.out ≠ []) ⟨hc, hout⟩ hbody

/-- `OnWritable` writes what it can, or closes the connection. -/
theorem triple_onWritable (hT : Undisturbed T) (hE : E .unfinished) (writes : List WriteResult) :
    Triple (Kept h s₀ q T) E (onWritable h writes) fun _ => Flushed h s₀ q T writes := by
  induction writes with
  | nil => exact triple_whileOut hT (triple_fault hE)
  | cons r writes ih =>
    -- What the rest of the calls comes to.
    have hrest : Triple (Kept h s₀ q T) E (onWritable h writes)
        fun _ => Flushed h s₀ q T (r :: writes) := by
      refine ih.relax fun _ _ hs => hs.imp_right fun hshut => ⟨?_, hshut.2⟩
      obtain ⟨r', hr', hfails⟩ := hshut.1
      exact ⟨r', List.mem_cons_of_mem _ hr', hfails⟩
    have hclose : r.Fails → Triple (Kept h s₀ q fun c => T c ∧ c.out ≠ []) E (closeConn h)
        fun _ => Flushed h s₀ q T (r :: writes) := by
      intro hr
      exact hT.closes.imp (fun s hs => hs.imp fun _ hc => hc.1)
        fun _ _ hs => .inr ⟨⟨r, List.mem_cons_self, hr⟩, hs⟩
    cases r with
    | wrote n =>
      refine triple_whileOut hT (.ite (fun _ => ?_) fun hn => ?_)
      · have hsend : Triple (Kept h s₀ q fun c => T c ∧ c.out ≠ []) E
            (update h (Connection.send n)) fun _ => Kept h s₀ q T :=
          triple_update (fun _ => rfl) fun c hc => hT.send c n hc.1
        exact hsend.bind fun _ => hrest
      · rw [Nat.pos_iff_ne_zero, not_not] at hn
        exact hclose (.inr (by rw [hn]))
    | again =>
      have hon : Triple (Kept h s₀ q fun c => T c ∧ c.out ≠ []) E (enableWrite h true)
          fun _ => Kept h s₀ q (Settled T) :=
        triple_enableWrite fun c hc => ⟨hT.interest c true hc.1, .inr rfl⟩
      exact triple_whileOut hT (hon.relax fun _ _ hs => .inl hs)
    | interrupted =>
      exact triple_whileOut hT (hrest.weaken fun s hs => hs.imp fun _ hc => hc.1)
    | failed => exact triple_whileOut hT (hclose (.inl rfl))

/-! ## Commands -/

/-- What a call of `Dispatch` for a connection comes to. -/
structure Answers (env : Env) (argv : Args) (c c' : Connection) (quit shutdown : Bool) : Prop where
  intro ::
  result : ∃ (s : Reactor) (tx : Tx) (w : World),
    dispatch env 2 argv c.tx (s.world c) = .ok (((), tx), w) ∧ c' = c.answered argv tx w ∧
      w.cs.quitRequested = quit ∧ w.stats.shutdownRequested = shutdown

/-- What `dispatchOne` comes to, with the two requests that the loop then looks at. -/
def Dispatches (env : Env) (h : Handle) (s₀ : Reactor) (q : Bool) (R : Connection → Prop)
    (argv : Args) (s : Reactor) : Prop :=
  ∃ c c', R c ∧ Kept h s₀ q (· = c') s ∧
    Answers env argv c c' c'.session.quitRequested s.stats.shutdownRequested

/-- A command is dispatched. -/
theorem triple_dispatchOne {argv : Args} (hE : ∀ f, E (.command f)) :
    Triple (Kept h s₀ q R) E (dispatchOne env h argv) fun _ => Dispatches env h s₀ q R argv := by
  have hcount : Triple (Kept h s₀ q R) E (modify fun s : Reactor => { s with
      stats := { s.stats with totalCommands := s.stats.totalCommands + 1 } })
      fun _ => Kept h s₀ q R :=
    .intro fun s hs => hs.of_eq rfl rfl rfl rfl
  refine hcount.bind fun _ => triple_deref fun c hr => .intro fun s hs => ?_
  obtain ⟨c', hc, rfl⟩ := hs.here
  have hrun : (get >>= fun s => conclude h argv c' (dispatch env 2 argv c'.tx (s.world c'))) s =
      conclude h argv c' (dispatch env 2 argv c'.tx (s.world c')) s := rfl
  rw [hrun]
  cases hd : dispatch env 2 argv c'.tx (s.world c') with
  | error f => exact hE f
  | ok p =>
    obtain ⟨⟨⟨⟩, tx⟩, w⟩ := p
    exact ⟨c', c'.answered argv tx w, hr,
      hs.put (c := c'.answered argv tx w) hc.ptr rfl rfl rfl rfl rfl,
      ⟨s, tx, w, hd, rfl, rfl, rfl⟩⟩

/-- What is to be shown of the commands: with `R cmds` when `cmds` are still to come, and with `T`
at the end. -/
structure Serves (env : Env) (R : List Args → Connection → Prop) (T : Connection → Prop) :
    Prop where
  done : ∀ c, R [] c → T c
  skip : ∀ cmds c, R ([] :: cmds) c → R cmds c
  last : ∀ argv cmds c c' quit shutdown, argv ≠ [] → R (argv :: cmds) c →
    Answers env argv c c' quit shutdown → quit = true ∨ shutdown = true → T c'
  next : ∀ argv cmds c c', argv ≠ [] → R (argv :: cmds) c → Answers env argv c c' false false →
    R cmds c'

/-- All commands are dispatched, as far as none of them stops the loop. -/
theorem triple_dispatchAll {R : List Args → Connection → Prop} (hR : Serves env R T)
    (hE : ∀ f, E (.command f)) (cmds : List Args) :
    Triple (Kept h s₀ q (R cmds)) E (dispatchAll env h cmds) fun _ => Kept h s₀ q T := by
  induction cmds with
  | nil => exact triple_pure fun s hs => hs.imp hR.done
  | cons argv cmds ih =>
    refine .ite (fun hnil => ?_) fun hne => ?_
    · rw [hnil]
      exact ih.weaken fun s hs => hs.imp fun c => hR.skip cmds c
    refine (triple_dispatchOne hE).bind fun _ => .intro fun s hs => ?_
    obtain ⟨c, c', hr, hkept, hanswers⟩ := hs
    obtain ⟨c'', hc, rfl⟩ := hkept.here
    have hlook : (do
        let c ← deref h
        let s ← get
        if c.session.quitRequested then pure false
        else if s.stats.shutdownRequested then pure true
        else dispatchAll env h cmds : L Bool) s =
        (if c''.session.quitRequested then pure false
        else if s.stats.shutdownRequested then pure true
        else dispatchAll env h cmds : L Bool) s := by
      show (deref h s >>= fun p => _) = _
      rw [deref_eq hc, ok_bind]
      rfl
    rw [hlook]
    cases hquit : c''.session.quitRequested with
    | true =>
      rw [hquit] at hanswers
      exact hkept.imp fun d hd => hd ▸ hR.last argv cmds c c'' _ _ hne hr hanswers (.inl rfl)
    | false =>
      rw [hquit] at hanswers
      cases hshut : s.stats.shutdownRequested with
      | true =>
        rw [hshut] at hanswers
        exact hkept.imp fun d hd => hd ▸ hR.last argv cmds c c'' _ _ hne hr hanswers (.inr rfl)
      | false =>
        rw [hshut] at hanswers
        exact ih.outcome (hkept.imp fun d hd => hd ▸ hR.next argv cmds c c'' hne hr hanswers)

/-- What is said of the destroyed connection may be weakened. -/
theorem Shut.imp (hs : Shut h s₀ q T s) (hP : ∀ c, T c → P c) : Shut h s₀ q P s := by
  obtain ⟨c, hgone, hc⟩ := hs.gone
  exact ⟨hs.framed, hs.here, ⟨c, hgone, hP c hc⟩, hs.quit⟩

/-- What a handler comes to: the connection is there, and what there is to write is waited for; or
the server is to stop; or the connection was destroyed, with `P`. -/
inductive Handled (h : Handle) (s₀ : Reactor) (T P : Connection → Prop) (s : Reactor) : Prop where
  | settled (hs : Kept h s₀ s₀.quit (Settled T) s)
  | stopping (hs : Kept h s₀ true T s)
  | shut (hs : Shut h s₀ s₀.quit P s)

/-- A handler may end with `OnWritable`. -/
theorem Flushed.handled (hP : (∃ r ∈ writes, r.Fails) → ∀ c, T c → P c)
    (hs : Flushed h s₀ s₀.quit T writes s) : Handled h s₀ T P s :=
  hs.elim .settled fun hs => .shut (hs.2.imp (hP hs.1))

/-- Nothing can be done with the connection after it was destroyed. -/
theorem deref_shut (hs : Shut h s₀ q T s) : deref h s = .error .useAfterFree := by
  unfold deref
  rw [hs.here]

/-- After `OnWritable` the handle is used again, whether or not the connection was destroyed. -/
theorem triple_flushed (hfails : (∃ r ∈ writes, r.Fails) → E .useAfterFree)
    (hf : ∀ c, Settled T c → Triple (Kept h s₀ q (· = c)) E (f c) post) :
    Triple (Flushed h s₀ q T writes) E (deref h >>= f) post := by
  refine .intro fun s hs => ?_
  rcases hs with hs | ⟨hfail, hs⟩
  · exact (triple_deref hf).outcome hs
  · have hrun : (deref h >>= f) s = .error .useAfterFree := by
      show (deref h s >>= fun p => f p.1 p.2) = _
      rw [deref_shut hs]
      rfl
    rw [hrun]
    exact hfails hfail

/-- The same for `CloseConn`. -/
theorem triple_flushed_closeConn (hT : Undisturbed T)
    (hfails : (∃ r ∈ writes, r.Fails) → E .useAfterFree) :
    Triple (Flushed h s₀ q T writes) E (closeConn h) fun _ => Shut h s₀ q T := by
  refine .intro fun s hs => ?_
  rcases hs with hs | ⟨hfail, hs⟩
  · exact hT.closes.outcome (hs.imp fun _ hc => hc.1)
  · have hrun : closeConn h s = .error .useAfterFree := by
      unfold closeConn
      show (deref h s >>= fun p => _) = _
      rw [deref_shut hs]
      rfl
    rw [hrun]
    exact hfails hfail

/-- Writing does not change whether the connection is to be closed. -/
theorem Undisturbed.quitRequested (hT : Undisturbed T) :
    Undisturbed fun c => T c ∧ c.session.quitRequested = true where
  send c n hc := ⟨hT.send c n hc.1, hc.2⟩
  interest c b hc := ⟨hT.interest c b hc.1, hc.2⟩

/-- A reason to close a connection after its commands. -/
def Closing (writes : List WriteResult) (c : Connection) : Prop :=
  (∃ r ∈ writes, r.Fails) ∨ c.session.quitRequested = true

/-- The end of `OnReadable`, after the commands. -/
theorem triple_afterCommands (hT : Undisturbed T)
    (hP : ∀ c, T c → Closing writes c → P c) (hE : E .unfinished)
    (hfails : ∀ c, T c → c.session.quitRequested = true → (∃ r ∈ writes, r.Fails) →
      E .useAfterFree) (shutdownSeen : Bool) :
    Triple (Kept h s₀ s₀.quit T) E (afterCommands h shutdownSeen writes)
      fun _ => Handled h s₀ T P := by
  refine triple_get fun s _ => .ite (fun _ => ?_) fun _ => ?_
  · refine .intro fun s hs => .stopping ?_
    obtain ⟨c, hc, ht⟩ := hs.here
    exact ⟨⟨hs.framed.others, hs.framed.nextClientId⟩, ⟨c, ⟨hc.lookup, hc.ptr⟩, ht⟩, hs.gone, rfl⟩
  refine triple_deref fun c hc => ?_
  have hflush : ∀ {T : Connection → Prop}, Undisturbed T → T c →
      Triple (Kept h s₀ s₀.quit (· = c)) E (onWritable h writes)
        fun _ => Flushed h s₀ s₀.quit T writes :=
    fun hT hc => triple_here hc (triple_onWritable hT hE writes)
  refine .ite (fun hquit => ?_) fun _ => .ite (fun _ => ?_) fun hout => ?_
  · refine (hflush hT.quitRequested ⟨hc, hquit⟩).bind fun _ => triple_flushed (hfails c hc hquit)
      fun c' hc' => .ite (fun _ => ?_) fun hwant => ?_
    · exact (triple_here hc'.1 hT.quitRequested.closes).relax fun _ _ hs =>
        .shut (hs.imp fun d hd => hP d hd.1 (.inr hd.2))
    · exact triple_pure fun s hs => .settled (hs.imp fun d hd => hd ▸ ⟨hc'.1.1, hc'.2⟩)
  · exact (hflush hT hc).relax fun _ _ hs => hs.handled fun hfail d hd => hP d hd (.inl hfail)
  · rw [not_not] at hout
    exact triple_pure fun s hs => .settled (hs.imp fun d hd => hd ▸ ⟨hc, .inl hout⟩)

/-! ## Handlers -/

/-- What is to be shown of a call of `OnReadable`, by how its loop ends. -/
def Reads (env : Env) (E : LoopFault → Prop) (T P : Connection → Prop) (writes : List WriteResult)
    (c : Connection) (r : Reading) : ReadEnd → Prop
  | .refused => P (c.receive r).refuse ∧ ((∃ w ∈ writes, w.Fails) → E .useAfterFree)
  | .hangup => P (c.receive r)
  | .drained => ∃ R, Serves env R T ∧ R r.parsedCmds (c.receive r) ∧
      ∀ c', T c' → c'.session.quitRequested = true → (∃ w ∈ writes, w.Fails) → E .useAfterFree

/-- `OnReadable` reads, runs the commands, and writes. -/
theorem triple_onReadable (hT : Undisturbed T) (hU : Undisturbed P)
    (hP : ∀ c, T c → Closing writes c → P c) (hE : E .unfinished) (hcmd : ∀ f, E (.command f))
    {reads : List ReadResult}
    (hreads : ∀ r e, readLoop reads ⟨c.parser, [], []⟩ = some (r, e) →
      Reads env E T P writes c r e) :
    Triple (Kept h s₀ s₀.quit (· = c)) E (onReadable env h reads writes)
      fun _ => Handled h s₀ T P := by
  refine triple_deref fun c' hc' => ?_
  subst hc'
  cases hloop : readLoop reads ⟨c'.parser, [], []⟩ with
  | none => exact triple_fault hE
  | some p =>
    obtain ⟨r, e⟩ := p
    have hreads := hreads r e hloop
    have hreceive : Triple (Kept h s₀ s₀.quit (· = c')) E (update h (Connection.receive r))
        fun _ => Kept h s₀ s₀.quit (· = c'.receive r) :=
      triple_update (fun _ => rfl) fun d hd => by rw [hd]
    refine hreceive.bind fun _ => ?_
    cases e with
    | refused =>
      have hrefuse : Triple (Kept h s₀ s₀.quit (· = c'.receive r)) E (update h Connection.refuse)
          fun _ => Kept h s₀ s₀.quit P :=
        triple_update (fun _ => rfl) fun d hd => by rw [hd]; exact hreads.1
      refine hrefuse.bind fun _ => (triple_onWritable hU hE writes).bind fun _ => ?_
      exact (triple_flushed_closeConn hU hreads.2).relax fun _ _ hs => .shut hs
    | hangup => exact (triple_here hreads hU.closes).relax fun _ _ hs => .shut hs
    | drained =>
      obtain ⟨R, hR, hstart, hfails⟩ := hreads
      exact (triple_here hstart (triple_dispatchAll hR hcmd r.parsedCmds)).bind fun seen =>
        triple_afterCommands hT hP hE hfails seen

end TinyRedis.EventLoop

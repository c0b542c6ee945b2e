import TinyRedis.EventLoop.Effects

/-!
# Invariants of the event loop

`Everyone A P` says something of every connection: `A` of those that are there, which may depend on
whether the server is to stop, and `P` of those that were destroyed. It holds in every state of
every run if the course of a connection is as it should be (`Course`), and if reading keeps it
(`Reads`), where the test `K` says what is known of the steps of the run.
-/

namespace TinyRedis.EventLoop

open Lib Commands

variable {env : Env} {h : Handle} {s s' : Reactor} {A : Bool → Connection → Prop}
  {P T : Connection → Prop} {c : Connection}

/-- What holds of every connection. -/
structure Everyone (A : Bool → Connection → Prop) (P : Connection → Prop) (s : Reactor) : Prop where
  alive : ∀ fd c, s.conns.lookup fd = some c → A s.quit c
  gone : ∀ c ∈ s.gone, P c

/-- The course of a connection, where `T` holds while it is handled. -/
structure Course (A : Bool → Connection → Prop) (P T : Connection → Prop) : Prop where
  output : Undisturbed T
  closing : Undisturbed P
  fresh : ∀ q id, A q (.fresh id)
  starts : ∀ q c, A q c → T c
  settled : ∀ q c, Settled T c → A q c
  stopping : ∀ c, T c → A true c
  destroyed : ∀ c, T c → P c

/-- What is asked for stays asked for. -/
theorem Course.mono (hT : Course A P T) {q q' : Bool} (hq : q' = q ∨ q' = true) (hc : A q c) :
    A q' c := by
  rcases hq with rfl | rfl
  · exact hc
  · exact hT.stopping c (hT.starts q c hc)

/-- A change to neither the connections nor what is asked for. -/
theorem Everyone.of_eq (hs : Everyone A P s) (hconns : s'.conns = s.conns)
    (hgone : s'.gone = s.gone) (hquit : s'.quit = s.quit) : Everyone A P s' := by
  refine ⟨fun fd c hc => ?_, fun c hc => hs.gone c (hgone ▸ hc)⟩
  rw [hquit]
  exact hs.alive fd c (hconns ▸ hc)

/-- The server is to stop. -/
theorem Everyone.stop (hT : Course A P T) (hs : Everyone A P s) (hconns : s'.conns = s.conns)
    (hgone : s'.gone = s.gone) (hquit : s'.quit = true) : Everyone A P s' := by
  refine ⟨fun fd c hc => ?_, fun c hc => hs.gone c (hgone ▸ hc)⟩
  exact hT.mono (.inr hquit) (hs.alive fd c (hconns ▸ hc))

/-- What holds of every connection that is there or was destroyed. -/
theorem Everyone.of_mem (hs : Everyone A P s) (hA : ∀ q c, A q c → T c) (hP : ∀ c, P c → T c)
    (hc : (∃ fd, s.conns.lookup fd = some c) ∨ c ∈ s.gone) : T c := by
  rcases hc with ⟨fd, hc⟩ | hc
  · exact hA _ c (hs.alive fd c hc)
  · exact hP c (hs.gone c hc)

/-! ## Handlers -/

/-- A handler that leaves the connection there. -/
theorem Kept.everyone {q : Bool} {R : Connection → Prop} (hT : Course A P T)
    (hs : Everyone A P s) (hk : Kept h s q R s') (hq : q = s.quit ∨ q = true)
    (hR : ∀ c, R c → A q c) : Everyone A P s' := by
  obtain ⟨c', hc', hr⟩ := hk.here
  refine ⟨fun fd c hc => ?_, fun c hc => hs.gone c (hk.gone ▸ hc)⟩
  rw [hk.quit]
  by_cases hfd : fd = h.fd
  · rw [hfd, hc'.lookup] at hc
    cases hc
    exact hR _ hr
  · rw [hk.framed.others fd hfd] at hc
    exact hT.mono hq (hs.alive fd c hc)

/-- One that destroys it. -/
theorem Shut.everyone (hs : Everyone A P s) (hk : Shut h s s.quit P s') : Everyone A P s' := by
  refine ⟨fun fd c hc => ?_, fun c hc => ?_⟩
  · rw [hk.quit]
    by_cases hfd : fd = h.fd
    · rw [hfd, hk.here] at hc
      cases hc
    · rw [hk.framed.others fd hfd] at hc
      exact hs.alive fd c hc
  · obtain ⟨c', hgone, hc'⟩ := hk.gone
    rw [hgone, List.mem_append, List.mem_singleton] at hc
    rcases hc with hc | rfl
    · exact hs.gone c hc
    · exact hc'

/-- A handler in general. -/
theorem Handled.everyone (hT : Course A P T) (hs : Everyone A P s) (hk : Handled h s T P s') :
    Everyone A P s' := by
  cases hk with
  | settled hk => exact hk.everyone hT hs (.inl rfl) fun c => hT.settled _ c
  | stopping hk => exact hk.everyone hT hs (.inr rfl) hT.stopping
  | shut hk => exact hk.everyone hs

/-- A handle that can be used points to a connection. -/
theorem exists_at_of_deref {p : Connection × Reactor} (hp : deref h s = .ok p) :
    ∃ c, At h c s ∧ p = (c, s) := by
  unfold deref at hp
  cases hc : s.conns.lookup h.fd with
  | none =>
    rw [hc] at hp
    cases hp
  | some c =>
    rw [hc] at hp
    dsimp only at hp
    split_ifs at hp with hptr
    cases hp
    exact ⟨c, ⟨hc, hptr⟩, rfl⟩

/-- What an event of a connection does, once the handle is found to be one. -/
theorem onEvent_conn (hc : At h c s) (filter : Filter) (reads : List ReadResult)
    (writes : List WriteResult) :
    onEvent env (.conn filter (some h) reads writes) s = (match filter with
      | .read => onReadable env h reads writes
      | .write => onWritable h writes) s := by
  show (deref h s >>= fun p => _) = _
  rw [deref_eq hc, ok_bind]
  exact present_run hc _

/-- The server after it has accepted a connection. -/
def Reactor.accept (s : Reactor) (fd : ℕ) : Reactor :=
  { s with
    nextClientId := s.nextClientId + 1
    conns := s.conns.insert fd (.fresh s.nextClientId)
    stats := { s.stats with
      totalConnections := s.stats.totalConnections + 1
      connectedClients := s.stats.connectedClients + 1 } }

/-- One connection is accepted, and then the others. -/
theorem onAccept_accepted (fd : ℕ) (accepts : List AcceptResult) (s : Reactor) :
    onAccept (.accepted fd :: accepts) s = onAccept accepts (s.accept fd) := rfl

/-- A new connection is like every other. -/
theorem Everyone.accept (hT : Course A P T) (hs : Everyone A P s) (fd : ℕ) :
    Everyone A P (s.accept fd) := by
  refine ⟨fun fd' c hc => ?_, hs.gone⟩
  unfold Reactor.accept at hc
  rw [Dict.lookup_insert_eq] at hc
  split_ifs at hc with hfd
  · cases hc
    exact hT.fresh _ _
  · exact hs.alive fd' c hc

/-- `OnAccept` keeps it. -/
theorem onAccept_keeps (hT : Course A P T) {accepts : List AcceptResult} (hs : Everyone A P s)
    (hrun : onAccept accepts s = .ok ((), s')) : Everyone A P s' := by
  induction accepts generalizing s with
  | nil => cases hrun
  | cons r accepts ih =>
    cases r with
    | accepted fd => exact ih (hs.accept hT fd) (onAccept_accepted fd accepts s ▸ hrun)
    | interrupted => exact ih hs hrun
    | again =>
      cases hrun
      exact hs
    | failed =>
      cases hrun
      exact hs

/-- What is known of an event that is read from a connection. -/
def ReadsAll (env : Env) (E : LoopFault → Prop) (A : Bool → Connection → Prop)
    (T P : Connection → Prop) (s : Reactor) (e : KEvent) : Prop :=
  ∀ h reads writes c, e = .conn .read (some h) reads writes → At h c s → A s.quit c →
    ∀ r end_, readLoop reads ⟨c.parser, [], []⟩ = some (r, end_) → Reads env E T P writes c r end_

/-- Every event keeps it. -/
theorem onEvent_keeps (hT : Course A P T) {e : KEvent} (hs : Everyone A P s)
    (hreads : ReadsAll env (fun _ => True) A T P s e) (hrun : onEvent env e s = .ok ((), s')) :
    Everyone A P s' := by
  cases e with
  | signal =>
    cases hrun
    exact hs.stop hT rfl rfl rfl
  | listen accepts => exact onAccept_keeps hT hs hrun
  | conn filter udata reads writes =>
    cases udata with
    | none =>
      cases hrun
      exact hs
    | some h =>
      have hderef : ∃ c, At h c s := by
        obtain ⟨p, hp, -⟩ := bind_eq_ok (x := deref h s) hrun
        obtain ⟨c, hc, -⟩ := exists_at_of_deref hp
        exact ⟨c, hc⟩
      obtain ⟨c, hc⟩ := hderef
      have ha := hs.alive h.fd c hc.lookup
      cases filter with
      | read =>
        rw [onEvent_conn hc] at hrun
        have hread : Triple (Kept h s s.quit (· = c)) (fun _ => True)
            (onReadable env h reads writes) fun _ => Handled h s T P :=
          triple_onReadable hT.output hT.closing (fun d hd _ => hT.destroyed d hd) trivial
            (fun _ => trivial) (hreads h reads writes c rfl hc ha)
        exact (hread.of_ok hc.kept hrun).everyone hT hs
      | write =>
        rw [onEvent_conn hc] at hrun
        have hwrite : Triple (Kept h s s.quit T) (fun _ => True) (onWritable h writes)
            fun _ => Flushed h s s.quit T writes :=
          triple_onWritable hT.output trivial writes
        have hstart : Kept h s s.quit T s := hc.kept.imp fun d hd => hd ▸ hT.starts _ c ha
        exact ((hwrite.of_ok hstart hrun).handled fun _ => hT.destroyed).everyone hT hs

/-! ## The end -/

/-- So does closing a connection. -/
theorem closeConn_keeps (hT : Course A P T) (hs : Everyone A P s)
    (hrun : closeConn h s = .ok ((), s')) : Everyone A P s' := by
  obtain ⟨p, hp, -⟩ := bind_eq_ok (x := deref h s) hrun
  obtain ⟨c, hc, -⟩ := exists_at_of_deref hp
  have hstart : Kept h s s.quit T s :=
    hc.kept.imp fun d hd => hd ▸ hT.starts _ c (hs.alive h.fd c hc.lookup)
  have hkept := Triple.of_ok (E := fun _ => True) hT.output.closes hstart hrun
  exact (hkept.imp hT.destroyed).everyone hs

/-- And closing all of them. -/
theorem closeEach_keeps (hT : Course A P T) {l : List (ℕ × Connection)} (hs : Everyone A P s)
    (hrun : closeEach l s = .ok ((), s')) : Everyone A P s' := by
  induction l generalizing s with
  | nil =>
    cases hrun
    exact hs
  | cons fc l ih =>
    obtain ⟨⟨⟨⟩, s₁⟩, hclose, hrest⟩ := bind_eq_ok (x := closeConn ⟨fc.1, fc.2.ptr⟩ s) hrun
    exact ih (closeConn_keeps hT hs hclose) hrest

/-! ## Runs -/

variable {polls : ℕ → Poll} {m m' : Machine} {K : Machine → Bool}

/-- The end of the run keeps it. -/
theorem finish_keeps (hT : Course A P T) (hs : Everyone A P m.reactor)
    (hrun : m.finish = .ok m') : Everyone A P m'.reactor := by
  obtain ⟨⟨⟨⟩, s⟩, hclose, hm'⟩ := bind_eq_ok hrun
  cases hm'
  exact closeEach_keeps hT hs hclose

/-- What the test has to ensure of the events that are handled. -/
def Ensures (env : Env) (A : Bool → Connection → Prop) (T P : Connection → Prop)
    (K : Machine → Bool) : Prop :=
  ∀ m e rest, K m = true → m.point = .handling (e :: rest) →
    ReadsAll env (fun _ => True) A T P m.reactor e

/-- Every step keeps it. -/
theorem step_keeps (hT : Course A P T) (hK : Ensures env A T P K) (hs : Everyone A P m.reactor)
    (hm : K m = true) (hstep : step env polls m = .ok m') : Everyone A P m'.reactor := by
  unfold step at hstep
  split at hstep
  · split_ifs at hstep with hquit
    · exact finish_keeps hT hs hstep
    · split at hstep
      · cases hstep
        exact hs
      · exact finish_keeps hT hs hstep
      · cases hstep
        exact hs
  · next e rest hpoint =>
    obtain ⟨⟨⟨⟩, s⟩, hevent, hm'⟩ := bind_eq_ok hstep
    cases hm'
    exact onEvent_keeps hT hs (hK m e rest hm hpoint) hevent
  · obtain ⟨⟨⟨⟩, s⟩, htasks, hm'⟩ := bind_eq_ok hstep
    cases hm'
    cases htasks
    exact hs.of_eq rfl rfl rfl
  · cases hstep
    exact hs

/-- No connection was accepted yet. -/
theorem Machine.Initial.everyone (hm : m.Initial) : Everyone A P m.reactor := by
  refine ⟨fun fd c hc => ?_, fun c hc => ?_⟩
  · rw [hm.conns] at hc
    cases hc
  · rw [hm.gone] at hc
    cases hc

/-- It holds in every state of a run. -/
theorem run_keeps (hT : Course A P T) (hK : Ensures env A T P K) {n : ℕ} (hm : m.Initial)
    (hmeets : Process.meets (step env polls) K n m = true) (hrun : run env polls n m = .ok m') :
    Everyone A P m'.reactor :=
  Process.run_keeps (I := fun m => Everyone A P m.reactor)
    (fun _ _ hs hm hstep => step_keeps hT hK hs hm hstep) hm.everyone hmeets hrun

end TinyRedis.EventLoop

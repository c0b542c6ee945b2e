import TinyRedis.EventLoop.Runs
import TinyRedis.Resp.Chunking

/-!
# How the input is cut

`OnReadable` reads what there is, and only then dispatches the commands that it has parsed. If the
reading ends with a protocol error, with the end of the input, or with a failure, it returns before
that, and the commands of this call are lost. Otherwise the commands that are dispatched are those
of the stream, however it is cut, as far as the lines of the stream are within their limits, and up
to `QUIT` or `SHUTDOWN`.
-/

namespace TinyRedis.EventLoop

open Lib Lib.Incremental Commands Resp List

variable {env : Env} {c c' : Connection} {reads : List ReadResult} {r : Reading} {e : ReadEnd}

/-! ## The loop of `OnReadable` -/

/-- From `r₀` on, the chunks were read and fed to the parser, which has failed if `e` says so. -/
structure Fed (r₀ r : Reading) (e : ReadEnd) (chunks : List Bytes) : Prop where
  received : r.received = r₀.received ++ chunks.flatten
  parsed : r.parsedCmds = r₀.parsedCmds ++ (r₀.parser.feedAll chunks).1
  parser : r.parser = (r₀.parser.feedAll chunks).2
  refused : r.parser.hasError = true ↔ e = .refused

/-- Nothing more is read. -/
theorem fed_nil (hr : r.parser.hasError = true ↔ e = .refused) : Fed r r e [] :=
  ⟨(append_nil _).symm, (append_nil _).symm, rfl, hr⟩

/-- One chunk is read before the others. -/
theorem Fed.cons {r₀ : Reading} {b : Bytes} {chunks : List Bytes}
    (h : Fed ⟨(r₀.parser.feed b).2, r₀.received ++ b, r₀.parsedCmds ++ (r₀.parser.feed b).1⟩
      r e chunks) : Fed r₀ r e (b :: chunks) := by
  refine ⟨?_, ?_, h.parser, h.refused⟩
  · rw [h.received, flatten_cons, append_assoc]
  · rw [h.parsed, append_assoc]
    rfl

/-- The loop feeds what it reads to the parser. -/
theorem readLoop_feedAll {r₀ : Reading} (hr₀ : r₀.parser.hasError = false)
    (h : readLoop reads r₀ = some (r, e)) : ∃ chunks, Fed r₀ r e chunks := by
  induction reads generalizing r₀ with
  | nil => cases h
  | cons read reads ih =>
    cases read with
    | closed =>
      cases h
      exact ⟨[], fed_nil (iff_of_false (ne_true_of_eq_false hr₀) nofun)⟩
    | again =>
      cases h
      exact ⟨[], fed_nil (iff_of_false (ne_true_of_eq_false hr₀) nofun)⟩
    | failed =>
      cases h
      exact ⟨[], fed_nil (iff_of_false (ne_true_of_eq_false hr₀) nofun)⟩
    | interrupted => exact ih hr₀ h
    | data b pos le =>
      unfold readLoop at h
      dsimp only at h
      split_ifs at h with herror hshort
      · cases h
        exact ⟨[b], .cons (fed_nil (iff_of_true herror rfl))⟩
      · cases h
        exact ⟨[b], .cons (fed_nil (iff_of_false herror nofun))⟩
      · -- The chunk fills the room, so there may be more.
        rw [Bool.not_eq_true] at herror
        obtain ⟨chunks, hfed⟩ := ih herror h
        exact ⟨b :: chunks, hfed.cons⟩

/-! ## The commands of a stream -/

/-- The commands that a stream begins with, up to a protocol error. An empty request is none. -/
def streamCommands (b : Bytes) : List Args := (drainAll tryParseOne b).1.filter (· ≠ [])

/-- The parser has taken all commands of the stream. -/
structure Parsed (c : Connection) : Prop where
  error : c.parser.errorMsg = []
  drained : ∃ cmds, drainAll decodeRequest c.history.received = (cmds, c.parser.buf, none)

/-- What was read completes the stream. -/
theorem Parsed.receive (hc : Parsed c) (hfit : LinesFit (c.history.received ++ r.received))
    (hlen : c.parser.buf.length + r.received.length ≤ kMaxBulkBytes)
    (h : readLoop reads ⟨c.parser, [], []⟩ = some (r, e)) :
    streamCommands (c.history.received ++ r.received) =
        streamCommands c.history.received ++ r.parsedCmds.filter (· ≠ []) ∧
      (e ≠ .refused → Parsed (c.receive r)) := by
  obtain ⟨cmds, hdrained⟩ := hc.drained
  have hstate : c.parser = .ofState (c.parser.buf, none) := by
    show c.parser = ⟨c.parser.buf, []⟩
    rw [← hc.error]
  have hnone : c.parser.hasError = false := by
    unfold RequestParser.hasError
    rw [hc.error]
    rfl
  obtain ⟨chunks, ⟨hreceived, hparsed, hparser, hend⟩⟩ := readLoop_feedAll hnone h
  dsimp only at hreceived hparsed hparser
  rw [nil_append] at hreceived hparsed
  rw [hreceived] at hfit hlen ⊢
  -- The stream goes on where the parser stands.
  rcases drainAll_append decodeRequest_committed c.history.received chunks.flatten hfit with
    ⟨_, _, _, hbefore, -⟩ | ⟨cmds', rest, hbefore, hok, hall⟩
  · rw [hdrained] at hbefore
    cases hbefore
  rw [hdrained] at hbefore
  cases hbefore
  have hrest := drainAll_rest decodeRequest_committed.shrinks hdrained
  have hfed := RequestParser.feedAll_ofState chunks (c.parser.buf, none) (fun _ hm => by cases hm)
    hlen
  rw [← hstate] at hfed
  obtain ⟨hcmds, herr, hbuf⟩ :=
    feedAll_flatten decodeRequest_committed chunks c.parser.buf hok hrest
  have hparsed' : r.parsedCmds = (drainAll decodeRequest (c.parser.buf ++ chunks.flatten)).1 := by
    rw [hparsed, hfed, ← hcmds]
  constructor
  · unfold streamCommands
    rw [tryParseOne_eq, hall, hdrained, filter_append, hparsed']
  · intro he
    have hparser' : r.parser = .ofState
        (Incremental.feedAll decodeRequest chunks (c.parser.buf, none)).2 := by
      rw [hparser, hfed]
    cases hfinal : (Incremental.feedAll decodeRequest chunks (c.parser.buf, none)).2.2 with
    | none =>
      have hmsg : r.parser.errorMsg = [] := by
        rw [hparser']
        show Option.getD _ _ = _
        rw [hfinal]
        rfl
      have hleft :
          r.parser.buf = (drainAll decodeRequest (c.parser.buf ++ chunks.flatten)).2.1 := by
        rw [hparser', ← hbuf hfinal]
        rfl
      refine ⟨hmsg, cmds ++ (drainAll decodeRequest (c.parser.buf ++ chunks.flatten)).1, ?_⟩
      show drainAll decodeRequest (c.history.received ++ r.received) = (_, r.parser.buf, none)
      rw [hreceived, hall, hleft]
      exact Prod.ext rfl (Prod.ext rfl (herr.symm.trans hfinal))
    | some msg =>
      -- An error has a message, so the loop would have ended with it.
      have hmsg : msg ≠ [] := (drainAll_decodeRequest rfl).2 msg (herr ▸ hfinal)
      refine absurd (hend.1 ?_) he
      rw [hparser']
      unfold RequestParser.hasError
      show (!(Option.getD _ _ : Bytes).isEmpty) = true
      rw [hfinal, Option.getD_some, Bool.not_eq_true', isEmpty_eq_false_iff]
      exact hmsg

/-! ## What is executed -/

/-- The commands that were dispatched are those of the stream, each once and in order, up to the
first after which the connection is to be closed or the server is to stop. -/
structure Executed (c : Connection) : Prop where
  inOrder : c.history.dispatched.map Dispatched.argv <+: streamCommands c.history.received
  going : ∀ d ∈ c.history.dispatched.dropLast, d.quit = false ∧ d.shutdown = false
  complete : c.history.dispatched.map Dispatched.argv = streamCommands c.history.received ∨
    ∃ d, c.history.dispatched.getLast? = some d ∧ (d.quit = true ∨ d.shutdown = true)

/-- The commands `cmds` are still to be dispatched. -/
structure Pending (cmds : List Args) (c : Connection) : Prop where
  parsed : Parsed c
  going : ∀ d ∈ c.history.dispatched, d.quit = false ∧ d.shutdown = false
  rest : c.history.dispatched.map Dispatched.argv ++ cmds.filter (· ≠ []) =
    streamCommands c.history.received

/-- A connection between two calls of `OnReadable`. -/
structure Tracked (c : Connection) : Prop where
  parsed : Parsed c
  executed : Executed c

/-- As long as nothing ended the connection, all commands were dispatched. -/
theorem Executed.all (hc : Executed c)
    (hgoing : ∀ d ∈ c.history.dispatched, d.quit = false ∧ d.shutdown = false) :
    c.history.dispatched.map Dispatched.argv = streamCommands c.history.received := by
  refine hc.complete.resolve_right fun ⟨d, hd, hended⟩ => ?_
  obtain ⟨hquit, hshutdown⟩ := hgoing d (mem_of_getLast? hd)
  rcases hended with h | h
  · rw [hquit] at h
    cases h
  · rw [hshutdown] at h
    cases h

/-- All commands were dispatched, and none of them ended the connection. -/
theorem executed_of_all
    (hgoing : ∀ d ∈ c.history.dispatched, d.quit = false ∧ d.shutdown = false)
    (hall : c.history.dispatched.map Dispatched.argv = streamCommands c.history.received) :
    Executed c :=
  ⟨hall ▸ prefix_refl _, fun d hd => hgoing d (mem_of_mem_dropLast hd), .inl hall⟩

/-- When no command is left, all were dispatched. -/
theorem Pending.executed (hc : Pending [] c) : Executed c :=
  executed_of_all hc.going ((append_nil _).symm.trans hc.rest)

section Answers

variable {argv : Args} {cmds : List Args} {quit shutdown : Bool}

/-- What a command adds to the history. -/
theorem Answers.dispatched (h : Answers env argv c c' quit shutdown) :
    c'.history.dispatched = c.history.dispatched ++ [⟨argv, quit, shutdown⟩] ∧
      c'.history.received = c.history.received ∧ c'.parser = c.parser := by
  obtain ⟨s, tx, w, -, rfl, rfl, rfl⟩ := h.result
  exact ⟨rfl, rfl, rfl⟩

/-- What is left after a command. -/
theorem Pending.answers (hne : argv ≠ []) (hc : Pending (argv :: cmds) c)
    (h : Answers env argv c c' quit shutdown) :
    Parsed c' ∧ c'.history.dispatched.dropLast = c.history.dispatched ∧
      c'.history.dispatched.map Dispatched.argv ++ cmds.filter (· ≠ []) =
        streamCommands c'.history.received := by
  obtain ⟨hdispatched, hreceived, hparser⟩ := h.dispatched
  refine ⟨⟨hparser ▸ hc.parsed.error, ?_⟩, ?_, ?_⟩
  · rw [hreceived, hparser]
    exact hc.parsed.drained
  · rw [hdispatched, dropLast_concat]
  · have hrest := hc.rest
    rw [filter_cons_of_pos (by simpa using hne)] at hrest
    rw [hdispatched, hreceived, map_append, map_singleton, append_assoc, singleton_append, hrest]

end Answers

/-- The loop over the commands. -/
theorem serves_pending (env : Env) : Serves env Pending Tracked where
  done _ hc := ⟨hc.parsed, hc.executed⟩
  skip _ _ hc := ⟨hc.parsed, hc.going, hc.rest⟩
  last argv cmds c c' quit shutdown hne hc h hended := by
    obtain ⟨hparsed, hdrop, hrest⟩ := hc.answers hne h
    refine ⟨hparsed, ⟨_, hrest⟩, fun d hd => hc.going d (hdrop ▸ hd), .inr ?_⟩
    refine ⟨⟨argv, quit, shutdown⟩, ?_, hended⟩
    rw [h.dispatched.1, getLast?_concat]
  next argv cmds c c' hne hc h := by
    obtain ⟨hparsed, -, hrest⟩ := hc.answers hne h
    refine ⟨hparsed, fun d hd => ?_, hrest⟩
    rw [h.dispatched.1] at hd
    rcases mem_append.1 hd with hd | hd
    · exact hc.going d hd
    · rw [mem_singleton.1 hd]
      exact ⟨rfl, rfl⟩

/-! ## Runs -/

/-- Output does not matter. -/
theorem executed_undisturbed : Undisturbed Executed where
  send _ _ hc := ⟨hc.inOrder, hc.going, hc.complete⟩
  interest _ _ hc := ⟨hc.inOrder, hc.going, hc.complete⟩

/-- Nor for the parser. -/
theorem tracked_undisturbed : Undisturbed Tracked where
  send c n hc := ⟨⟨hc.parsed.error, hc.parsed.drained⟩, executed_undisturbed.send c n hc.executed⟩
  interest c b hc :=
    ⟨⟨hc.parsed.error, hc.parsed.drained⟩, executed_undisturbed.interest c b hc.executed⟩

/-- Nothing was read yet. -/
theorem tracked_fresh (id : ℕ) : Tracked (.fresh id) :=
  ⟨⟨rfl, [], rfl⟩, executed_of_all (fun _ hd => absurd hd not_mem_nil) rfl⟩

/-- The course of a connection. -/
theorem course_tracked : Course (fun _ => Tracked) Executed Tracked where
  output := tracked_undisturbed
  closing := executed_undisturbed
  fresh _ := tracked_fresh
  starts _ _ hc := hc
  settled _ _ hc := hc.1
  stopping _ hc := hc
  destroyed _ hc := hc.executed

/-- A call of `OnReadable` loses nothing: the connection has run neither `QUIT` nor `SHUTDOWN`, the
lines of its stream are within their limits, and so is what is buffered, and if the reading ends
with a protocol error, the end of the input, or a failure, then no command was completed in this
call. -/
def losesNothing (c : Connection) (reads : List ReadResult) : Bool :=
  match readLoop reads ⟨c.parser, [], []⟩ with
  | none => true
  | some (r, e) =>
    c.history.dispatched.all (fun d => !d.quit && !d.shutdown) &&
      decide (LinesFit (c.history.received ++ r.received)) &&
      decide (c.parser.buf.length + r.received.length ≤ kMaxBulkBytes) &&
      (decide (e = .drained) || r.parsedCmds.all (· = []))

/-- The event that is handled next loses nothing. -/
def readsWhole (m : Machine) : Bool :=
  match m.point with
  | .handling (.conn .read (some h) reads _ :: _) =>
    (m.reactor.conns.lookup h.fd).all fun c => losesNothing c reads
  | _ => true

/-- What was read, in a call that loses nothing. -/
theorem reads_tracked {writes : List WriteResult} (hc : Tracked c)
    (hloses : losesNothing c reads = true) (h : readLoop reads ⟨c.parser, [], []⟩ = some (r, e)) :
    Reads env (fun _ => True) Tracked Executed writes c r e := by
  unfold losesNothing at hloses
  rw [h] at hloses
  dsimp only at hloses
  rw [Bool.and_eq_true, Bool.and_eq_true, Bool.and_eq_true] at hloses
  obtain ⟨⟨⟨hgoing, hfit⟩, hlen⟩, hend⟩ := hloses
  have hgoing : ∀ d ∈ c.history.dispatched, d.quit = false ∧ d.shutdown = false := by
    intro d hd
    have hd := all_eq_true.1 hgoing d hd
    rwa [Bool.and_eq_true, Bool.not_eq_true', Bool.not_eq_true'] at hd
  obtain ⟨hcommands, hparsed⟩ :=
    hc.parsed.receive (of_decide_eq_true hfit) (of_decide_eq_true hlen) h
  have hrest : c.history.dispatched.map Dispatched.argv ++ r.parsedCmds.filter (· ≠ []) =
      streamCommands (c.history.received ++ r.received) := by
    rw [hcommands, hc.executed.all hgoing]
  -- Without commands of this call, everything was dispatched before.
  have hlost : e ≠ .drained → Executed (c.receive r) := by
    intro he
    rw [decide_eq_false he, Bool.false_or] at hend
    have hnone : r.parsedCmds.filter (· ≠ []) = [] := by
      refine filter_eq_nil_iff.2 fun argv hargv => ?_
      have hempty := of_decide_eq_true (all_eq_true.1 hend argv hargv)
      rw [hempty]
      decide
    rw [hnone, append_nil] at hrest
    exact executed_of_all hgoing hrest
  cases e with
  | refused =>
    have hexecuted := hlost nofun
    exact ⟨⟨hexecuted.inOrder, hexecuted.going, hexecuted.complete⟩, fun _ => trivial⟩
  | hangup => exact hlost nofun
  | drained =>
    exact ⟨Pending, serves_pending env, ⟨hparsed nofun, hgoing, hrest⟩, fun _ _ _ _ => trivial⟩

/-- What the test ensures. -/
theorem ensures_tracked (env : Env) :
    Ensures env (fun _ => Tracked) Tracked Executed readsWhole := by
  intro m e rest hm hpoint h reads writes c he hc htracked r end_ hloop
  refine reads_tracked htracked ?_ hloop
  unfold readsWhole at hm
  rw [hpoint, he] at hm
  dsimp only at hm
  rw [hc.lookup, Option.all_some] at hm
  exact hm

/-- In every run whose calls of `OnReadable` lose nothing, for every connection that is there or was
destroyed, the commands that were passed to `Dispatch` are those of the bytes that were read from
it, however these were cut: every complete command before the first protocol error, each once and in
order, up to the first after which the connection is to be closed or the server is to stop. -/
theorem run_executes_stream {polls : ℕ → Poll} {n : ℕ} {m₀ m : Machine} (hm : m₀.Initial)
    (hmeets : Process.meets (step env polls) readsWhole n m₀ = true)
    (hrun : run env polls n m₀ = .ok m) {c : Connection}
    (hc : (∃ fd, m.reactor.conns.lookup fd = some c) ∨ c ∈ m.reactor.gone) :
    c.history.dispatched.map Dispatched.argv <+: streamCommands c.history.received ∧
      (∀ d ∈ c.history.dispatched.dropLast, d.quit = false ∧ d.shutdown = false) ∧
      (c.history.dispatched.map Dispatched.argv = streamCommands c.history.received ∨
        ∃ d, c.history.dispatched.getLast? = some d ∧ (d.quit = true ∨ d.shutdown = true)) := by
  have hall : Everyone (fun _ => Tracked) Executed m.reactor :=
    run_keeps course_tracked (ensures_tracked env) hm hmeets hrun
  have hexecuted : Executed c := hall.of_mem (fun _ _ hc => hc.executed) (fun _ hc => hc) hc
  exact ⟨hexecuted.inOrder, hexecuted.going, hexecuted.complete⟩

/-- A stream that is cut within a command, and ends with a protocol error. -/
def cutInTwo : ℕ → Poll :=
  batches [[.listen [.accepted 5, .again]],
    [.conn .read (some ⟨5, 1⟩) [.ofBytes (bytes "PING\r\nPI")] [.wrote 7]],
    [.conn .read (some ⟨5, 1⟩) [.interrupted, .ofBytes (bytes "NG\r\n")] [.wrote 7]],
    [.conn .read (some ⟨5, 1⟩) [.ofBytes (bytes "*x\r\n")] [.wrote 100]]]

/-- The same stream, all at once. -/
def allAtOnce : ℕ → Poll :=
  batches [[.listen [.accepted 5, .again]],
    [.conn .read (some ⟨5, 1⟩) [.ofBytes (bytes "PING\r\nPING\r\n*x\r\n")] [.wrote 100]]]

/-- The commands are those of the stream. -/
theorem run_executes_stream_cut : ∃ m c, run stillEnv cutInTwo 11 freshMachine = .ok m ∧
    c ∈ m.reactor.gone ∧ c.history.received = bytes "PING\r\nPING\r\n*x\r\n" ∧
    c.history.dispatched.map Dispatched.argv <+: streamCommands c.history.received := by
  obtain ⟨m, hrun, hm⟩ := exists_ok_of_any
    (p := fun m : Machine => m.reactor.gone.any fun c : Connection =>
      decide (c.history.received = bytes "PING\r\nPING\r\n*x\r\n"))
    (x := run stillEnv cutInTwo 11 freshMachine) (by decide +kernel)
  obtain ⟨c, hc, hreceived⟩ := any_eq_true.1 hm
  have hstream := run_executes_stream freshMachine_initial (by decide +kernel) hrun (.inr hc)
  exact ⟨m, c, hrun, hc, of_decide_eq_true hreceived, hstream.1⟩

/-- The commands of a stream depend on how it is cut: those that come in the same call as a protocol
error are lost. -/
theorem commands_lost : ∃ m c m' c', run stillEnv cutInTwo 11 freshMachine = .ok m ∧
    run stillEnv allAtOnce 5 freshMachine = .ok m' ∧ c ∈ m.reactor.gone ∧ c' ∈ m'.reactor.gone ∧
    c.history.received = c'.history.received ∧
    c.history.dispatched.map Dispatched.argv = [[bytes "PING"], [bytes "PING"]] ∧
    c'.history.dispatched.map Dispatched.argv = [] := by
  obtain ⟨m, hrun, hm⟩ := exists_ok_of_any
    (p := fun m : Machine => m.reactor.gone.any fun c : Connection =>
      decide (c.history.received = bytes "PING\r\nPING\r\n*x\r\n") &&
        decide (c.history.dispatched.map Dispatched.argv = [[bytes "PING"], [bytes "PING"]]))
    (x := run stillEnv cutInTwo 11 freshMachine) (by decide +kernel)
  obtain ⟨m', hrun', hm'⟩ := exists_ok_of_any
    (p := fun m : Machine => m.reactor.gone.any fun c : Connection =>
      decide (c.history.received = bytes "PING\r\nPING\r\n*x\r\n") &&
        decide (c.history.dispatched.map Dispatched.argv = []))
    (x := run stillEnv allAtOnce 5 freshMachine) (by decide +kernel)
  obtain ⟨c, hc, hcut⟩ := any_eq_true.1 hm
  obtain ⟨c', hc', hwhole⟩ := any_eq_true.1 hm'
  rw [Bool.and_eq_true] at hcut hwhole
  refine ⟨m, c, m', c', hrun, hrun', hc, hc', ?_, of_decide_eq_true hcut.2,
    of_decide_eq_true hwhole.2⟩
  rw [of_decide_eq_true hcut.1, of_decide_eq_true hwhole.1]

end TinyRedis.EventLoop

import TinyRedis.Commands.Rules.Basic

/-!
# Server commands obey the rules

`CONFIG SET maxmemory` and `CLIENT SETNAME` read an argument that the arity check does not ask for,
which is a fault unless it is there.
-/

namespace TinyRedis.Commands

open Lib Resp

variable {r : Rules} {argv : Args} {n : ℕ}

/-- An error with a fixed text. -/
theorem fails_replyError {s : Bytes} (hs : OneLine s) : Fails (replyError s) := ⟨s, rfl, hs⟩

/-! ## The connection -/

/-- `PING`. -/
theorem obeys_ping : Obeys r .start (ping argv) Finished := by
  refine .argIf (fun hlen => by omega) fun s => ?_
  cases s with
  | none => exact .done (utters_replySimple (by decide))
  | some s => exact .done (utters_replyBulk s)

/-- `ECHO`. -/
theorem obeys_echo (h : r.Serves argv 2) : Obeys r .start (echo argv) Finished :=
  h.arg fun s _ => .done (utters_replyBulk s)

/-- `SELECT`. -/
theorem obeys_select (h : r.Serves argv 2) (hmoves : r.moves = true) :
    Obeys r .start (select argv) Finished := by
  have hrange : Obeys r .start (replyError (bytes "ERR DB index is out of range")) Finished :=
    h.fail (fails_replyError (by decide))
  refine h.arg fun s _ => ?_
  cases parseIntStrict s with
  | none => exact hrange
  | some idx =>
    dsimp only
    split_ifs with hidx
    · refine (Obeys.select (Q := fun _ p => p.answer = .none) hmoves rfl rfl rfl).bind
        fun _ p hp => ?_
      exact .finish (utters_replySimple (by decide)) hp
    · exact hrange

/-- `AUTH`. -/
theorem obeys_auth (h : r.Serves argv n) : Obeys r .start auth Finished :=
  h.fail (fails_replyError (by decide))

/-- `QUIT`. -/
theorem obeys_quit (hquits : r.quits = true) : Obeys r .start quit Finished := by
  refine (Obeys.session (g := fun s => { s with quitRequested := true })
    (Q := fun _ p => p.answer = .none) (fun _ => rfl) (.inl hquits) rfl).bind fun _ p hp => ?_
  exact .finish (utters_replySimple (by decide)) hp

/-- `HELLO`. -/
theorem obeys_hello (h : r.Serves argv n) : Obeys r .start (hello argv) Finished := by
  refine .argIf (fun hlen => by omega) fun s => ?_
  refine .ite (fun _ => ?_) fun _ => ?_
  · exact h.fail (fails_replyError (by decide))
  · exact .replyArray (n := 14) rfl (.replyBulks rfl)

/-- `COMMAND`. -/
theorem obeys_command : Obeys r .start command Finished := .done utters_replyEmptyArray

/-! ## The server -/

/-- `DBSIZE`. -/
theorem obeys_dbsize (hwhole : r.whole = true) : Obeys r .start dbsize Finished :=
  .table_bind hwhole fun _ => .done (utters_replyInt _)

/-- A step on all keys, and then `OK`. -/
theorem obeys_flush (hloose : r.loose = true) (hw : r.writes = true) {f : World → Database}
    (hf : ∀ w, r.keeps w.db → r.keeps (f w)) : Obeys r .start (do
      modify fun w => { w with db := f w }
      replySimple (bytes "OK")) Finished := by
  have honly : OnlyDb (modify fun w => { w with db := f w } : M Unit) := by
    intro w a w' hm
    cases hm
    exact ⟨rfl, rfl, le_refl _⟩
  refine (Obeys.loose (Q := fun _ p => p.answer = .none) hloose honly (Safe.modify hf)
    (Phase.mayWrite_start hw) fun _ => rfl).bind fun _ p hp => ?_
  exact .finish (utters_replySimple (by decide)) hp

/-- `FLUSHDB`. -/
theorem obeys_flushdb (hloose : r.loose = true) (hw : r.writes = true) :
    Obeys r .start flushdb Finished :=
  obeys_flush hloose hw fun _ hdb => r.stable.flushDb _ _ hdb

/-- `FLUSHALL`. -/
theorem obeys_flushall (hloose : r.loose = true) (hw : r.writes = true) :
    Obeys r .start flushall Finished := by
  refine obeys_flush hloose hw fun w hdb => ?_
  -- One table after another is flushed.
  have hfold : ∀ (l : List DbIndex) (db : Database), r.keeps db →
      r.keeps (l.foldl Database.flushDb db) := by
    intro l
    induction l with
    | nil => exact fun db hdb => hdb
    | cons i l ih => exact fun db hdb => ih _ (r.stable.flushDb db i hdb)
  exact hfold _ w.db hdb

/-- `TIME`. -/
theorem obeys_time : Obeys r .start (time r.env) Finished := by
  refine .idle (idle_nowUs r.env) (Phase.settled rfl) fun us _ => .replyArray (n := 2) rfl ?_
  refine .element_bind (utters_replyBulk _) rfl ?_
  exact .element (utters_replyBulk _) rfl (.inr rfl)

/-- `ROLE`. -/
theorem obeys_role : Obeys r .start role Finished := by
  refine .replyArray (n := 3) rfl ?_
  refine .element_bind (utters_replyBulk _) rfl (.element_bind (utters_replyInt 0) rfl ?_)
  exact .inner (n := 0) (k := 0) (fun out => List.append_assoc out _ _) rfl (.inr rfl)

/-- `WAIT`. -/
theorem obeys_wait : Obeys r .start wait Finished := .done (utters_replyInt 0)

/-- `LASTSAVE`. -/
theorem obeys_lastsave (hwhole : r.whole = true) : Obeys r .start lastsave Finished :=
  .get_bind hwhole fun _ => .done (utters_replyInt _)

/-- A snapshot, which may fail. -/
theorem obeys_saveWith {outcome : ℕ → Option Bytes} {reply : Bytes}
    (herr : ∀ n s, outcome n = some s → s ∈ r.text) (hreply : OneLine reply) :
    Obeys r .start (saveWith r.env outcome reply) Finished := by
  refine .idle .tick (Phase.settled rfl) fun n _ => ?_
  cases hn : outcome n with
  | some s => exact .error (herr n s hn) (.inl rfl) rfl (.inl rfl)
  | none =>
    refine Obeys.bind (Q := fun _ p => p.answer = .none) ?_ fun _ p hp =>
      .finish (utters_replySimple hreply) hp
    refine .idle .tick (Phase.settled rfl) fun t _ => .aside ⟨fun _ => rfl,
      fun _ => ⟨rfl, rfl, rfl⟩, fun _ => ⟨rfl, rfl⟩, ?_⟩ rfl
    exact fun _ _ h _ => ⟨h, rfl⟩

/-- `SAVE`. -/
theorem obeys_save (herr : ∀ n s, r.env.saveToFile n = some s → s ∈ r.text) :
    Obeys r .start (save r.env) Finished := obeys_saveWith herr (by decide)

/-- `BGSAVE`. -/
theorem obeys_bgsave (herr : ∀ n s, r.env.bgSaveFork n = some s → s ∈ r.text) :
    Obeys r .start (bgsave r.env) Finished := obeys_saveWith herr (by decide)

/-- `BGREWRITEAOF`. -/
theorem obeys_bgrewriteaof : Obeys r .start bgrewriteaof Finished :=
  .done (utters_replySimple (by decide))

/-- The uptime is computed from the clock. -/
theorem idle_uptimeS (env : Env) (t : Int64) : Idle (uptimeS env t) fun _ => True :=
  .ite (fun _ => .bind (idle_nowUs env) fun _ _ => .bind (idle_checked _) fun _ _ => .pure trivial)
    fun _ => .pure trivial

/-- `INFO`. -/
theorem obeys_info (hwhole : r.whole = true) : Obeys r .start (info r.env argv) Finished := by
  refine .argIf (fun hlen => by omega) fun s => ?_
  refine Obeys.bind (Q := fun _ p => p.answer = .none) ?_ fun text p hp =>
    .finish (utters_replyBulk text) hp
  exact .get_bind hwhole fun w => .idle (idle_uptimeS r.env _) (Phase.settled rfl) fun _ _ =>
    .pure rfl

/-! ## Administration -/

/-- `SHUTDOWN` replies nothing but errors. -/
theorem obeys_shutdown (h : r.Serves argv n) :
    Obeys r .start (shutdown argv) fun _ p => p.answer = .failed ∨ p.answer = .none := by
  refine .argIf (fun hlen => by omega) fun s => ?_
  refine .ite (fun _ => ?_) fun _ =>
    .aside ⟨fun _ => rfl, fun _ => ⟨rfl, rfl, rfl⟩, fun _ => ⟨rfl, rfl⟩,
      fun _ _ h h' => ⟨h, h'⟩⟩ (.inr rfl)
  exact .error (h.lines _ (by decide)) (.inl rfl) rfl (.inl rfl)

/-- The error of `CONFIG GET`. -/
def configGetText (param : Bytes) : Bytes :=
  bytes "ERR Unknown option or number of arguments for CONFIG GET -- '" ++ param ++ bytes "'"

/-- The error of `CONFIG SET`. -/
def configSetText (param : Bytes) : Bytes := bytes "ERR Unsupported CONFIG parameter: " ++ param

/-- The error of `CLIENT`. -/
def clientText (sub : Bytes) : Bytes :=
  bytes "ERR Unknown CLIENT subcommand or wrong number of arguments for '" ++ sub ++ bytes "'"

/-- `CONFIG GET`. -/
theorem obeys_configGet (h : r.Serves argv 3) (hwhole : r.whole = true)
    (htext : ∀ s, argv[2]? = some s → configGetText (toLower s) ∈ r.text) :
    Obeys r .start (configGet r.env argv) Finished := by
  refine h.arg fun s hs => .get_bind hwhole fun w => ?_
  have hreply : ∀ v, Obeys r .start (replyBulkArray [toLower s, v]) Finished := fun v =>
    .done (utters_replyBulkArray _)
  refine .ite (fun _ => hreply _) fun _ => .ite (fun _ => hreply _) fun _ => ?_
  refine .ite (fun _ => hreply _) fun _ => .ite (fun _ => hreply _) fun _ => ?_
  refine .ite (fun _ => hreply _) fun _ => .ite (fun _ => hreply _) fun _ => ?_
  refine .ite (fun _ => hreply _) fun _ => ?_
  exact .error (htext s hs) (.inl rfl) rfl (.inl rfl)

/-- `CONFIG SET maxmemory` reads `argv[3]`. -/
theorem obeys_configSet (h : r.Serves argv 3)
    (htext : ∀ s, argv[2]? = some s → configSetText (toLower s) ∈ r.text)
    (hmax : toLower (argv.getD 2 []) = bytes "maxmemory" → argv.length ≤ 3 →
      r.faults (.argvIndex 3)) : Obeys r .start (configSet argv) Finished := by
  refine h.arg fun s hs => .ite (fun hparam => ?_) fun _ => ?_
  · rw [List.getD_eq_getElem?_getD, hs, Option.getD_some] at hmax
    refine .arg (hmax hparam) fun v _ => ?_
    cases parseIntStrict v with
    | none => exact h.fail fails_errNotInt
    | some cap =>
      refine .ite (fun _ => h.fail fails_errNotInt) fun _ => ?_
      refine Obeys.bind (Q := fun _ p => p.answer = .none) (.aside ⟨fun _ => rfl,
        fun _ => ⟨rfl, rfl, rfl⟩, fun _ => ⟨rfl, rfl⟩, fun _ _ _ h => ⟨rfl, h⟩⟩ rfl)
        fun _ p hp => ?_
      exact .finish (utters_replySimple (by decide)) hp
  · exact .error (htext s hs) (.inl rfl) rfl (.inl rfl)

/-- `CONFIG`. -/
theorem obeys_config (h : r.Serves argv 3) (hwhole : r.whole = true)
    (hget : ∀ s, argv[2]? = some s → configGetText (toLower s) ∈ r.text)
    (hset : ∀ s, argv[2]? = some s → configSetText (toLower s) ∈ r.text)
    (hmax : toUpper (argv.getD 1 []) = bytes "SET" → toLower (argv.getD 2 []) = bytes "maxmemory" →
      argv.length ≤ 3 → r.faults (.argvIndex 3)) :
    Obeys r .start (config r.env argv) Finished := by
  refine h.arg fun s hs => ?_
  rw [List.getD_eq_getElem?_getD, hs, Option.getD_some] at hmax
  refine .ite (fun _ => obeys_configGet h hwhole hget) fun _ => ?_
  refine .ite (fun hsub => obeys_configSet h hset (hmax hsub)) fun _ => ?_
  exact h.fail fails_errSyntax

/-- `CLIENT SETNAME` reads `argv[2]`. -/
theorem obeys_client (h : r.Serves argv 2) (hwhole : r.whole = true)
    (htext : ∀ s, argv[1]? = some s → clientText (toLower s) ∈ r.text)
    (hname : toUpper (argv.getD 1 []) = bytes "SETNAME" → argv.length ≤ 2 →
      r.faults (.argvIndex 2)) : Obeys r .start (client r.env argv) Finished := by
  refine h.arg fun s hs => ?_
  rw [List.getD_eq_getElem?_getD, hs, Option.getD_some] at hname
  refine .get_bind hwhole fun w => .ite (fun _ => .done (utters_replyInt _)) fun _ => ?_
  refine .ite (fun _ => ?_) fun _ => .ite (fun hsub => ?_) fun _ => ?_
  · refine .ite (fun _ => .done utters_replyNullBulk) fun _ => ?_
    exact .done (utters_replyBulk _)
  · refine .arg (hname hsub) fun name _ => ?_
    refine (Obeys.session (g := fun s => { s with name := name }) (Q := fun _ p => p.answer = .none)
      (fun _ => rfl) (.inr fun _ => rfl) rfl).bind fun _ p hp => ?_
    exact .finish (utters_replySimple (by decide)) hp
  refine .ite (fun _ => .done (utters_replyBulk _)) fun _ => ?_
  refine .ite (fun _ => .done (utters_replyBulk _)) fun _ => ?_
  exact .error (htext s hs) (.inl rfl) rfl (.inl rfl)

/-- `MEMORY`. -/
theorem obeys_memory (h : r.Serves argv 3) : Obeys r .start (memory r.env argv) Finished := by
  refine h.arg fun s _ => .ite (fun _ => ?_) fun _ => ?_
  · refine h.arg fun key hkey => ?_
    refine .lookup_bind (h.keys 1 key hkey) (.inl rfl) (fun _ => ?_) fun e _ _ => ?_
    · exact .done utters_replyNullBulk
    · exact .done (utters_replyInt _)
  · exact h.fail (fails_replyError (by decide))

end TinyRedis.Commands

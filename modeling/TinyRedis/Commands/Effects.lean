import TinyRedis.Commands.Rules.Dispatch

/-!
# What commands leave alone

A command that replies an error has changed nothing, a command that is not in the list of
`IsWriteCommand` changes nothing, and every other command changes only the entries under the keys it
was given. In all three cases entries may still disappear because their deadline has come.
-/

namespace TinyRedis.Commands

open Lib Resp List

variable {env : Env} {depth i : ℕ} {argv : Args} {tx tx' : Tx} {w w' : World} {c : Cmd}
  {lower b s : Bytes}

/-- Rules that forbid nothing. -/
def freeRules (env : Env) : Rules :=
  (invariant_true (E := fun _ => True) fun _ _ => trivial).rules env fun _ _ => True

/-- They are free, with whatever they forbid in addition. -/
theorem free_of_true {keys text : Set Bytes} {writes lax blind whole loose moves quits : Bool}
    {hstable : Stable (fun _ => True) (fun _ => True) fun _ => True}
    {hassigns : Assigns (fun _ => True) (fun _ => True) → Assigns (fun _ => True) fun _ => True} :
    Rules.Free ⟨env, keys, text, writes, lax, blind, whole, loose, moves, quits, fun _ => True,
      fun _ => True, fun _ => True, fun _ _ => True, Assigns (fun _ => True) fun _ => True, hstable,
      hassigns⟩ :=
  ⟨fun _ => trivial, fun _ => trivial, fun _ => trivial, fun _ _ => trivial,
    fun _ _ _ _ _ _ _ _ => trivial⟩

/-- They permit every command. -/
theorem freeRules_permits : (freeRules env).Permits c argv := Stable.permits _

/-- Rules that forbid nothing but errors of more than one line. -/
def lineRules (env : Env) : Rules := { freeRules env with text := {s | OneLine s} }

/-- They allow every command, if what `CONFIG` and `CLIENT` repeat are lines. -/
theorem permits_lines (hsave : c = .save → ∀ n s, env.saveToFile n = some s → OneLine s)
    (hbgsave : c = .bgsave → ∀ n s, env.bgSaveFork n = some s → OneLine s)
    (hconfig : c = .config → ∀ s, argv[2]? = some s → OneLine s)
    (hclient : c = .client → ∀ s, argv[1]? = some s → OneLine s) :
    (lineRules env).Permits c argv where
  keys _ _ _ := trivial
  lines _ hs := hs
  save := hsave
  bgsave := hbgsave
  config hc s hs := by
    have hline := oneLine_toLower_iff.2 (hconfig hc s hs)
    exact ⟨line_append_iff.2 ⟨line_append_iff.2 ⟨by decide, hline⟩, by decide⟩,
      line_append_iff.2 ⟨by decide, hline⟩⟩
  client hc s hs := by
    have hline := oneLine_toLower_iff.2 (hclient hc s hs)
    exact line_append_iff.2 ⟨line_append_iff.2 ⟨by decide, hline⟩, by decide⟩
  writes _ := rfl
  lax _ := rfl
  blind _ := rfl
  whole _ := rfl
  loose _ := rfl
  moves _ := rfl
  quits _ := rfl

/-! ## Calls -/

/-- A call of another command than `EXEC` runs at most one handler. -/
theorem reacts_of_ne_exec (hne : commandOf argv ≠ some .exec)
    (hrun : dispatch env depth argv tx w = .ok (((), tx'), w')) : Reacts env argv tx w tx' w' := by
  cases depth with
  | zero => cases hrun
  | succ depth => exact (dispatch_reacts hrun).resolve_right fun hexec => hne hexec.exec

/-- What holds from the state before a handler or a queue to that after it holds of every call. -/
theorem dispatch_rel {R : World → World → Prop} (hrefl : ∀ w, R w w)
    (htrans : ∀ {w₁ w₂ w₃}, R w₁ w₂ → R w₂ w₃ → R w₁ w₃)
    (hreacts : ∀ {argv tx w tx' w'}, Reacts env argv tx w tx' w' → R w w')
    (hheader : ∀ tx w, R w (execHeader tx w))
    (hrun : dispatch env depth argv tx w = .ok (((), tx'), w')) : R w w' := by
  induction depth generalizing argv tx w tx' w' with
  | zero => cases hrun
  | succ depth ih =>
    rcases dispatch_reacts hrun with h | hexec
    · exact hreacts h
    · exact htrans (hheader tx w) (runQueue_invariant (I := fun _ w₁ => R (execHeader tx w) w₁)
        (fun _ _ _ _ _ _ h hrun => htrans h (ih hrun)) (hrefl _) hexec.queue)

/-! ## Entries -/

/-- From the reading `i` of the clock to the reading `j`, an entry that did not expire kept its
value and its deadline, and no entry was created or changed. -/
structure Undisturbed (env : Env) (i j : ℕ) (db db' : Database) : Prop where
  kept : ∀ d key e, (db.table d).lookup key = some e →
    (∀ n, i ≤ n → n < j → Database.expired e (env.nowMs n) = false) →
    (db'.table d).lookup key = some e
  nothingNew : ∀ d key e, (db'.table d).lookup key = some e → (db.table d).lookup key = some e

/-- Entries that disappear only when their deadline has come. -/
theorem Aged.undisturbed {j : ℕ} {db db' : Database} (h : Aged env i j db db') :
    Undisturbed env i j db db' := by
  refine ⟨fun d key e he hlive => ?_, fun d key e he => ?_⟩
  · rcases h d key with h | ⟨e', n, he', hi, hj, hexp, -⟩
    · exact h.trans he
    · cases he.symm.trans he'
      rw [hlive n hi hj] at hexp
      cases hexp
  · rcases h d key with h | ⟨e', n, -, -, -, -, hnone⟩
    · exact h.symm.trans he
    · rw [hnone] at he
      cases he

/-- What does not touch the database leaves it undisturbed. -/
theorem Undisturbed.refl (env : Env) (i j : ℕ) (db : Database) : Undisturbed env i j db db :=
  (Aged.refl env i j db).undisturbed

/-! ## Errors -/

/-- A reply that begins as an error does is one. -/
theorem Respects.failed_of_error {r : Rules} {p : Phase} (h : Respects r w p w')
    (hp : p.answer = .failed ∨ p.answer = .left 0 ∨ p.answer = .none)
    (hb : w'.out = w.out ++ 45 :: b) : p.answer = .failed := by
  obtain ⟨b', hout, hb'⟩ := h.answer
  have hbb' : b' = 45 :: b := append_cancel_left (hout.symm.trans hb)
  rcases hp with hp | hp | hp
  · exact hp
  · rw [hp] at hb'
    obtain ⟨v, -, hv, hencode⟩ := Reply.Partial.complete hb'
    exact absurd (hencode.symm.trans hbb') (Reply.encode_ne_error hv b)
  · rw [hp] at hb'
    cases hb'
    cases hbb'

/-- A reply that is a line of text is no error. -/
theorem appendSimpleReply_ne_error {out : Bytes} : appendSimpleReply out s ≠ out ++ 45 :: b := by
  intro h
  unfold appendSimpleReply at h
  rw [append_assoc] at h
  exact absurd (List.cons.inj (append_cancel_left h)).1 (by decide)

/-- A command that replies an error has changed nothing. -/
theorem runCommand_failed (hlower : OneLine lower) (hc : repliesLate c = false)
    (hrun : runCommand env c lower argv w = .ok ((), w')) (hb : w'.out = w.out ++ 45 :: b) :
    Aged env w.tick w'.tick w.db w'.db ∧ w'.cs.dbIndex = w.cs.dbIndex := by
  have hpermits : Rules.Permits { freeRules env with lax := false } c argv :=
    { freeRules_permits with lax := fun h => absurd h (by rw [hc]; nofun) }
  obtain ⟨p, hp, h⟩ := holds_runCommand hpermits free_of_true hlower hrun
  have hfailed := h.failed_of_error (hp.imp_right (Or.imp_right And.right)) hb
  have hclean : p.stage = .clean := (h.failed hfailed).resolve_right fun hc => by cases hc
  refine ⟨h.aged ?_, h.index (Phase.stage_ne_moved hclean)⟩
  rw [hclean]
  exact fun hc => by cases hc

/-- A failed command leaves the data intact: every entry that does not expire meanwhile keeps its
value and its deadline, no entry is created, and the key space and the state of the transaction are
as before, but that a transaction may be marked as failed. -/
theorem dispatch_failed {b : Bytes}
    (hcmd : ∀ c, commandOf argv = some c → c ≠ .exec ∧ repliesLate c = false)
    (hrun : dispatch env depth argv tx w = .ok (((), tx'), w'))
    (hb : w'.out = w.out ++ 45 :: b) :
    Undisturbed env w.tick w'.tick w.db w'.db ∧ w'.cs.dbIndex = w.cs.dbIndex ∧
      (tx' = tx ∨ (tx.inMulti = true ∧ tx' = { tx with multiError := true })) := by
  cases reacts_of_ne_exec (fun hexec => (hcmd _ hexec).1 rfl) hrun with
  | nothing =>
    have hnil := append_cancel_left ((append_nil w.out).trans hb)
    cases hnil
  | unknown ha =>
    refine ⟨.refl _ _ _ _, rfl, ?_⟩
    split_ifs with hin
    · exact .inr ⟨hin, rfl⟩
    · exact .inl rfl
  | arity ha hok =>
    refine ⟨.refl _ _ _ _, rfl, ?_⟩
    split_ifs with hin
    · exact .inr ⟨((Bool.and_eq_true _ _).mp hin).1, rfl⟩
    · exact .inl rfl
  | queued ha hok hin => exact absurd hb appendSimpleReply_ne_error
  | misplaced ha hok hs => exact ⟨.refl _ _ _ _, rfl, .inl rfl⟩
  | accepted ha hok => exact absurd hb appendSimpleReply_ne_error
  | aborted ha hok hc hs => exact absurd hc (hcmd _ (commandOf_cons ha)).1
  | ran ha hok hplain hrun =>
    obtain ⟨haged, hindex⟩ := runCommand_failed (line_of_findCommand ha)
      (hcmd _ (commandOf_cons ha)).2 hrun hb
    exact ⟨haged.undisturbed, hindex, .inl rfl⟩

/-- A world with the string `v` under the key `k`. -/
def stringWorld : World :=
  let w := freshServer.world 0
  { w with db := w.db.set w.cs.dbIndex (bytes "k") (.rawString (bytes "v")) 0 }

/-- `LPUSH` to a string. -/
theorem dispatch_failed_lpush : ∃ tx' w' b,
    dispatch stillEnv 2 [bytes "LPUSH", bytes "k", bytes "x"] .idle stringWorld =
      .ok (((), tx'), w') ∧ w'.out = stringWorld.out ++ 45 :: b ∧
    Undisturbed stillEnv stringWorld.tick w'.tick stringWorld.db w'.db ∧
      w'.cs.dbIndex = stringWorld.cs.dbIndex ∧
      (tx' = .idle ∨ (Tx.idle.inMulti = true ∧ tx' = { Tx.idle with multiError := true })) := by
  obtain ⟨⟨⟨⟨⟩, tx'⟩, w'⟩, hrun, hout⟩ := exists_ok_of_any
    (p := fun x : (Unit × Tx) × World => decide (x.2.out.head? = some 45))
    (x := dispatch stillEnv 2 [bytes "LPUSH", bytes "k", bytes "x"] .idle stringWorld)
    (by decide +kernel)
  obtain ⟨b, hb⟩ := head?_eq_some_iff.1 (of_decide_eq_true hout)
  have hcmd : ∀ c, commandOf [bytes "LPUSH", bytes "k", bytes "x"] = some c →
      c ≠ .exec ∧ repliesLate c = false := by decide +kernel
  exact ⟨tx', w', b, hrun, hb, dispatch_failed hcmd hrun hb⟩

/-! ## Commands that are not write commands -/

/-- A command that is not a write command changes nothing. -/
theorem runCommand_read (hlower : OneLine lower) (hc : isWriteCommand c = false)
    (hrun : runCommand env c lower argv w = .ok ((), w')) : Aged env w.tick w'.tick w.db w'.db := by
  have hpermits : Rules.Permits { freeRules env with writes := false } c argv :=
    { freeRules_permits with writes := fun h => absurd h (by rw [hc]; nofun) }
  obtain ⟨p, -, h⟩ := holds_runCommand hpermits free_of_true hlower hrun
  exact h.aged fun hd => by cases h.writes hd

/-- A call whose command is not a write command, according to `IsWriteCommand`, leaves the entries
of all key spaces alone. -/
theorem dispatch_read
    (hcmd : ∀ c, commandOf argv = some c → isWriteCommand c = false ∧ c ≠ .exec)
    (hrun : dispatch env depth argv tx w = .ok (((), tx'), w')) :
    Undisturbed env w.tick w'.tick w.db w'.db := by
  cases reacts_of_ne_exec (fun hexec => (hcmd _ hexec).2 rfl) hrun with
  | ran ha hok hplain hrun =>
    exact (runCommand_read (line_of_findCommand ha) (hcmd _ (commandOf_cons ha)).1 hrun).undisturbed
  | _ => exact .refl _ _ _ _

/-- `STRLEN`. -/
theorem dispatch_read_strlen : ∃ tx' w',
    dispatch stillEnv 2 [bytes "STRLEN", bytes "k"] .idle stringWorld = .ok (((), tx'), w') ∧
      Undisturbed stillEnv stringWorld.tick w'.tick stringWorld.db w'.db := by
  obtain ⟨⟨⟨⟨⟩, tx'⟩, w'⟩, hrun, -⟩ := exists_ok_of_any (p := fun _ => true)
    (x := dispatch stillEnv 2 [bytes "STRLEN", bytes "k"] .idle stringWorld) (by decide +kernel)
  have hcmd : ∀ c, commandOf [bytes "STRLEN", bytes "k"] = some c →
      isWriteCommand c = false ∧ c ≠ .exec := by decide +kernel
  exact ⟨tx', w', hrun, dispatch_read hcmd hrun⟩

/-! ## Output -/

/-- A command only appends to the output. -/
theorem runCommand_appends (hlower : OneLine lower)
    (hrun : runCommand env c lower argv w = .ok ((), w')) : w.out <+: w'.out := by
  obtain ⟨p, -, h⟩ := holds_runCommand freeRules_permits free_of_true hlower hrun
  obtain ⟨b, hout, -⟩ := h.answer
  exact ⟨b, hout.symm⟩

/-- So does a call that runs at most one handler. -/
theorem Reacts.appends (h : Reacts env argv tx w tx' w') : w.out <+: w'.out := by
  cases h with
  | nothing => exact prefix_refl _
  | ran ha _ _ hrun => exact runCommand_appends (line_of_findCommand ha) hrun
  | _ => exact (prefix_append _ _).trans (prefix_append _ _)

/-- So does every call. -/
theorem dispatch_appends (hrun : dispatch env depth argv tx w = .ok (((), tx'), w')) :
    w.out <+: w'.out :=
  dispatch_rel (R := fun w w' => w.out <+: w'.out) (fun _ => prefix_refl _) .trans
    (fun h => h.appends) (fun _ _ => (prefix_append _ _).trans (prefix_append _ _)) hrun

/-! ## Keys that are not named -/

/-- The keys that a call is given. -/
def namedKeys (argv : Args) : Set Bytes := {key | key ∈ argv.tail}

/-- Every argument is one of them. -/
theorem mem_namedKeys (h : argv[i + 1]? = some s) : s ∈ namedKeys argv := by
  rw [← getElem?_tail] at h
  exact mem_of_getElem? h

/-- A command changes no entry under another key. -/
theorem runCommand_framed (hlower : OneLine lower) (hc : sweepsTable c = false)
    (hrun : runCommand env c lower argv w = .ok ((), w')) :
    w.db.Framed (namedKeys argv) w.cs.dbIndex w'.db := by
  have hpermits :
      Rules.Permits { freeRules env with keys := namedKeys argv, loose := false } c argv :=
    { freeRules_permits with
      keys := fun _ _ hs => mem_namedKeys hs, loose := fun h => absurd h (by rw [hc]; nofun) }
  obtain ⟨p, -, h⟩ := holds_runCommand hpermits free_of_true hlower hrun
  exact h.frame rfl

/-- No command but `SELECT` goes to another key space. -/
theorem runCommand_dbIndex (hlower : OneLine lower) (hc : c ≠ .select)
    (hrun : runCommand env c lower argv w = .ok ((), w')) : w'.cs.dbIndex = w.cs.dbIndex := by
  have hpermits : Rules.Permits { freeRules env with moves := false } c argv :=
    { freeRules_permits with moves := fun h => absurd h hc }
  obtain ⟨p, -, h⟩ := holds_runCommand hpermits free_of_true hlower hrun
  exact h.index fun hm => by cases (h.moved hm).2

/-- `SELECT` goes to the key space in its argument, or stays. -/
theorem select_dbIndex (hrun : select argv w = .ok ((), w')) :
    w'.cs.dbIndex = w.cs.dbIndex ∨
      ∃ s, argv[1]? = some s ∧ parseIntStrict s = some (w'.cs.dbIndex.val : ℤ) := by
  unfold select at hrun
  obtain ⟨s, w₁, harg, hrest⟩ := exists_of_bind hrun
  obtain ⟨hs, rfl⟩ := arg_eq_ok harg
  dsimp only at hrest
  cases hidx : parseIntStrict s with
  | none =>
    rw [hidx] at hrest
    cases hrest
    exact .inl rfl
  | some idx =>
    rw [hidx] at hrest
    dsimp only at hrest
    split_ifs at hrest with hrange
    · cases hrest
      exact .inr ⟨s, hs, hidx.trans (congrArg some (Int.toNat_of_nonneg hrange.1).symm)⟩
    · cases hrest
      exact .inl rfl

/-- It is never refused for want of memory. -/
theorem gated_of_read (hc : isWriteCommand c = false) : gated env c w = false := by
  unfold gated
  rw [hc, Bool.and_false, Bool.false_and, Bool.false_and, Bool.false_and]

/-- A command that is not a write command is run without asking for the memory. -/
theorem runCommand_of_read (hc : isWriteCommand c = false) :
    runCommand env c lower argv w = handler env lower argv c w := by
  unfold runCommand
  rw [gated_of_read hc]
  rfl

/-- A call touches only the entries under the keys it is given, in the key space of the client. It
leaves that key space only for the one that `SELECT` names, which is one of the 16; so no client of
a server is ever outside them. -/
theorem dispatch_touches_named
    (hcmd : ∀ c, commandOf argv = some c → c ≠ .exec ∧ sweepsTable c = false)
    (hrun : dispatch env depth argv tx w = .ok (((), tx'), w')) :
    (∀ j, j ≠ w.cs.dbIndex → w'.db.table j = w.db.table j) ∧
    (∀ key, key ∉ argv.tail →
      (w'.db.table w.cs.dbIndex).lookup key = (w.db.table w.cs.dbIndex).lookup key) ∧
    (w'.cs.dbIndex = w.cs.dbIndex ∨ (commandOf argv = some .select ∧
      ∃ s, argv[1]? = some s ∧ parseIntStrict s = some (w'.cs.dbIndex.val : ℤ))) ∧
    ∀ (events : List Event) (s s' : Server), s.Initial → Server.run env events s = .ok s' →
      ∀ i, (s'.clients i).session.dbIndex.val ≤ 15 := by
  have hrange : ∀ (events : List Event) (s s' : Server), s.Initial →
      Server.run env events s = .ok s' → ∀ i, (s'.clients i).session.dbIndex.val ≤ 15 :=
    fun _ _ s' _ _ i => Nat.le_of_lt_succ (s'.clients i).session.dbIndex.isLt
  cases reacts_of_ne_exec (fun hexec => (hcmd _ hexec).1 rfl) hrun with
  | @ran name args a _ _ _ ha hok hplain hrun =>
    have hline := line_of_findCommand ha
    have hframe := runCommand_framed hline (hcmd _ (commandOf_cons ha)).2 hrun
    refine ⟨hframe.tables, hframe.entries, ?_, hrange⟩
    by_cases hc : a.cmd = .select
    · rw [commandOf_cons ha, hc]
      rw [hc, runCommand_of_read rfl] at hrun
      exact (select_dbIndex hrun).imp_right fun h => ⟨rfl, h⟩
    · exact .inl (runCommand_dbIndex hline hc hrun)
  | _ => exact ⟨fun _ _ => rfl, fun _ _ => rfl, .inl rfl, hrange⟩

/-- `SET` of another key. -/
theorem dispatch_touches_named_set : ∃ tx' w',
    dispatch stillEnv 2 [bytes "SET", bytes "a", bytes "b"] .idle stringWorld =
      .ok (((), tx'), w') ∧
    (w'.db.table stringWorld.cs.dbIndex).lookup (bytes "k") =
      (stringWorld.db.table stringWorld.cs.dbIndex).lookup (bytes "k") := by
  obtain ⟨⟨⟨⟨⟩, tx'⟩, w'⟩, hrun, -⟩ := exists_ok_of_any (p := fun _ => true)
    (x := dispatch stillEnv 2 [bytes "SET", bytes "a", bytes "b"] .idle stringWorld)
    (by decide +kernel)
  have hcmd : ∀ c, commandOf [bytes "SET", bytes "a", bytes "b"] = some c →
      c ≠ .exec ∧ sweepsTable c = false := by decide +kernel
  exact ⟨tx', w', hrun, (dispatch_touches_named hcmd hrun).2.1 (bytes "k") (by decide +kernel)⟩

end TinyRedis.Commands

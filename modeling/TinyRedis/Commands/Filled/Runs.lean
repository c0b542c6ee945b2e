import TinyRedis.Commands.Accounting
import TinyRedis.Commands.Filled.Hashes
import TinyRedis.Commands.Filled.Sets
import TinyRedis.Commands.Filled.ZSets

/-!
# No empty value is stored

A hash, a list, a set, or a sorted set that is removed from may be left empty under its key, unlike
after `LTRIM`, and a new one may stay empty. `keepsElement` says of each command, from its arguments
and the state before it, when neither happens: no other command stores an empty value, and so none
is ever stored in a run in which all commands pass this test.
-/

namespace TinyRedis.Commands

open Lib

variable {env : Env} {argv : Args} {lower key : Bytes} {w : World} {p : Unit × World}

/-! ## `RENAME` -/

/-- `RENAME` stores a value that was stored. -/
theorem full_of_rename (hargc : 3 ≤ argv.length) (hw : Full w) (hp : rename env argv w = .ok p) :
    Full p.2 := by
  show AllValues Filled p.2.db
  rcases rename_cases hargc hp with hdb | ⟨e, hlive, -, hdb⟩
  · rw [hdb]
    exact full_afterLookup env _ hw
  · rw [hdb]
    intro i key e' he'
    rw [lookup_renamed] at he'
    split_ifs at he'
    · cases he'
      exact hw _ _ _ (lookup_of_live hlive).1
    · exact hw i key e' he'

/-! ## Handlers -/

/-- The command leaves an element in what it removes elements from, and adds one to what it
creates. -/
def keepsElement (env : Env) (x : Ran) : Bool :=
  let argv := x.argv
  let w := x.world
  let key := argv.getD 1 []
  match x.cmd with
  | .hdel => (typedAt env hashKind key w).all (spares argv)
  | .hincrbyfloat => (live env key w).isSome || !failsOnNew env .hincrbyfloat argv
  | .lpop | .rpop => (typedAt env listKind key w).all fun l => decide (popCount argv < l.length)
  | .lrem => (typedAt env listKind key w).all fun l =>
      (parseIntStrict (argv.getD 2 [])).all fun n =>
        decide (removedCount (argv.getD 3 []) n l < l.length)
  | .lmove => lmoveSpares env argv w
  | .rpoplpush => moveSpares env listKind (fun l => decide (2 ≤ l.length)) key (argv.getD 2 []) w
  | .srem => (typedAt env setKind key w).all (spares argv)
  | .spop => (typedAt env setKind key w).all fun s => decide (popCount argv < s.size)
  | .smove => smoveSpares env argv w
  | .sinterstore => storeSpares env .inter argv w
  | .sunionstore => storeSpares env .union argv w
  | .sdiffstore => storeSpares env .diff argv w
  | .zadd => zaddSpares env argv w
  | .zincrby => (live env key w).isSome || !failsOnNew env .zincrby argv
  | .zrem => (typedAt env zsetKind key w).all fun z => spares argv z.dict
  | .zpopmin | .zpopmax =>
      (typedAt env zsetKind key w).all fun z => decide (popCount argv < z.dict.size)
  | .zremrangebyrank => (typedAt env zsetKind key w).all (rankSpares argv)
  | .zremrangebyscore => (typedAt env zsetKind key w).all (scoreSpares env argv)
  | _ => true

/-- A test of what is found. -/
theorem of_all {T : Type} {o : Option T} {p : T → Bool} (h : o.all p = true) {t : T}
    (ht : o = some t) : p t = true := by
  subst ht
  exact h

/-- A test for a key that is missing. -/
theorem of_live_or {b : Bool} (h : ((live env key w).isSome || !b) = true)
    (hlive : live env key w = none) : b = false := by
  rw [hlive] at h
  exact Bool.eq_false_of_not_eq_true' h

/-- What is found is a sorted set with both indexes. -/
theorem indexed_of_typedAt {z : ZSetValue} (h : AllValues IndexedValue w.db)
    (hz : typedAt env zsetKind key w = some z) : z.Indexed := by
  obtain ⟨e, hlive, hvalue⟩ := Option.bind_eq_some_iff.1 hz
  have hindexed := h _ _ _ (lookup_of_live hlive).1
  rw [← zsetKind.put_of_get _ _ hvalue] at hindexed
  exact hindexed

/-- The commands that write into a value with elements. -/
theorem full_of_handler {c : Cmd} (hc : shapesValue c = true) (hargc : minArgs c ≤ argv.length)
    (hw : Full w) (hindexed : AllValues IndexedValue w.db)
    (hK : keepsElement env ⟨c, argv, w⟩ = true) (hp : handler env lower argv c w = .ok p) :
    Full p.2 := by
  cases c with
  | rename => exact full_of_rename hargc hw hp
  | hset => exact (leads_hsetWith (fun _ => leads_reply _) hargc).of_ok hw hp
  | hmset => exact (leads_hsetWith (fun _ => leads_reply _) hargc).of_ok hw hp
  | hdel => exact leads_hdel.of_ok ⟨hw, fun _ => of_all hK⟩ hp
  | hsetnx => exact leads_hsetnx.of_ok hw hp
  | hincrby => exact leads_hincrby.of_ok hw hp
  | hincrbyfloat =>
    have hlen : 3 < argv.length := hargc
    exact (hincrbyfloat_attempts (argv_getElem? (i := 1) (by omega)) (argv_getElem? (by omega))
      (argv_getElem? hlen) hp).full hw (of_live_or hK)
  | lpush => exact (leads_cmdPush true hargc).of_ok hw hp
  | rpush => exact (leads_cmdPush false hargc).of_ok hw hp
  | lpop =>
    exact (leads_cmdPop true).of_ok ⟨hw, fun _ hl => of_decide_eq_true (of_all hK hl)⟩ hp
  | rpop =>
    exact (leads_cmdPop false).of_ok ⟨hw, fun _ hl => of_decide_eq_true (of_all hK hl)⟩ hp
  | lset => exact leads_lset.of_ok hw hp
  | lrem =>
    exact leads_lrem.of_ok
      ⟨hw, fun _ hl _ hn => of_decide_eq_true (of_all (of_all hK hl) hn)⟩ hp
  | linsert => exact leads_linsert.of_ok hw hp
  | ltrim => exact (leads_ltrim hargc).of_ok hw hp
  | lmove => exact full_of_lmove hargc hw hK hp
  | rpoplpush => exact full_of_movedLists ((danglesIf_rpoplpush hargc).of_ok hp) hw hK
  | sadd => exact (leads_sadd hargc).of_ok hw hp
  | srem => exact leads_srem.of_ok ⟨hw, fun _ => of_all hK⟩ hp
  | spop => exact leads_spop.of_ok ⟨hw, fun _ hs => of_decide_eq_true (of_all hK hs)⟩ hp
  | smove => exact full_of_movedSets ((danglesIf_smove hargc).of_ok hp) hw hK
  | sinterstore => exact (leads_cmdSetOpStore .inter).of_ok ⟨hw, hK⟩ hp
  | sunionstore => exact (leads_cmdSetOpStore .union).of_ok ⟨hw, hK⟩ hp
  | sdiffstore => exact (leads_cmdSetOpStore .diff).of_ok ⟨hw, hK⟩ hp
  | zadd => exact full_of_zadd hargc hw hK hp
  | zrem => exact leads_zrem.of_ok ⟨hw, fun _ => of_all hK⟩ hp
  | zincrby =>
    have hlen : 3 < argv.length := hargc
    exact (zincrby_attempts (argv_getElem? (i := 1) (by omega)) (argv_getElem? (by omega))
      (argv_getElem? hlen) hp).full hw (of_live_or hK)
  | zpopmin =>
    exact (leads_zpopWith _).of_ok ⟨hw, fun _ hz => of_decide_eq_true (of_all hK hz)⟩ hp
  | zpopmax =>
    exact (leads_zpopWith _).of_ok ⟨hw, fun _ hz => of_decide_eq_true (of_all hK hz)⟩ hp
  | zremrangebyrank =>
    exact (leads_zremrangebyrank hargc).of_ok
      ⟨hw, fun _ hz => ⟨indexed_of_typedAt hindexed hz, of_all hK hz⟩⟩ hp
  | zremrangebyscore =>
    exact (leads_zremrangebyscore hargc).of_ok
      ⟨hw, fun _ hz => ⟨indexed_of_typedAt hindexed hz, of_all hK hz⟩⟩ hp
  | _ => cases hc

/-- What the handlers keep, if they pass the test. -/
theorem kept_filled (env : Env) :
    Server.Kept env (keepsElement env)
      fun db => AllValues Filled db ∧ AllValues IndexedValue db where
  handler x p hargc hK hx hp := by
    refine ⟨?_, (kept_indexed env).handler x p hargc rfl hx.2 hp⟩
    cases hc : shapesValue x.cmd with
    | true => exact full_of_handler hc hargc hx.1 hx.2 hK hp
    | false =>
      have hrun : RunsIf (fun _ => True) (AllValues Filled) (fun _ => True)
          (handler env (toLower (x.argv.headD [])) x.argv x.cmd) :=
        stable_filled.runsIf_handler (A := fun _ => True) (strings_of_all fun _ => trivial)
          (fun _ _ _ => trivial) hargc (fun _ _ _ => assigns_allValues Filled) (fun _ _ => trivial)
          (fun _ _ _ _ => trivial) hc
      exact hrun.of_ok ⟨hx.1, trivial⟩ hp
  expire i rng keys now n db h _ :=
    ⟨allValues_of_within h.1 (Database.within_expireTable i rng keys now (n, db)),
      allValues_of_within h.2 (Database.within_expireTable i rng keys now (n, db))⟩

/-! ## Runs -/

/-- In every run from an empty database in which every command leaves an element in what it removes
elements from, and adds one to what it creates, no stored hash, list, set, or sorted set is empty in
any state that is reached. -/
theorem Server.run_filled {events : List Event} {s₀ s : Server} (hinit : s₀.Initial)
    (hmeets : s₀.runMeets env (keepsElement env) events = true)
    (hrun : s₀.run env events = .ok s) {i : DbIndex} {key : Bytes} {e : Entry}
    (he : (s.db.table i).lookup key = some e) : Filled e.value := by
  have hempty : ∀ V, AllValues V s₀.db := by
    rw [hinit.db]
    exact fun V _ _ _ h => by cases h
  exact (Server.run_keeps (kept_filled env) events ⟨hempty _, hempty _⟩ hmeets hrun).1 i key e he

/-- A client adds two members to a set, another one removes one of them, and then stores a union. -/
def sharedSets : List Event :=
  [.call 0 [bytes "SADD", bytes "s", bytes "a", bytes "b"],
    .call 1 [bytes "SREM", bytes "s", bytes "a"],
    .call 1 [bytes "SUNIONSTORE", bytes "t", bytes "s", bytes "u"]]

/-- The union is not empty. -/
theorem Server.run_filled_sharedSets :
    ∃ s e, freshServer.run stillEnv sharedSets = .ok s ∧
      (s.db.table ⟨0, by decide⟩).lookup (bytes "t") = some e ∧ Filled e.value := by
  have hfound : (freshServer.run stillEnv sharedSets).toOption.any (fun s =>
      ((s.db.table ⟨0, by decide⟩).lookup (bytes "t")).isSome) = true := by decide +kernel
  obtain ⟨s, hrun, hs⟩ := exists_ok_of_any hfound
  obtain ⟨e, he⟩ := Option.isSome_iff_exists.1 hs
  exact ⟨s, e, hrun, he,
    Server.run_filled freshServer_initial (by decide +kernel) hrun he⟩

/-- `SADD s a` and `SREM s a` leave an empty set under the key. -/
theorem Server.srem_leaves_empty :
    ∃ s e, freshServer.run stillEnv [.call 0 [bytes "SADD", bytes "s", bytes "a"],
        .call 0 [bytes "SREM", bytes "s", bytes "a"]] = .ok s ∧
      (s.db.table ⟨0, by decide⟩).lookup (bytes "s") = some e ∧ ¬Filled e.value := by
  have hfound : (freshServer.run stillEnv [.call 0 [bytes "SADD", bytes "s", bytes "a"],
      .call 0 [bytes "SREM", bytes "s", bytes "a"]]).toOption.any (fun s =>
        ((s.db.table ⟨0, by decide⟩).lookup (bytes "s")).any fun e =>
          (setKind.get e.value).any fun d => decide (d.size = 0)) = true := by decide +kernel
  obtain ⟨s, hrun, hs⟩ := exists_ok_of_any hfound
  obtain ⟨e, he, hempty⟩ := (Option.any_eq_true _ _).1 hs
  obtain ⟨d, hd, hsize⟩ := (Option.any_eq_true _ _).1 hempty
  refine ⟨s, e, hrun, he, fun hfilled => ?_⟩
  rw [← setKind.put_of_get _ _ hd] at hfilled
  exact absurd (of_decide_eq_true hsize) (Nat.ne_of_gt hfilled)

end TinyRedis.Commands

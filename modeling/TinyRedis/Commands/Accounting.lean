import TinyRedis.Commands.Moves

/-!
# Memory accounting in commands

`used_memory` is the sum of the sizes of all entries as long as values are only put in and taken out
as a whole. The commands that write into a value through a pointer do not tell the database, so the
two drift apart; `Harmless` says when a command does not. `LMOVE`, `RPOPLPUSH`, and `SMOVE` write
into two values, and the sizes add up to the same unless the member is already at the destination.
-/

namespace TinyRedis.Commands

open Lib Database

variable {env : Env} {argv : Args} {T : Type} {w : World} {key src dst m old : Bytes}
  {db : Database} {d : Dict Bytes Unit} {e : Entry} {p : Unit × World}

/-- The commands that only write whole entries keep the account. -/
theorem invariant_accounted : Invariant (fun _ => True) Accounted fun _ => True where
  value _ _ _ _ _ _ := trivial
  lookup _ i key now h := accounted_lookup h i key now
  set _ i key v exp h _ := accounted_set h i key v exp
  delete _ i key h := accounted_delete h i key
  flushDb _ i h := accounted_flushDb h i
  maxMemory _ _ h := h
  deadline _ _ _ _ _ h he := accounted_assign h he rfl
  emptyString := trivial
  hash _ := trivial
  list _ := trivial
  members _ := trivial
  emptyZSet := trivial
  benign _ _ := trivial

/-! ## Moves -/

/-- The account is kept by a move, if the sizes of the values add up to the same. -/
theorem accounted_of_moved {k : Kind T} {empty : T} {src dst : Bytes}
    {split : T → T → (T → T) → Prop} (h : Moved env k empty src dst split w db)
    (hw : w.db.Accounted) (hturned : ∀ t rest add, src = dst → split t rest add →
      valueSize (k.put (add rest)) = valueSize (k.put t))
    (hmoved : ∀ e e' t d rest add, src ≠ dst → Finds env k src e t w →
      Gets env k empty dst e' d (afterLookup env src w) → split t rest add →
      valueSize (k.put rest) + valueSize (k.put (add d)) =
        valueSize (k.put t) + valueSize (k.put d)) : db.Accounted := by
  have hafter : (afterLookup env src w).db.Accounted := accounted_lookup hw _ _ _
  have hafter' : (afterLookup env dst (afterLookup env src w)).db.Accounted :=
    accounted_lookup hafter _ _ _
  cases h with
  | looked h =>
    rcases h with rfl | rfl
    · exact hafter
    · exact hafter'
  | turned hsame hsrc hsplit h =>
    subst h
    refine accounted_assign hw (lookup_of_live hsrc.live).1 ?_
    rw [← k.put_of_get _ _ hsrc.value]
    exact hturned _ _ _ hsame hsplit
  | @moved e e' t d rest add db₁ hne hsrc hdst hopen hentry hentry' hsplit h =>
    subst h
    have hdb₁ : db₁.Accounted := by
      rcases hopen with rfl | rfl
      · exact hafter'
      · exact accounted_set hafter' _ _ _ _
    have hsize := hmoved e e' t d rest add hne hsrc hdst hsplit
    rw [k.put_of_get _ _ hsrc.value, k.put_of_get _ _ hdst.value] at hsize
    have htaken := totalSize_assign hentry { e with value := k.put rest }
    have hadded := totalSize_assign
      ((lookup_assign_of_ne db₁ w.cs.dbIndex hne { e with value := k.put rest }).trans hentry')
      { e' with value := k.put (add d) }
    unfold entrySize at htaken hadded
    unfold Accounted at hdb₁ ⊢
    dsimp only at htaken hadded
    show db₁.used = _
    omega

/-- An element adds its length and eight bytes to the size of a list. -/
theorem valueSize_cons (v : Bytes) (l : List Bytes) :
    valueSize (.list (v :: l)) = valueSize (.list l) + (8 + v.length) := by
  show 16 + (List.map _ (v :: l)).sum = 16 + (List.map _ l).sum + _
  rw [List.map_cons, List.sum_cons]
  omega

/-- The order of the elements does not matter. -/
theorem valueSize_perm {l l' : List Bytes} (h : l.Perm l') :
    valueSize (.list l) = valueSize (.list l') :=
  congrArg (16 + ·) (h.map _).sum_eq

/-- A moved list element is accounted for on both sides. -/
theorem accounted_of_movedLists (h : MovedLists env src dst w db) (hw : w.db.Accounted) :
    db.Accounted := by
  obtain ⟨fromLeft, toLeft, h⟩ := h
  -- The element is as much in the one list as in the other.
  have hsize : ∀ l rest add d, splitList fromLeft toLeft l rest add →
      valueSize (.list rest) + valueSize (.list (add d)) =
        valueSize (.list l) + valueSize (.list d) := by
    rintro l rest _ d ⟨v, hpop, rfl⟩
    rw [valueSize_perm (popEnd_perm hpop), valueSize_perm (pushEnd_perm toLeft d v),
      valueSize_cons, valueSize_cons]
    omega
  refine accounted_of_moved h hw (fun l rest add _ hsplit => ?_)
    fun _ _ l d rest add _ _ _ hsplit => hsize l rest add d hsplit
  have hself := hsize l rest add rest hsplit
  show valueSize (.list (add rest)) = valueSize (.list l)
  omega

/-- A member that is put in. -/
theorem valueSize_insert (hm : m ∉ d) :
    valueSize (.set (d.insert m ())) = valueSize (.set d) + (16 + m.length) := by
  have hweight := Dict.weight_insert_new (fun (e : Bytes) (_ : Unit) => 16 + e.length) ()
    (AList.lookup_eq_none.2 hm)
  show 16 + _ = 16 + _ + _
  rw [hweight]
  omega

/-- A member that is taken out. -/
theorem valueSize_erase (hm : m ∈ d) :
    valueSize (.set d) = valueSize (.set (d.erase m)) + (16 + m.length) := by
  obtain ⟨u, hu⟩ := Option.isSome_iff_exists.1 (AList.lookup_isSome.2 hm)
  have hweight := Dict.weight_erase (fun (e : Bytes) (_ : Unit) => 16 + e.length) hu
  show 16 + Dict.weight _ d = 16 + Dict.weight _ (d.erase m) + _
  omega

/-- The member of `SMOVE` is not in the set at the destination, unless it stays where it is. -/
def SMoveFits (env : Env) (argv : Args) (w : World) : Prop :=
  ∀ e e' s d, live env (argv.getD 1 []) w = some e → e.value = .set s →
    live env (argv.getD 2 []) (afterLookup env (argv.getD 1 []) w) = some e' → e'.value = .set d →
    argv.getD 3 [] ∈ s → argv.getD 3 [] ∈ d → argv.getD 1 [] = argv.getD 2 []

/-- A moved set member is accounted for when nothing is clamped to zero. -/
theorem accounted_of_movedSets
    (h : MovedSets env (argv.getD 3 []) (argv.getD 1 []) (argv.getD 2 []) w db)
    (hw : w.db.Accounted) (hfits : SMoveFits env argv w) : db.Accounted := by
  refine accounted_of_moved h hw (fun _ _ _ hsame hsplit => absurd hsame hsplit.1) ?_
  rintro e e' s d _ _ hne hsrc hdst ⟨-, hm, rfl, rfl⟩
  have hnew : argv.getD 3 [] ∉ d := by
    intro hd
    rcases hdst.found with hlive | ⟨hlive, -⟩
    · exact hne (hfits e e' s d hsrc.live (setKind.put_of_get _ _ hsrc.value).symm hlive
        (setKind.put_of_get _ _ hdst.value).symm hm hd)
    · rw [hdst.eq_empty hlive] at hd
      exact AList.notMem_empty _ hd
  show valueSize (.set _) + valueSize (.set (if _ then _ else _)) =
    valueSize (.set s) + valueSize (.set d)
  rw [if_neg hnew, valueSize_insert hnew, valueSize_erase hm]
  omega

/-! ## Renaming -/

/-- What `RENAME` leaves behind of the value is of the same size. -/
def RenameFits (env : Env) (argv : Args) (w : World) : Prop :=
  ∀ e, live env (argv.getD 1 []) w = some e → argv.getD 1 [] ≠ argv.getD 2 [] →
    valueSize (movedFrom e.value) = valueSize e.value

/-- What `RENAME` does to the database: the value is moved out of the entry, which is then deleted,
and is put under the new key. -/
def renamed (db : Database) (i : DbIndex) (old new : Bytes) (e : Entry) : Database :=
  ((db.assign i old { e with value := movedFrom e.value }).delete i old).2.set i new e.value
    e.expiresAtMs

/-- `RENAME` of a live key to another one. -/
theorem rename_of_live (hargc : 3 ≤ argv.length) (hlive : live env (argv.getD 1 []) w = some e)
    (hne : argv.getD 1 [] ≠ argv.getD 2 []) : rename env argv w = replySimple (bytes "OK") { w with
      tick := w.tick + 1
      db := renamed w.db w.cs.dbIndex (argv.getD 1 []) (argv.getD 2 []) e } := by
  unfold rename
  rw [arg_bind (by omega), arg_bind hargc, lookup_bind, hlive, afterLookup_of_live hlive]
  dsimp only
  rw [if_neg hne, bind_apply]
  unfold assignValue modifyEntry
  rw [(lookup_of_live hlive).1]
  rfl

/-- A value is no larger after it was moved from. -/
theorem valueSize_movedFrom_le (v : Value) : valueSize (movedFrom v) ≤ valueSize v := by
  cases v with
  | _ => exact Nat.add_le_add_left (Nat.zero_le _) _

/-- `Delete` takes off the size of what is left in the entry, so that the rest of the size of the
value stays in `used_memory`. -/
theorem used_renamed {i : DbIndex} (new : Bytes) (hdb : db.Accounted)
    (he : (db.table i).lookup old = some e) :
    (renamed db i old new e).used = (renamed db i old new e).totalSize +
      (valueSize e.value - valueSize (movedFrom e.value)) := by
  have hle := valueSize_movedFrom_le e.value
  have htotal := totalSize_assign he { e with value := movedFrom e.value }
  have hassigned : ((db.assign i old { e with value := movedFrom e.value }).table i).lookup old =
      some { e with value := movedFrom e.value } := by
    rw [table_assign, if_pos rfl, AList.lookup_insert]
  unfold entrySize at htotal
  unfold Accounted at hdb
  dsimp only at htotal
  have hused : (db.assign i old { e with value := movedFrom e.value }).used = _ + (_ - _) :=
    show db.used = (db.assign i old { e with value := movedFrom e.value }).totalSize +
      (valueSize e.value - valueSize (movedFrom e.value)) by omega
  unfold renamed Database.delete
  rw [hassigned]
  exact used_set_of_used (used_drop hused hassigned) i new e.value e.expiresAtMs

/-- The entry is under the new key, and none is under the old one. -/
theorem lookup_renamed {new : Bytes} (db : Database) (i j : DbIndex) (key : Bytes) :
    ((renamed db i old new e).table j).lookup key =
      if j = i ∧ key = new then some e
      else if j = i ∧ key = old then none else (db.table j).lookup key := by
  unfold renamed
  rw [lookup_set, lookup_delete, lookup_assign]
  refine if_congr Iff.rfl rfl ?_
  split_ifs <;> rfl

/-- `RENAME` moves the entry, or only looks it up. -/
theorem rename_cases (hargc : 3 ≤ argv.length) (hp : rename env argv w = .ok p) :
    p.2.db = (afterLookup env (argv.getD 1 []) w).db ∨
      ∃ e, live env (argv.getD 1 []) w = some e ∧ argv.getD 1 [] ≠ argv.getD 2 [] ∧
        p.2.db = renamed w.db w.cs.dbIndex (argv.getD 1 []) (argv.getD 2 []) e := by
  by_cases hmoves : ∃ e, live env (argv.getD 1 []) w = some e ∧ argv.getD 1 [] ≠ argv.getD 2 []
  · obtain ⟨e, hlive, hne⟩ := hmoves
    rw [rename_of_live hargc hlive hne] at hp
    cases hp
    exact .inr ⟨e, hlive, hne, rfl⟩
  · unfold rename at hp
    rw [arg_bind (by omega), arg_bind hargc, lookup_bind] at hp
    cases hlive : live env (argv.getD 1 []) w with
    | none =>
      rw [hlive] at hp
      cases hp
      exact .inl rfl
    | some e =>
      rw [hlive] at hp
      dsimp only at hp
      rw [if_pos (not_not.1 fun hne => hmoves ⟨e, hlive, hne⟩)] at hp
      cases hp
      exact .inl rfl

/-- `RENAME` is accounted for when nothing is clamped to zero. -/
theorem accounted_of_rename (hargc : 3 ≤ argv.length) (hw : w.db.Accounted)
    (hfits : RenameFits env argv w) (hp : rename env argv w = .ok p) : p.2.db.Accounted := by
  rcases rename_cases hargc hp with hdb | ⟨e, hlive, hne, hdb⟩
  · rw [hdb]
    exact accounted_lookup hw _ _ _
  · have hused := used_renamed (argv.getD 2 []) hw (lookup_of_live hlive).1
    rw [hfits e hlive hne, Nat.sub_self] at hused
    rw [hdb]
    exact hused.trans (Nat.add_zero _)

/-! ## Runs -/

/-- A command does not change the size of a value behind the back of the database: it does not write
into a value through a pointer, or moves as much into one value as out of the other. -/
def harmless (env : Env) (x : Ran) : Bool :=
  match x.cmd with
  | .rename =>
    match live env (x.argv.getD 1 []) x.world with
    | some e => decide (x.argv.getD 1 [] = x.argv.getD 2 [] ∨
        valueSize (movedFrom e.value) = valueSize e.value)
    | none => true
  | .lmove => true
  | .rpoplpush => true
  | .smove =>
    match live env (x.argv.getD 1 []) x.world,
      live env (x.argv.getD 2 []) (afterLookup env (x.argv.getD 1 []) x.world) with
    | some ⟨.set s, _⟩, some ⟨.set d, _⟩ =>
      decide (x.argv.getD 3 [] ∉ s ∨ x.argv.getD 3 [] ∉ d ∨ x.argv.getD 1 [] = x.argv.getD 2 [])
    | _, _ => true
  | c => !(access c).writes (x.probe env)

/-- A harmless `RENAME` clamps nothing. -/
theorem renameFits_of_harmless (h : harmless env ⟨.rename, argv, w⟩ = true) :
    RenameFits env argv w := by
  intro e he hne
  unfold harmless at h
  dsimp only at h
  rw [he] at h
  exact (of_decide_eq_true h).resolve_left hne

/-- A harmless `SMOVE` clamps nothing. -/
theorem smoveFits_of_harmless (h : harmless env ⟨.smove, argv, w⟩ = true) :
    SMoveFits env argv w := by
  rintro ⟨_, t⟩ ⟨_, t'⟩ s d he rfl he' rfl hs hd
  unfold harmless at h
  dsimp only at h
  rw [he, he'] at h
  exact ((of_decide_eq_true h).resolve_left (not_not.2 hs)).resolve_left (not_not.2 hd)

/-- A handler that does not write through a pointer. -/
theorem handler_accounted {c : Cmd} (hargc : minArgs c ≤ argv.length) (hw : w.db.Accounted)
    (h : (!(access c).writes (probe env (keyType c) (argv.getD 1 []) w)) = true)
    (hp : handler env (toLower (argv.headD [])) argv c w = .ok p) : p.2.db.Accounted := by
  have hrun : RunsIf
      (fun w => (!(access c).writes (probe env (keyType c) (argv.getD 1 []) w)) = true) Accounted
      (fun _ => True) (handler env (toLower (argv.headD [])) argv c) :=
    invariant_accounted.runsIf_handler (A := fun r => (!(access c).writes r) = true)
      (strings_of_all fun _ => trivial) (fun _ _ _ => trivial) hargc
      (fun r hr hwrites => by rw [hwrites] at hr; cases hr)
      (fun _ _ => trivial) (fun _ _ _ _ => trivial) zsetClosed_true
  exact hrun.of_ok ⟨hw, h⟩ hp

/-- Every harmless command keeps the memory counter exact. -/
theorem kept_accounted (env : Env) : Server.Kept env (harmless env) Accounted where
  handler x p hargc hK hx hp := by
    obtain ⟨c, argv, w⟩ := x
    cases c
    case rename => exact accounted_of_rename hargc hx (renameFits_of_harmless hK) hp
    case smove =>
      exact accounted_of_movedSets ((danglesIf_smove hargc).of_ok hp) hx (smoveFits_of_harmless hK)
    case lmove =>
      have hmoved := (danglesIf_cmdLMove hargc).of_ok hp
      split_ifs at hmoved
      · exact accounted_of_movedLists hmoved hx
      · exact hmoved ▸ hx
    case rpoplpush => exact accounted_of_movedLists ((danglesIf_rpoplpush hargc).of_ok hp) hx
    all_goals exact handler_accounted hargc hx hK hp
  expire i rng keys now n db h hperm := accounted_expireTable rng now (n, db) h hperm

/-- In every run whose commands are all harmless, `used_memory` is the sum of the sizes of all
entries, in every state that is reached. -/
theorem Server.run_accounted {events : List Event} {s₀ s : Server} (hinit : s₀.Initial)
    (hharmless : s₀.runMeets env (harmless env) events = true)
    (hrun : s₀.run env events = .ok s) : s.db.used = s.db.totalSize := by
  refine Server.run_keeps (I := Accounted) (kept_accounted env) events ?_ hharmless hrun
  rw [hinit.db]
  rfl

/-- Two clients set, move, and delete keys. -/
def harmlessEvents : List Event :=
  [.call 0 [bytes "SET", bytes "k", bytes "v"], .call 1 [bytes "LPUSH", bytes "k", bytes "x"],
    .call 1 [bytes "LMOVE", bytes "a", bytes "b", bytes "LEFT", bytes "LEFT"], .expire,
    .call 0 [bytes "RENAME", bytes "k", bytes "k"], .call 1 [bytes "SET", bytes "n", bytes "12"],
    .call 0 [bytes "DEL", bytes "k"]]

/-- A run of `SET` and `DEL` ends with an exact counter. -/
theorem Server.run_accounted_set_del :
    ∃ s, freshServer.run stillEnv harmlessEvents = .ok s ∧ s.db.used = s.db.totalSize := by
  have hok : (freshServer.run stillEnv harmlessEvents).toOption.any (fun _ => true) = true := by
    decide +kernel
  obtain ⟨s, hrun, -⟩ := exists_ok_of_any hok
  exact ⟨s, hrun, Server.run_accounted freshServer_initial (by decide +kernel) hrun⟩

/-- `APPEND` to a key that exists: the byte that is appended is not counted. -/
theorem append_drifts : freshServer.Initial ∧ ∃ s, freshServer.run stillEnv
    [.call 0 [bytes "SET", bytes "k", bytes "v"], .call 0 [bytes "APPEND", bytes "k", bytes "v"]] =
      .ok s ∧ s.db.used = 66 ∧ s.db.totalSize = 67 := by
  obtain ⟨s, hrun, hs⟩ := exists_ok_of_any
    (p := fun s : Server => decide (s.db.used = 66 ∧ s.db.totalSize = 67))
    (x := freshServer.run stillEnv [.call 0 [bytes "SET", bytes "k", bytes "v"],
      .call 0 [bytes "APPEND", bytes "k", bytes "v"]]) (by decide +kernel)
  exact ⟨freshServer_initial, s, hrun, of_decide_eq_true hs⟩

end TinyRedis.Commands

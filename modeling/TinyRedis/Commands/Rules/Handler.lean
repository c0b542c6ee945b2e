import TinyRedis.Commands.Rules.Hashes
import TinyRedis.Commands.Rules.Keys
import TinyRedis.Commands.Rules.Server
import TinyRedis.Commands.Rules.Sets
import TinyRedis.Commands.Rules.ZSets
import TinyRedis.Commands.Safety.Access

/-!
# All handlers obey the rules

`Rules.Allows r c argv` says what the rules `r` have to allow for the handler of the command `c`.
-/

namespace TinyRedis.Commands

open Lib Resp

variable {s : Bytes} {b : UInt8}

/-- The commands that may reply an error after they have written. -/
def repliesLate (c : Cmd) : Bool :=
  c ∈ ([.zadd, .incrbyfloat, .hincrbyfloat, .zincrby] : List Cmd)

/-- The commands that delete keys without looking them up. -/
def deletesBlindly (c : Cmd) : Bool := c ∈ ([.del, .unlink] : List Cmd)

/-- The commands that read the state of the server. -/
def readsServer (c : Cmd) : Bool :=
  c ∈ ([.info, .dbsize, .lastsave, .config, .client, .scan] : List Cmd)

/-- The commands that go over a whole table, and write to it. -/
def sweepsTable (c : Cmd) : Bool :=
  c ∈ ([.flushdb, .flushall, .keys, .randomkey] : List Cmd)

/-- The commands whose handlers may end without a reply. -/
def repliesNothing (c : Cmd) : Bool := c ∈ ([.shutdown, .multi, .exec, .discard] : List Cmd)

/-- The rules let the command `c` do what it does to the database, and reply what it replies. -/
structure Rules.Permits (r : Rules) (c : Cmd) (argv : Args) : Prop where
  keys : ∀ i s, argv[i + 1]? = some s → s ∈ r.keys
  lines : ∀ s, OneLine s → s ∈ r.text
  save : c = .save → ∀ n s, r.env.saveToFile n = some s → s ∈ r.text
  bgsave : c = .bgsave → ∀ n s, r.env.bgSaveFork n = some s → s ∈ r.text
  config : c = .config → ∀ s, argv[2]? = some s →
    configGetText (toLower s) ∈ r.text ∧ configSetText (toLower s) ∈ r.text
  client : c = .client → ∀ s, argv[1]? = some s → clientText (toLower s) ∈ r.text
  writes : isWriteCommand c = true → r.writes = true
  lax : repliesLate c = true → r.lax = true
  blind : deletesBlindly c = true → r.blind = true
  whole : readsServer c = true → r.whole = true
  loose : sweepsTable c = true → r.loose = true
  moves : c = .select → r.moves = true
  quits : c = .quit → r.quits = true

/-- Rules that forbid nothing permit every command. -/
theorem Stable.permits {V : Value → Prop} {I : Database → Prop} {E : CommandFault → Prop}
    (h : Stable V I E) {env : Env} {finds : Bytes → Option Entry → Prop} {c : Cmd} {argv : Args} :
    (h.rules env finds).Permits c argv where
  keys _ _ _ := trivial
  lines _ _ := trivial
  save _ _ _ _ := trivial
  bgsave _ _ _ _ := trivial
  config _ _ _ := ⟨trivial, trivial⟩
  client _ _ _ := trivial
  writes _ := rfl
  lax _ := rfl
  blind _ := rfl
  whole _ := rfl
  loose _ := rfl
  moves _ := rfl
  quits _ := rfl

/-- The rules allow what the command `c` does. What it does with the value of its first key, and
which faults it meets, is a matter of what its lookup finds. That of `SMOVE` is not known to be the
same when it creates its second key. -/
structure Rules.Allows (r : Rules) (c : Cmd) (argv : Args) : Prop extends r.Permits c argv where
  strings : Strings r.values argv
  shapes : shapesValue c = true → Invariant r.values r.keeps r.faults ∧ ZSetClosed r.values
  append : c = .append → ∀ s, r.values (.rawString s) →
    r.values (.rawString (s ++ argv.getD 2 []))
  stores : ∀ key res, argv[1]? = some key → r.Meets .fresh (keyType c) key res →
    (access c).writes res = true → r.stores
  misses : usesNull c = true → r.Misses (keyType c) argv
  smove : c = .smove → r.faults .nullHandle
  reads : ∀ i, i < minArgs c → argv.length ≤ i → r.faults (.argvIndex i)
  overruns : ∀ res i, (c = .zrange → ∀ key, argv[1]? = some key → r.Meets .fresh .kZSet key res) →
    overrun argv c res = some i → r.faults (.argvIndex i)

/-- Rules that say nothing of faults allow what they permit. -/
theorem Rules.Permits.allows {r : Rules} {c : Cmd} {argv : Args} (h : r.Permits c argv)
    (hfree : r.Free) : r.Allows c argv where
  toPermits := h
  strings := strings_of_all fun _ => hfree.values _
  shapes _ := ⟨⟨r.stable, fun _ => hfree.values _, fun _ => hfree.values _,
    fun _ => hfree.values _, hfree.values _⟩, zsetClosed_of_all fun _ => hfree.values _⟩
  append _ _ _ := hfree.values _
  stores _ _ _ _ _ := hfree.stores
  misses _ _ _ _ := hfree.faults _
  smove _ := hfree.faults _
  reads _ _ _ := hfree.faults _
  overruns _ _ _ _ := hfree.faults _

/-- How a handler ends. -/
def Ended (c : Cmd) (_ : Unit) (p : Phase) : Prop :=
  p.answer = .failed ∨ p.answer = .left 0 ∨ (repliesNothing c = true ∧ p.answer = .none)

variable {r : Rules} {c : Cmd} {lower : Bytes} {argv : Args}

/-- A handler that replies. -/
theorem Obeys.closed {m : M Unit} (h : Obeys r .fresh m Finished) : Obeys r .fresh m (Ended c) :=
  h.imp fun _ _ hp => hp.imp_right .inl

/-- A handler that replies, and has no first lookup to go by. -/
theorem Obeys.ended {m : M Unit} (h : Obeys r .start m Finished) : Obeys r .fresh m (Ended c) :=
  h.settle.closed

/-- Every handler obeys the rules that allow what it does. -/
theorem obeys_handler (h : r.Allows c argv) (hlower : wrongArgsText lower ∈ r.text) :
    Obeys r .fresh (handler r.env lower argv c) (Ended c) := by
  have hs : r.Serves argv (minArgs c) := ⟨h.keys, h.lines, h.strings, h.reads⟩
  have hcreate : access c = .create → r.Creates (keyType c) argv := fun hc key hkey res hm hres =>
    h.stores key res hkey hm (by rw [hc]; exact decide_eq_true hres)
  have hmodify : (access c).writes .found = true → r.Modifies (keyType c) argv :=
    fun hc key hkey hm => h.stores key .found hkey hm hc
  cases c with
  | ping => exact obeys_ping.ended
  | echo => exact (obeys_echo hs).ended
  | select => exact (obeys_select hs (h.moves rfl)).ended
  | auth => exact (obeys_auth hs).ended
  | quit => exact (obeys_quit (h.quits rfl)).ended
  | hello => exact (obeys_hello hs).ended
  | command => exact obeys_command.ended
  | info => exact (obeys_info (h.whole rfl)).ended
  | dbsize => exact (obeys_dbsize (h.whole rfl)).ended
  | flushdb => exact (obeys_flushdb (h.loose rfl) (h.writes rfl)).ended
  | flushall => exact (obeys_flushall (h.loose rfl) (h.writes rfl)).ended
  | save => exact (obeys_save (h.save rfl)).ended
  | bgsave => exact (obeys_bgsave (h.bgsave rfl)).ended
  | lastsave => exact (obeys_lastsave (h.whole rfl)).ended
  | bgrewriteaof => exact obeys_bgrewriteaof.ended
  | wait => exact obeys_wait.ended
  | time => exact obeys_time.ended
  | role => exact obeys_role.ended
  | shutdown =>
    exact (obeys_shutdown hs).settle.imp fun _ p hp =>
      hp.elim .inl fun ha => .inr (.inr ⟨rfl, ha⟩)
  | config =>
    refine (obeys_config hs (h.whole rfl) (fun s hs => (h.config rfl s hs).1)
      (fun s hs => (h.config rfl s hs).2) fun hset hmax hlen => ?_).ended
    exact h.overruns .missing 3 (fun hc => by cases hc) (if_pos ⟨hset, hmax, hlen⟩)
  | client =>
    refine (obeys_client hs (h.whole rfl) (h.client rfl) fun hname hlen => ?_).ended
    exact h.overruns .missing 2 (fun hc => by cases hc) (if_pos ⟨hname, hlen⟩)
  | memory => exact (obeys_memory hs).ended
  | get => exact (obeys_cmdGet hs).ended
  | set => exact (obeys_cmdSet (h.writes rfl) hs).ended
  | setnx => exact (obeys_setnx (h.writes rfl) hs).ended
  | setex => exact (obeys_setexWith (h.writes rfl) hs 1000).ended
  | psetex => exact (obeys_setexWith (h.writes rfl) hs 1).ended
  | getset => exact (obeys_getset (h.writes rfl) hs).ended
  | getdel => exact (obeys_getdel (h.writes rfl) hs).ended
  | getrange => exact (obeys_getrange hs).ended
  | setrange => exact (obeys_setrange hs (h.writes rfl) (hcreate rfl)).closed
  | strlen => exact (obeys_strlen hs).ended
  | append => exact (obeys_append hs (h.writes rfl) (hcreate rfl) (h.append rfl)).closed
  | incr => exact (obeys_incr (h.writes rfl) (hcreate rfl) hs).closed
  | decr => exact (obeys_decr (h.writes rfl) (hcreate rfl) hs).closed
  | incrby => exact (obeys_incrby (h.writes rfl) (hcreate rfl) hs).closed
  | decrby => exact (obeys_decrby (h.writes rfl) (hcreate rfl) hs).closed
  | incrbyfloat => exact (obeys_incrbyfloat (h.writes rfl) (hcreate rfl) hs (h.lax rfl)).closed
  | mget => exact (obeys_mget hs).ended
  | mset => exact (obeys_mset (h.writes rfl) hs hlower).ended
  | msetnx => exact (obeys_msetnx (h.writes rfl) hs hlower).ended
  | del => exact (obeys_del hs (h.writes rfl) (h.blind rfl)).ended
  | unlink => exact (obeys_del hs (h.writes rfl) (h.blind rfl)).ended
  | «exists» => exact (obeys_cmdExists hs).ended
  | keys => exact (obeys_keys hs (h.loose rfl)).ended
  | randomkey => exact (obeys_randomkey (h.loose rfl)).ended
  | type => exact (obeys_type hs).ended
  | rename =>
    refine (obeys_rename hs (h.writes rfl) (h.shapes rfl).1.movedFrom_value
      fun key hkey e he => ?_).closed
    exact h.stores key _ hkey (fun _ => ⟨some e, he, rfl⟩) rfl
  | expire => exact (obeys_cmdExpire hs (h.writes rfl) false false).ended
  | pexpire => exact (obeys_cmdExpire hs (h.writes rfl) false true).ended
  | expireat => exact (obeys_cmdExpire hs (h.writes rfl) true false).ended
  | pexpireat => exact (obeys_cmdExpire hs (h.writes rfl) true true).ended
  | ttl => exact (obeys_ttl hs).ended
  | pttl => exact (obeys_pttl hs).ended
  | persist => exact (obeys_persist hs (h.writes rfl)).ended
  | scan => exact (obeys_scan hs (h.whole rfl)).ended
  | hset => exact (obeys_hset (h.shapes rfl).1.hash hs (h.writes rfl) (hcreate rfl) hlower).closed
  | hmset => exact (obeys_hmset (h.shapes rfl).1.hash hs (h.writes rfl) (hcreate rfl) hlower).closed
  | hget => exact (obeys_hget hs (h.misses rfl)).closed
  | hmget => exact (obeys_hmget hs (h.misses rfl)).closed
  | hgetall => exact (obeys_hgetall hs).ended
  | hdel =>
    exact (obeys_hdel (h.shapes rfl).1.hash hs (h.writes rfl) (h.misses rfl) (hmodify rfl)).closed
  | hexists => exact (obeys_hexists hs).ended
  | hlen => exact (obeys_hlen hs).ended
  | hkeys => exact (obeys_hkeys hs).ended
  | hvals => exact (obeys_hvals hs).ended
  | hsetnx => exact (obeys_hsetnx (h.shapes rfl).1.hash hs (h.writes rfl) (hcreate rfl)).closed
  | hincrby => exact (obeys_hincrby (h.shapes rfl).1.hash hs (h.writes rfl) (hcreate rfl)).closed
  | hincrbyfloat =>
    exact (obeys_hincrbyfloat (h.shapes rfl).1.hash hs (h.writes rfl) (hcreate rfl)
      (h.lax rfl)).closed
  | hstrlen => exact (obeys_hstrlen hs (h.misses rfl)).closed
  | lpush => exact (obeys_cmdPush (h.shapes rfl).1.list hs (h.writes rfl) (hcreate rfl) true).closed
  | rpush =>
    exact (obeys_cmdPush (h.shapes rfl).1.list hs (h.writes rfl) (hcreate rfl) false).closed
  | lpop => exact (obeys_cmdPop (h.shapes rfl).1.list (h.writes rfl) (hmodify rfl) hs true).closed
  | rpop => exact (obeys_cmdPop (h.shapes rfl).1.list (h.writes rfl) (hmodify rfl) hs false).closed
  | llen => exact (obeys_llen hs).ended
  | lrange => exact (obeys_lrange hs).ended
  | lindex => exact (obeys_lindex hs).ended
  | lset => exact (obeys_lset (h.shapes rfl).1.list (h.writes rfl) (hmodify rfl) hs).closed
  | lrem => exact (obeys_lrem (h.shapes rfl).1.list (h.writes rfl) (hmodify rfl) hs).closed
  | linsert => exact (obeys_linsert (h.shapes rfl).1.list (h.writes rfl) (hmodify rfl) hs).closed
  | ltrim => exact (obeys_ltrim (h.shapes rfl).1.list (h.writes rfl) (hmodify rfl) hs).closed
  | lmove => exact (obeys_lmove (h.shapes rfl).1.list (h.writes rfl) (hmodify rfl) hs).closed
  | rpoplpush =>
    exact (obeys_rpoplpush (h.shapes rfl).1.list (h.writes rfl) (hmodify rfl) hs).closed
  | sadd => exact (obeys_sadd (h.shapes rfl).1.members hs (h.writes rfl) (hcreate rfl)).closed
  | srem =>
    exact (obeys_srem (h.shapes rfl).1.members hs (h.writes rfl) (h.misses rfl)
      (hmodify rfl)).closed
  | smembers => exact (obeys_smembers hs).ended
  | sismember => exact (obeys_sismember hs).ended
  | scard => exact (obeys_scard hs).ended
  | spop => exact (obeys_spop (h.shapes rfl).1.members hs (h.writes rfl) (hmodify rfl)).closed
  | srandmember => exact (obeys_srandmember hs).ended
  | smove =>
    exact (obeys_smove (h.shapes rfl).1.members hs (h.writes rfl) (h.smove rfl)
      (hmodify rfl)).closed
  | sinter => exact (obeys_cmdSetOp hs .inter).ended
  | sunion => exact (obeys_cmdSetOp hs .union).ended
  | sdiff => exact (obeys_cmdSetOp hs .diff).ended
  | sinterstore =>
    exact (obeys_cmdSetOpStore hs (h.writes rfl) (h.shapes rfl).1.members .inter).ended
  | sunionstore =>
    exact (obeys_cmdSetOpStore hs (h.writes rfl) (h.shapes rfl).1.members .union).ended
  | sdiffstore => exact (obeys_cmdSetOpStore hs (h.writes rfl) (h.shapes rfl).1.members .diff).ended
  | zadd =>
    exact (obeys_zadd (h.shapes rfl).2 (h.shapes rfl).1.emptyZSet hs (h.writes rfl) (h.lax rfl)
      (hcreate rfl) hlower).closed
  | zscore => exact (obeys_zscore hs (h.misses rfl)).closed
  | zcard => exact (obeys_zcard hs).ended
  | zrange =>
    refine (obeys_zrangeWith hs true fun key hkey res hm hres hstart hlen => ?_).closed
    refine h.overruns res 3 (fun _ key' hkey' => ?_) (if_pos ⟨hres, hstart, hlen⟩)
    cases hkey.symm.trans hkey'
    exact hm
  | zrevrange =>
    exact (obeys_zrangeWith (hs.mono (by decide +kernel)) false fun _ _ _ _ _ _ =>
      hs.reads 3 (by decide +kernel)).closed
  | zrangebyscore => exact (obeys_zrangeByScoreWith hs false).ended
  | zrevrangebyscore => exact (obeys_zrangeByScoreWith hs true).ended
  | zrank => exact (obeys_zrankWith hs _).ended
  | zrevrank => exact (obeys_zrankWith hs _).ended
  | zcount => exact (obeys_zcount hs).ended
  | zrem =>
    exact (obeys_zrem (h.shapes rfl).2 hs (h.writes rfl) (h.misses rfl) (hmodify rfl)).closed
  | zincrby =>
    exact (obeys_zincrby (h.shapes rfl).2 (h.shapes rfl).1.emptyZSet hs (h.writes rfl) (h.lax rfl)
      (hcreate rfl)).closed
  | zpopmin => exact (obeys_zpopWith (h.shapes rfl).2.popMin hs (h.writes rfl) (hmodify rfl)).closed
  | zpopmax => exact (obeys_zpopWith (h.shapes rfl).2.popMax hs (h.writes rfl) (hmodify rfl)).closed
  | zremrangebyrank =>
    exact (obeys_zremrangebyrank (h.shapes rfl).2 hs (h.writes rfl) (hmodify rfl)).closed
  | zremrangebyscore =>
    exact (obeys_zremrangebyscore (h.shapes rfl).2 hs (h.writes rfl) (hmodify rfl)).closed
  | multi => exact .pure (.inr (.inr ⟨rfl, rfl⟩))
  | exec => exact .pure (.inr (.inr ⟨rfl, rfl⟩))
  | discard => exact .pure (.inr (.inr ⟨rfl, rfl⟩))

/-- The text for a wrong number of arguments has no line break. -/
theorem line_wrongArgsText (hlower : OneLine lower) : OneLine (wrongArgsText lower) := by
  unfold wrongArgsText
  rw [line_append_iff, line_append_iff]
  exact ⟨⟨by decide, hlower⟩, by decide +kernel⟩

/-- What is known when a command has run. -/
theorem holds_runCommand {w w' : World} (h : r.Permits c argv) (hfree : r.Free)
    (hlower : OneLine lower) (hrun : runCommand r.env c lower argv w = .ok ((), w')) :
    ∃ p, Ended c () p ∧ Respects r w p w' := by
  have hstart : Respects r w .fresh w := respects_fresh (hfree.keeps _) fun _ => hfree.finds _ _
  unfold runCommand at hrun
  split_ifs at hrun
  · have hoom : Obeys r .fresh errOom (Ended c) :=
      (Obeys.fail ⟨_, rfl, by decide +kernel⟩ h.lines (.inl rfl) rfl).ended
    exact hoom.holds.of_ok hstart hrun
  · have htext : wrongArgsText lower ∈ r.text := h.lines _ (line_wrongArgsText hlower)
    exact (obeys_handler (h.allows hfree) htext).holds.of_ok hstart hrun

/-! ## Names -/

/-- Line breaks are not changed by `ToUpper`. -/
theorem mem_toUpper_of_mem (h : b ∈ s) (hb : b = kCR ∨ b = kLF) : b ∈ toUpper s := by
  refine List.mem_map.2 ⟨b, h, ?_⟩
  rcases hb with rfl | rfl <;> rfl

/-- `ToLower` makes no line breaks. -/
theorem mem_of_mem_toLower (h : b ∈ toLower s) (hb : b = kCR ∨ b = kLF) : b ∈ s := by
  obtain ⟨a, ha, rfl⟩ := List.mem_map.1 h
  split_ifs at hb ⊢ with hrange
  · -- A small letter is neither CR nor LF.
    exfalso
    obtain ⟨hlo, hhi⟩ := hrange
    rw [UInt8.le_iff_toNat_le] at hlo hhi
    have hlarge : 97 ≤ (a + 32).toNat := by
      rw [UInt8.toNat_add]
      have h65 : (65 : UInt8).toNat = 65 := rfl
      have h90 : (90 : UInt8).toNat = 90 := rfl
      have h32 : (32 : UInt8).toNat = 32 := rfl
      omega
    rcases hb with hb | hb <;> rw [hb] at hlarge <;> exact absurd hlarge (by decide)
  · exact ha

/-- It leaves them as they are. -/
theorem mem_toLower_of_mem (h : b ∈ s) (hb : b = kCR ∨ b = kLF) : b ∈ toLower s := by
  refine List.mem_map.2 ⟨b, h, ?_⟩
  rcases hb with rfl | rfl <;> rfl

/-- So a text has the same line breaks before and after it. -/
theorem oneLine_toLower_iff : OneLine (toLower s) ↔ OneLine s := by
  constructor
  · exact fun h => ⟨fun hc => h.1 (mem_toLower_of_mem hc (.inl rfl)),
      fun hc => h.2 (mem_toLower_of_mem hc (.inr rfl))⟩
  · exact fun h => ⟨fun hc => h.1 (mem_of_mem_toLower hc (.inl rfl)),
      fun hc => h.2 (mem_of_mem_toLower hc (.inr rfl))⟩

/-- The same for `ToUpper`, in one direction. -/
theorem oneLine_of_toUpper (h : OneLine (toUpper s)) : OneLine s :=
  ⟨fun hc => h.1 (mem_toUpper_of_mem hc (.inl rfl)),
    fun hc => h.2 (mem_toUpper_of_mem hc (.inr rfl))⟩

/-- The names of the commands are lines. -/
theorem line_arityTable : ∀ a ∈ arityTable, OneLine (bytes a.name) := by decide +kernel

/-- A name that is found in the table is a line. -/
theorem line_of_findCommand {name : Bytes} {a : Arity} (h : findCommand (toUpper name) = some a) :
    OneLine (toLower name) := by
  have hname : bytes a.name = toUpper name := by
    have hsome := List.find?_some h
    exact of_decide_eq_true hsome
  have hline := line_arityTable a (List.mem_of_find?_eq_some h)
  rw [hname] at hline
  exact oneLine_toLower_iff.2 (oneLine_of_toUpper hline)

end TinyRedis.Commands

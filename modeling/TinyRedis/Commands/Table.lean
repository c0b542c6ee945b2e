import TinyRedis.Commands.Hashes
import TinyRedis.Commands.Keys
import TinyRedis.Commands.Server
import TinyRedis.Commands.Sets
import TinyRedis.Commands.Strings
import TinyRedis.Commands.ZSets

/-!
# The commands

`ArityTable` says which commands there are, and with how many arguments. `Dispatch` compares the
name of the command with each of the names in turn; here it is looked up once, and the rest goes by
the command.
-/

namespace TinyRedis.Commands

/-- The commands of `ArityTable`. -/
inductive Cmd where
  | ping | echo | select | auth | quit | hello | command | info | dbsize | flushdb | flushall
  | save | bgsave | lastsave | bgrewriteaof | wait | time | role | shutdown | config | client
  | memory | get | set | setnx | setex | psetex | getset | getdel | getrange | setrange | strlen
  | append | incr | decr | incrby | decrby | incrbyfloat | mget | mset | msetnx | del | unlink
  | exists | keys | randomkey | type | rename | expire | pexpire | expireat | pexpireat | ttl
  | pttl | persist | scan | hset | hmset | hget | hmget | hgetall | hdel | hexists | hlen | hkeys
  | hvals | hsetnx | hincrby | hincrbyfloat | hstrlen | lpush | rpush | lpop | rpop | llen
  | lrange | lindex | lset | lrem | linsert | ltrim | lmove | rpoplpush | sadd | srem | smembers
  | sismember | scard | spop | srandmember | smove | sinter | sunion | sdiff | sinterstore
  | sunionstore | sdiffstore | zadd | zscore | zcard | zrange | zrevrange | zrangebyscore
  | zrevrangebyscore | zrank | zrevrank | zcount | zrem | zincrby | zpopmin | zpopmax
  | zremrangebyrank | zremrangebyscore | multi | exec | discard
  deriving DecidableEq, Repr

/-- A row of `ArityTable`, with `none` for no maximum. -/
structure Arity where
  name : String
  cmd : Cmd
  min : ℕ
  max : Option ℕ

/-- `ArityTable`. -/
def arityTable : List Arity :=
  [⟨"PING", .ping, 1, some 2⟩, ⟨"ECHO", .echo, 2, some 2⟩, ⟨"SELECT", .select, 2, some 2⟩,
    ⟨"AUTH", .auth, 2, some 2⟩, ⟨"QUIT", .quit, 1, some 1⟩, ⟨"HELLO", .hello, 1, none⟩,
    ⟨"COMMAND", .command, 1, some 2⟩, ⟨"INFO", .info, 1, some 2⟩, ⟨"DBSIZE", .dbsize, 1, some 1⟩,
    ⟨"FLUSHDB", .flushdb, 1, some 2⟩, ⟨"FLUSHALL", .flushall, 1, some 2⟩,
    ⟨"SAVE", .save, 1, some 1⟩, ⟨"BGSAVE", .bgsave, 1, some 1⟩,
    ⟨"LASTSAVE", .lastsave, 1, some 1⟩, ⟨"BGREWRITEAOF", .bgrewriteaof, 1, some 1⟩,
    ⟨"WAIT", .wait, 3, some 3⟩, ⟨"TIME", .time, 1, some 1⟩, ⟨"ROLE", .role, 1, some 1⟩,
    ⟨"SHUTDOWN", .shutdown, 1, some 2⟩, ⟨"CONFIG", .config, 3, some 3⟩,
    ⟨"CLIENT", .client, 2, none⟩, ⟨"MEMORY", .memory, 3, some 3⟩, ⟨"GET", .get, 2, some 2⟩,
    ⟨"SET", .set, 3, none⟩, ⟨"SETNX", .setnx, 3, some 3⟩, ⟨"SETEX", .setex, 4, some 4⟩,
    ⟨"PSETEX", .psetex, 4, some 4⟩, ⟨"GETSET", .getset, 3, some 3⟩,
    ⟨"GETDEL", .getdel, 2, some 2⟩, ⟨"GETRANGE", .getrange, 4, some 4⟩,
    ⟨"SETRANGE", .setrange, 4, some 4⟩, ⟨"STRLEN", .strlen, 2, some 2⟩,
    ⟨"APPEND", .append, 3, some 3⟩, ⟨"INCR", .incr, 2, some 2⟩, ⟨"DECR", .decr, 2, some 2⟩,
    ⟨"INCRBY", .incrby, 3, some 3⟩, ⟨"DECRBY", .decrby, 3, some 3⟩,
    ⟨"INCRBYFLOAT", .incrbyfloat, 3, some 3⟩, ⟨"MGET", .mget, 2, none⟩, ⟨"MSET", .mset, 3, none⟩,
    ⟨"MSETNX", .msetnx, 3, none⟩, ⟨"DEL", .del, 2, none⟩, ⟨"UNLINK", .unlink, 2, none⟩,
    ⟨"EXISTS", .exists, 2, none⟩, ⟨"KEYS", .keys, 2, some 2⟩,
    ⟨"RANDOMKEY", .randomkey, 1, some 1⟩, ⟨"TYPE", .type, 2, some 2⟩,
    ⟨"RENAME", .rename, 3, some 3⟩, ⟨"EXPIRE", .expire, 3, some 3⟩,
    ⟨"PEXPIRE", .pexpire, 3, some 3⟩, ⟨"EXPIREAT", .expireat, 3, some 3⟩,
    ⟨"PEXPIREAT", .pexpireat, 3, some 3⟩, ⟨"TTL", .ttl, 2, some 2⟩, ⟨"PTTL", .pttl, 2, some 2⟩,
    ⟨"PERSIST", .persist, 2, some 2⟩, ⟨"SCAN", .scan, 2, none⟩, ⟨"HSET", .hset, 4, none⟩,
    ⟨"HMSET", .hmset, 4, none⟩, ⟨"HGET", .hget, 3, some 3⟩, ⟨"HMGET", .hmget, 3, none⟩,
    ⟨"HGETALL", .hgetall, 2, some 2⟩, ⟨"HDEL", .hdel, 3, none⟩, ⟨"HEXISTS", .hexists, 3, some 3⟩,
    ⟨"HLEN", .hlen, 2, some 2⟩, ⟨"HKEYS", .hkeys, 2, some 2⟩, ⟨"HVALS", .hvals, 2, some 2⟩,
    ⟨"HSETNX", .hsetnx, 4, some 4⟩, ⟨"HINCRBY", .hincrby, 4, some 4⟩,
    ⟨"HINCRBYFLOAT", .hincrbyfloat, 4, some 4⟩, ⟨"HSTRLEN", .hstrlen, 3, some 3⟩,
    ⟨"LPUSH", .lpush, 3, none⟩, ⟨"RPUSH", .rpush, 3, none⟩, ⟨"LPOP", .lpop, 2, some 3⟩,
    ⟨"RPOP", .rpop, 2, some 3⟩, ⟨"LLEN", .llen, 2, some 2⟩, ⟨"LRANGE", .lrange, 4, some 4⟩,
    ⟨"LINDEX", .lindex, 3, some 3⟩, ⟨"LSET", .lset, 4, some 4⟩, ⟨"LREM", .lrem, 4, some 4⟩,
    ⟨"LINSERT", .linsert, 5, some 5⟩, ⟨"LTRIM", .ltrim, 4, some 4⟩, ⟨"LMOVE", .lmove, 5, some 5⟩,
    ⟨"RPOPLPUSH", .rpoplpush, 3, some 3⟩, ⟨"SADD", .sadd, 3, none⟩, ⟨"SREM", .srem, 3, none⟩,
    ⟨"SMEMBERS", .smembers, 2, some 2⟩, ⟨"SISMEMBER", .sismember, 3, some 3⟩,
    ⟨"SCARD", .scard, 2, some 2⟩, ⟨"SPOP", .spop, 2, some 3⟩,
    ⟨"SRANDMEMBER", .srandmember, 2, some 3⟩, ⟨"SMOVE", .smove, 4, some 4⟩,
    ⟨"SINTER", .sinter, 2, none⟩, ⟨"SUNION", .sunion, 2, none⟩, ⟨"SDIFF", .sdiff, 2, none⟩,
    ⟨"SINTERSTORE", .sinterstore, 3, none⟩, ⟨"SUNIONSTORE", .sunionstore, 3, none⟩,
    ⟨"SDIFFSTORE", .sdiffstore, 3, none⟩, ⟨"ZADD", .zadd, 4, none⟩,
    ⟨"ZSCORE", .zscore, 3, some 3⟩, ⟨"ZCARD", .zcard, 2, some 2⟩, ⟨"ZRANGE", .zrange, 3, none⟩,
    ⟨"ZREVRANGE", .zrevrange, 4, none⟩, ⟨"ZRANGEBYSCORE", .zrangebyscore, 4, none⟩,
    ⟨"ZREVRANGEBYSCORE", .zrevrangebyscore, 4, none⟩, ⟨"ZRANK", .zrank, 3, some 3⟩,
    ⟨"ZREVRANK", .zrevrank, 3, some 3⟩, ⟨"ZCOUNT", .zcount, 4, some 4⟩, ⟨"ZREM", .zrem, 3, none⟩,
    ⟨"ZINCRBY", .zincrby, 4, some 4⟩, ⟨"ZPOPMIN", .zpopmin, 2, some 3⟩,
    ⟨"ZPOPMAX", .zpopmax, 2, some 3⟩, ⟨"ZREMRANGEBYRANK", .zremrangebyrank, 4, some 4⟩,
    ⟨"ZREMRANGEBYSCORE", .zremrangebyscore, 4, some 4⟩, ⟨"MULTI", .multi, 1, some 1⟩,
    ⟨"EXEC", .exec, 1, some 1⟩, ⟨"DISCARD", .discard, 1, some 1⟩]

/-- The row of a name in upper case, if there is such a command. -/
def findCommand (upper : Bytes) : Option Arity := arityTable.find? fun r => bytes r.name = upper

/-- `ArityOk`, for a command that exists. `(int)argc` keeps the low 32 bits. -/
def arityOk (r : Arity) (argc : ℕ) : Bool :=
  let n := Int.bmod argc (2^32)
  decide ((r.min : ℤ) ≤ n) && r.max.all fun max => decide (n ≤ max)

/-- `IsWriteCommand`. -/
def isWriteCommand (c : Cmd) : Bool :=
  c ∈ ([
    .set, .setnx, .setex, .psetex, .getset, .setrange, .append, .incr, .decr, .incrby, .decrby,
    .incrbyfloat, .mset, .msetnx, .del, .unlink, .rename, .expire, .pexpire, .expireat,
    .pexpireat, .persist, .getdel, .hset, .hmset, .hdel, .hsetnx, .hincrby, .hincrbyfloat,
    .lpush, .rpush, .lpop, .rpop, .lset, .lrem, .linsert, .ltrim, .lmove, .rpoplpush, .sadd,
    .srem, .spop, .smove, .sinterstore, .sunionstore, .sdiffstore, .zadd, .zrem, .zincrby,
    .zpopmin, .zpopmax, .zremrangebyrank, .zremrangebyscore, .flushdb, .flushall] : List Cmd)

/-- The branches of `Dispatch`, but for those of transactions, which do nothing here. -/
def handler (env : Env) (lower : Bytes) (argv : Args) : Cmd → M Unit
  | .ping => ping argv
  | .echo => echo argv
  | .select => select argv
  | .auth => auth
  | .quit => quit
  | .hello => hello argv
  | .command => command
  | .info => info env argv
  | .dbsize => dbsize
  | .flushdb => flushdb
  | .flushall => flushall
  | .save => save env
  | .bgsave => bgsave env
  | .lastsave => lastsave
  | .bgrewriteaof => bgrewriteaof
  | .wait => wait
  | .time => time env
  | .role => role
  | .shutdown => shutdown argv
  | .config => config env argv
  | .client => client env argv
  | .memory => memory env argv
  | .get => cmdGet env argv
  | .set => cmdSet env argv
  | .setnx => setnx env argv
  | .setex => setex env argv
  | .psetex => psetex env argv
  | .getset => getset env argv
  | .getdel => getdel env argv
  | .getrange => getrange env argv
  | .setrange => setrange env argv
  | .strlen => strlen env argv
  | .append => append env argv
  | .incr => incr env argv
  | .decr => decr env argv
  | .incrby => incrby env argv
  | .decrby => decrby env argv
  | .incrbyfloat => incrbyfloat env argv
  | .mget => mget env argv
  | .mset => mset argv lower
  | .msetnx => msetnx env argv lower
  | .del => del argv
  | .unlink => del argv
  | .exists => cmdExists env argv
  | .keys => keys env argv
  | .randomkey => randomkey env
  | .type => type env argv
  | .rename => rename env argv
  | .expire => expire env argv
  | .pexpire => pexpire env argv
  | .expireat => expireat env argv
  | .pexpireat => pexpireat env argv
  | .ttl => ttl env argv
  | .pttl => pttl env argv
  | .persist => persist env argv
  | .scan => scan env argv
  | .hset => hset env argv lower
  | .hmset => hmset env argv lower
  | .hget => hget env argv
  | .hmget => hmget env argv
  | .hgetall => hgetall env argv
  | .hdel => hdel env argv
  | .hexists => hexists env argv
  | .hlen => hlen env argv
  | .hkeys => hkeys env argv
  | .hvals => hvals env argv
  | .hsetnx => hsetnx env argv
  | .hincrby => hincrby env argv
  | .hincrbyfloat => hincrbyfloat env argv
  | .hstrlen => hstrlen env argv
  | .lpush => lpush env argv
  | .rpush => rpush env argv
  | .lpop => lpop env argv
  | .rpop => rpop env argv
  | .llen => llen env argv
  | .lrange => lrange env argv
  | .lindex => lindex env argv
  | .lset => lset env argv
  | .lrem => lrem env argv
  | .linsert => linsert env argv
  | .ltrim => ltrim env argv
  | .lmove => cmdLMove env argv
  | .rpoplpush => rpoplpush env argv
  | .sadd => sadd env argv
  | .srem => srem env argv
  | .smembers => smembers env argv
  | .sismember => sismember env argv
  | .scard => scard env argv
  | .spop => spop env argv
  | .srandmember => srandmember env argv
  | .smove => smove env argv
  | .sinter => sinter env argv
  | .sunion => sunion env argv
  | .sdiff => sdiff env argv
  | .sinterstore => sinterstore env argv
  | .sunionstore => sunionstore env argv
  | .sdiffstore => sdiffstore env argv
  | .zadd => zadd env argv lower
  | .zscore => zscore env argv
  | .zcard => zcard env argv
  | .zrange => zrange env argv
  | .zrevrange => zrevrange env argv
  | .zrangebyscore => zrangebyscore env argv
  | .zrevrangebyscore => zrevrangebyscore env argv
  | .zrank => zrank env argv
  | .zrevrank => zrevrank env argv
  | .zcount => zcount env argv
  | .zrem => zrem env argv
  | .zincrby => zincrby env argv
  | .zpopmin => zpopmin env argv
  | .zpopmax => zpopmax env argv
  | .zremrangebyrank => zremrangebyrank env argv
  | .zremrangebyscore => zremrangebyscore env argv
  | .multi | .exec | .discard => pure ()

end TinyRedis.Commands

import TinyRedis.Commands.Invariant

/-!
# What commands access

What a command may do is a matter of what its lookup of the first key finds. Three things are said
here of a command in terms of this: whether it writes into a value through a pointer
(`Access.writes`), whether it accesses a null pointer (`usesNull`), and which argument it reads past
the end of `argv`, if any (`overrun`).
-/

namespace TinyRedis.Commands

open Lib

/-- The type of value that a command looks its first key up for, if it looks for one. -/
def keyType : Cmd → ValueType
  | .hset | .hmset | .hget | .hmget | .hgetall | .hdel | .hexists | .hlen | .hkeys | .hvals
  | .hsetnx | .hincrby | .hincrbyfloat | .hstrlen => .kHash
  | .lpush | .rpush | .lpop | .rpop | .llen | .lrange | .lindex | .lset | .lrem | .linsert | .ltrim
  | .lmove | .rpoplpush => .kList
  | .sadd | .srem | .smembers | .sismember | .scard | .spop | .srandmember | .smove => .kSet
  | .zadd | .zscore | .zcard | .zrange | .zrevrange | .zrangebyscore | .zrevrangebyscore | .zrank
  | .zrevrank | .zcount | .zrem | .zincrby | .zpopmin | .zpopmax | .zremrangebyrank
  | .zremrangebyscore => .kZSet
  | _ => .kString

/-- How a command writes into values through a pointer. -/
inductive Access where
  /-- It does not. -/
  | none
  /-- Into the value of its first key, which it creates if it is missing. -/
  | create
  /-- Into the value of its first key. -/
  | modify
  /-- In another way. -/
  | other
  deriving DecidableEq, Repr

/-- How a command writes. -/
def access : Cmd → Access
  | .append | .setrange | .incr | .decr | .incrby | .decrby | .incrbyfloat | .hset | .hmset
  | .hsetnx | .hincrby | .hincrbyfloat | .lpush | .rpush | .sadd | .zadd | .zincrby => .create
  | .hdel | .lpop | .rpop | .lset | .lrem | .linsert | .ltrim | .srem | .spop | .zrem | .zpopmin
  | .zpopmax | .zremrangebyrank | .zremrangebyscore => .modify
  | .rename | .lmove | .rpoplpush | .smove => .other
  | _ => .none

/-- Whether there may be a write, from what the lookup of the first key finds. -/
def Access.writes : Access → LookupResult → Bool
  | .none, _ => false
  | .create, r => decide (r ≠ .wrongType)
  | .modify, r => decide (r = .found)
  | .other, _ => true

/-- The commands that use the pointer of `GetTyped` also when the key is missing. -/
def usesNull : Cmd → Bool
  | .hget | .hmget | .hdel | .hstrlen | .srem | .zscore | .zrem => true
  | _ => false

/-- The index of the argument that is read past the end of `argv`. -/
def overrun (argv : Args) (c : Cmd) (r : LookupResult) : Option ℕ :=
  match c with
  | .config =>
    if toUpper (argv.getD 1 []) = bytes "SET" ∧ toLower (argv.getD 2 []) = bytes "maxmemory" ∧
      argv.length ≤ 3 then some 3 else none
  | .client =>
    if toUpper (argv.getD 1 []) = bytes "SETNAME" ∧ argv.length ≤ 2 then some 2 else none
  | .zrange =>
    if r ≠ .wrongType ∧ parseIntStrict (argv.getD 2 []) ≠ none ∧ argv.length ≤ 3 then some 3
    else none
  | _ => none

/-- The least number of arguments of a command, by `ArityTable`. -/
def minArgs (c : Cmd) : ℕ := ((arityTable.find? fun r => r.cmd = c).map Arity.min).getD 0

/-- The arity table asks for every argument that is read unconditionally. -/
theorem minArgs_le : ∀ r ∈ arityTable, minArgs r.cmd ≤ r.min := by decide +kernel

/-- A request that passes the arity check has the least number of arguments. -/
theorem le_of_arityOk {r : Arity} {argc : ℕ} (h : arityOk r argc = true) : r.min ≤ argc := by
  unfold arityOk at h
  rw [Bool.and_eq_true, decide_eq_true_iff] at h
  have hbmod : Int.bmod argc (2 ^ 32) ≤ argc := by
    rw [Int.bmod_def]
    split_ifs <;> omega
  omega

/-- A command that is found and passes the arity check has the arguments that its handler needs. -/
theorem minArgs_le_of_arityOk {upper : Bytes} {r : Arity} {argc : ℕ}
    (hr : findCommand upper = some r) (h : arityOk r argc = true) : minArgs r.cmd ≤ argc :=
  (minArgs_le r (List.mem_of_find?_eq_some hr)).trans (le_of_arityOk h)

/-- The commands that write into a hash, a list, a set, or a sorted set, or move one. -/
def shapesValue (c : Cmd) : Bool :=
  c ∈ ([.rename, .hset, .hmset, .hdel, .hsetnx, .hincrby, .hincrbyfloat, .lpush, .rpush, .lpop,
    .rpop, .lset, .lrem, .linsert, .ltrim, .lmove, .rpoplpush, .sadd, .srem, .spop, .smove,
    .sinterstore, .sunionstore, .sdiffstore, .zadd, .zrem, .zincrby, .zpopmin, .zpopmax,
    .zremrangebyrank, .zremrangebyscore] : List Cmd)

end TinyRedis.Commands

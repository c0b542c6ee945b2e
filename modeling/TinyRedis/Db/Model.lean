import TinyRedis.Double
import TinyRedis.Lib.Dict

/-!
# Values and the database: `include/value.h` and `src/db.cpp`

An `unordered_map` is a finite map, with its entries in the order of iteration, and an
`unordered_set` is one without values. A key space is one of 16, and so is its index.

The functions that read the clock take what they read as an argument. `used_memory` and the other
counters are natural numbers: they count bytes that are in memory.
-/

namespace TinyRedis

open Lib

/-- `ZSetValue`: a skip list of the pairs, and the scores by member. -/
structure ZSetValue where
  sl : SkipList Double
  dict : Dict Bytes Double

/-- `Value`. -/
inductive Value where
  | rawString (s : Bytes)
  | hash (h : Dict Bytes Bytes)
  | list (l : List Bytes)
  | set (s : Dict Bytes Unit)
  | zset (z : ZSetValue)

/-- `ValueType`. -/
inductive ValueType where
  | kString
  | kHash
  | kList
  | kSet
  | kZSet
  deriving DecidableEq, Repr

/-- `ValueTypeName`. -/
def valueTypeName : ValueType → Bytes
  | .kString => bytes "string"
  | .kHash => bytes "hash"
  | .kList => bytes "list"
  | .kSet => bytes "set"
  | .kZSet => bytes "zset"

/-- `TypeOf`. -/
def typeOf : Value → ValueType
  | .rawString _ => .kString
  | .hash _ => .kHash
  | .list _ => .kList
  | .set _ => .kSet
  | .zset _ => .kZSet

/-- `Entry`. -/
structure Entry where
  value : Value
  /-- The deadline in milliseconds, 0 for none. -/
  expiresAtMs : Int64

/-- `Table`. -/
abbrev Table := Dict Bytes Entry

/-- `kNumDatabases`. -/
def kNumDatabases : ℕ := 16

/-- The index of a key space. -/
abbrev DbIndex := Fin kNumDatabases

/-- `Database`. -/
structure Database where
  /-- `dbs_`. -/
  dbs : DbIndex → Table
  /-- `used_`. -/
  used : ℕ
  /-- `max_memory_`, 0 for unlimited. -/
  maxMemory : ℕ
  /-- `total_expired_`. -/
  totalExpired : ℕ

namespace Database

/-- `Database()`. -/
def empty : Database := ⟨fun _ => ∅, 0, 0, 0⟩

/-- `ValueSize`. -/
def valueSize : Value → ℕ
  | .rawString s => 16 + s.length
  | .hash h => 32 + h.weight fun k v => 16 + k.length + v.length
  | .list l => 16 + (l.map fun s => 8 + s.length).sum
  | .set s => 16 + s.weight fun e _ => 16 + e.length
  | .zset z => 32 + z.dict.weight fun m _ => 16 + m.length

/-- `EntrySize`. -/
def entrySize (key : Bytes) (e : Entry) : ℕ := 48 + key.length + valueSize e.value

/-- `table`. -/
def table (db : Database) (i : DbIndex) : Table := db.dbs i

/-- Write to a key space. -/
def setTable (db : Database) (i : DbIndex) (t : Table) : Database :=
  { db with dbs := Function.update db.dbs i t }

/-- `MemAdd`. -/
def memAdd (db : Database) (n : ℕ) : Database := { db with used := db.used + n }

/-- `MemSub`, which stops at zero. -/
def memSub (db : Database) (n : ℕ) : Database :=
  if n ≤ db.used then { db with used := db.used - n } else { db with used := 0 }

/-- Whether a deadline has come at the time `now`. -/
def expired (e : Entry) (now : Int64) : Bool :=
  decide (e.expiresAtMs ≠ 0) && decide (e.expiresAtMs ≤ now)

/-- `Lookup` at the time `now`: an entry whose deadline has come is dropped. -/
def lookup (db : Database) (i : DbIndex) (key : Bytes) (now : Int64) : Option Entry × Database :=
  match (db.table i).lookup key with
  | none => (none, db)
  | some e =>
    if expired e now then
      let db := db.memSub (entrySize key e)
      let db := db.setTable i ((db.table i).erase key)
      (none, { db with totalExpired := db.totalExpired + 1 })
    else (some e, db)

/-- `Set`. -/
def set (db : Database) (i : DbIndex) (key : Bytes) (value : Value) (expiresAtMs : Int64) :
    Database :=
  let e : Entry := ⟨value, expiresAtMs⟩
  let db := match (db.table i).lookup key with
    | none => db
    | some old => db.memSub (entrySize key old)
  (db.setTable i ((db.table i).insert key e)).memAdd (entrySize key e)

/-- `Delete`. -/
def delete (db : Database) (i : DbIndex) (key : Bytes) : Bool × Database :=
  match (db.table i).lookup key with
  | none => (false, db)
  | some e =>
    let db := db.memSub (entrySize key e)
    (true, db.setTable i ((db.table i).erase key))

/-- Write to an entry through a pointer to it, which `used_memory` knows nothing about. -/
def assign (db : Database) (i : DbIndex) (key : Bytes) (e : Entry) : Database :=
  db.setTable i ((db.table i).insert key e)

/-- `Size`. -/
def size (db : Database) (i : DbIndex) : ℕ := (db.table i).size

/-- `TotalKeys`. -/
def totalKeys (db : Database) : ℕ := ((List.finRange kNumDatabases).map db.size).sum

/-- `TotalExpires`. -/
def totalExpires (db : Database) : ℕ :=
  ((List.finRange kNumDatabases).map fun i =>
    (db.table i).entries.countP fun kv => kv.2.expiresAtMs ≠ 0).sum

/-- `FlushDb`. -/
def flushDb (db : Database) (i : DbIndex) : Database :=
  let db := (db.table i).entries.foldl (fun db kv => db.memSub (entrySize kv.1 kv.2)) db
  db.setTable i ∅

/-- `FlushAll`. -/
def flushAll (db : Database) : Database := (List.finRange kNumDatabases).foldl flushDb db

/-- `kSampleWindow`. -/
def kSampleWindow : ℕ := 200

/-- One key of `ActiveExpireCycle`: `deleted` and the database. -/
def expireKey (i : DbIndex) (now : Int64) (s : ℕ × Database) (kv : Bytes × Entry) : ℕ × Database :=
  if expired kv.2 now then
    let db := s.2.memSub (entrySize kv.1 kv.2)
    let db := db.setTable i ((db.table i).erase kv.1)
    (s.1 + 1, { db with totalExpired := db.totalExpired + 1 })
  else s

/-- `ActiveExpireCycle` on one key space. It goes over the keys in the order `keys` of iteration,
from a random offset. -/
def expireTable (i : DbIndex) (rng : ℕ) (keys : List (Bytes × Entry)) (now : Int64)
    (s : ℕ × Database) : ℕ × Database :=
  if keys = [] then s
  else
    let size := keys.length
    let offset := rng % if size < kSampleWindow then size else kSampleWindow
    ((keys.drop offset).take kSampleWindow).foldl (expireKey i now) s

end Database

end TinyRedis

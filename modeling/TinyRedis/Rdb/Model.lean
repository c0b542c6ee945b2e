import TinyRedis.Db.Model
import TinyRedis.Lib.ByteReader
import TinyRedis.Lib.LittleEndian

/-!
# Snapshots: `src/rdb.cpp`

`Serialize` writes a database as bytes, and `LoadFromFile` reads a database from the bytes of a
file. What the file system does is a parameter: whether the file opens, whether it can be read, and
what is in it. `(uint32_t)` of a size and `(uint64_t)` of a deadline keep the low bytes, which is
what `put` does.

The reader stays in a failed state, `ok == false`, from the first read over the end, and returns
zeros and empty strings from then on. Every access to the bytes of the file is a `slice`, which is
an `outOfRange` fault when it goes past the end.
-/

namespace TinyRedis.Rdb

open Lib

/-- `kMagic`. -/
def kMagic : Bytes := bytes "TINYREDIS01"

/-- `kMagicLen`. -/
def kMagicLen : ℕ := 11

/-! ## Checksum -/

/-- One bit of the checksum table. -/
def crcBit (c : UInt32) : UInt32 :=
  if c &&& 1 = 1 then (0xEDB88320 : UInt32) ^^^ (c >>> 1) else c >>> 1

/-- `table[i]`. -/
def crcTable (i : UInt8) : UInt32 := Nat.iterate crcBit 8 i.toUInt32

/-- `Crc32`. -/
def crc32 (data : Bytes) : UInt32 :=
  let crc := data.foldl (fun (crc : UInt32) b => crcTable (crc.toUInt8 ^^^ b) ^^^ (crc >>> 8))
    0xFFFFFFFF
  crc ^^^ 0xFFFFFFFF

/-! ## Writing -/

/-- `PutU8`. -/
def putU8 (out : Bytes) (v : ℕ) : Bytes := out ++ LittleEndian.put 1 v

/-- `PutU32`. -/
def putU32 (out : Bytes) (v : ℕ) : Bytes := out ++ LittleEndian.put 4 v

/-- `PutU64`. -/
def putU64 (out : Bytes) (v : ℕ) : Bytes := out ++ LittleEndian.put 8 v

/-- `PutF64`: the bytes of the double, in memory order. -/
def putF64 (out : Bytes) (v : Double) : Bytes := out ++ LittleEndian.put 8 v.bits.toNat

/-- `PutBytes`. -/
def putBytes (out s : Bytes) : Bytes := putU32 out s.length ++ s

/-- The number of a `ValueType`. -/
def typeCode : ValueType → ℕ
  | .kString => 0
  | .kHash => 1
  | .kList => 2
  | .kSet => 3
  | .kZSet => 4

/-- The payload of a value. -/
def putValue (out : Bytes) : Value → Bytes
  | .rawString s => putBytes out s
  | .hash h => h.toList.foldl (fun out kv => putBytes (putBytes out kv.1) kv.2) (putU32 out h.size)
  | .list l => l.foldl putBytes (putU32 out l.length)
  | .set s => s.toList.foldl (fun out kv => putBytes out kv.1) (putU32 out s.size)
  | .zset z => z.dict.toList.foldl (fun out kv => putF64 (putBytes out kv.1) kv.2)
    (putU32 out z.dict.size)

/-- One entry of a table. -/
def putEntry (out : Bytes) (kv : Bytes × Entry) : Bytes :=
  let out := putU8 out (typeCode (typeOf kv.2.value))
  let out := putBytes out kv.1
  let out := putU64 out kv.2.expiresAtMs.toUInt64.toNat
  putValue out kv.2.value

/-- One table. -/
def putTable (db : Database) (out : Bytes) (idx : DbIndex) : Bytes :=
  let out := putU8 out idx
  let out := putU32 out (db.table idx).size
  (db.table idx).toList.foldl putEntry out

/-- The indices of the tables that have entries. -/
def usedTables (db : Database) : List DbIndex :=
  (List.finRange kNumDatabases).filter fun i => !(db.table i).entries.isEmpty

/-- `Serialize` up to the checksum. -/
def serializeBody (db : Database) : Bytes :=
  (usedTables db).foldl (putTable db) (putU8 kMagic (usedTables db).length)

/-- `Serialize`. -/
def serialize (db : Database) : Bytes :=
  putU32 (serializeBody db) (crc32 (serializeBody db)).toNat

/-! ## Reading -/

/-- The `n` bytes of a buffer from `pos` on. -/
def slice (buf : Bytes) (pos n : ℕ) : Except Fault Bytes :=
  if pos + n ≤ buf.length then .ok ((buf.drop pos).take n) else .error .outOfRange

/-- `Reader`. -/
structure Reader where
  buf : Bytes
  pos : ℕ
  ok : Bool

namespace Reader

/-- Read `n` bytes, or fail and return `default`: `Need(n)` and what is done after it. -/
def take {α : Type} (n : ℕ) (default : α) (get : Bytes → α) (r : Reader) :
    Except Fault (α × Reader) :=
  if !r.ok || decide (r.buf.length < r.pos + n) then .ok (default, { r with ok := false })
  else do
    let s ← slice r.buf r.pos n
    .ok (get s, { r with pos := r.pos + n })

/-- `U8`. -/
def u8 : Reader → Except Fault (ℕ × Reader) := take 1 0 LittleEndian.get

/-- `U32`. -/
def u32 : Reader → Except Fault (ℕ × Reader) := take 4 0 LittleEndian.get

/-- `U64`. -/
def u64 : Reader → Except Fault (ℕ × Reader) := take 8 0 LittleEndian.get

/-- `F64`. -/
def f64 : Reader → Except Fault (Double × Reader) :=
  take 8 ⟨0⟩ fun s => ⟨UInt64.ofNat (LittleEndian.get s)⟩

/-- `Bytes`. -/
def bytes (len : ℕ) : Reader → Except Fault (Bytes × Reader) := take len [] id

end Reader

/-- Why a dump is not loaded. -/
inductive LoadError where
  /-- `*err` is set and `LoadFromFile` returns false. -/
  | refused (msg : Bytes)
  | fault (f : Fault)

/-- The state of `LoadFromFile`: the reader, and the number of `RandomLevel` draws. -/
structure LoadState where
  r : Reader
  draws : ℕ

/-- Code of `LoadFromFile`. -/
abbrev LoadM := StateT LoadState (Except LoadError)

/-- Return with an error message. -/
def refuse {α : Type} (msg : Bytes) : LoadM α := fun _ => .error (.refused msg)

/-- A call of the reader. -/
def read {α : Type} (f : Reader → Except Fault (α × Reader)) : LoadM α := fun s =>
  match f s.r with
  | .error f => .error (.fault f)
  | .ok (a, r) => .ok (a, { s with r := r })

/-- `r.ok`. -/
def readerOk : LoadM Bool := fun s => .ok (s.r.ok, s)

/-- `r.Bytes(r.U32())`. -/
def readBytes : LoadM Bytes := do
  let len ← read Reader.u32
  read (Reader.bytes len)

/-- `sl.Insert(score, member)`, with a new draw. -/
def slInsert (flips : ℕ → ℕ → Bool) (sl : SkipList Double) (score : Double) (member : Bytes) :
    LoadM (SkipList Double) := fun s =>
  match sl.insert (SkipList.randomLevel (flips s.draws)) score member with
  | .error f => .error (.fault f)
  | .ok (_, sl) => .ok (sl, { s with draws := s.draws + 1 })

/-- The loop over the elements of a collection. -/
def readLoop {α : Type} (step : α → LoadM α) : ℕ → α → LoadM α
  | 0, a => pure a
  | n + 1, a => do
    if ← readerOk then do
      let a ← step a
      readLoop step n a
    else pure a

/-- The loops over the tables, and over the entries of a table. They leave by `return` only. -/
def readTimes {α : Type} (step : α → LoadM α) : ℕ → α → LoadM α
  | 0, a => pure a
  | n + 1, a => do
    let a ← step a
    readTimes step n a

/-- One field of a hash, which is not put in twice. -/
def readField (h : Dict Bytes Bytes) : LoadM (Dict Bytes Bytes) := do
  let fk ← readBytes
  let fv ← readBytes
  pure (if fk ∈ h then h else h.insert fk fv)

/-- One element of a list. -/
def readElement (l : List Bytes) : LoadM (List Bytes) := do
  let s ← readBytes
  pure (l ++ [s])

/-- One member of a set. -/
def readMember (s : Dict Bytes Unit) : LoadM (Dict Bytes Unit) := do
  let m ← readBytes
  pure (if m ∈ s then s else s.insert m ())

/-- One member of a sorted set. -/
def readZMember (flips : ℕ → ℕ → Bool) (z : ZSetValue) : LoadM ZSetValue := do
  let member ← readBytes
  let score ← read Reader.f64
  let sl ← slInsert flips z.sl score member
  pure ⟨sl, z.dict.insert member score⟩

/-- The payload of a value. -/
def readValue (flips : ℕ → ℕ → Bool) (type : ℕ) : LoadM Value :=
  match type with
  | 0 => do
    let s ← readBytes
    pure (.rawString s)
  | 1 => do
    let n ← read Reader.u32
    let h ← readLoop readField n ∅
    pure (.hash h)
  | 2 => do
    let n ← read Reader.u32
    let l ← readLoop readElement n []
    pure (.list l)
  | 3 => do
    let n ← read Reader.u32
    let s ← readLoop readMember n ∅
    pure (.set s)
  | 4 => do
    let n ← read Reader.u32
    let z ← readLoop (readZMember flips) n ⟨SkipList.empty, ∅⟩
    pure (.zset z)
  | _ => refuse (bytes "unknown value type in dump")

/-- One entry, which is put into `fresh`. -/
def readEntry (flips : ℕ → ℕ → Bool) (idx : DbIndex) (fresh : Database) : LoadM Database := do
  let type ← read Reader.u8
  let klen ← read Reader.u32
  let key ← read (Reader.bytes klen)
  let exp ← read Reader.u64
  if !(← readerOk) then refuse (bytes "truncated entry")
  else do
    let v ← readValue flips type
    if !(← readerOk) then refuse (bytes "truncated value")
    else pure (fresh.set idx key v (UInt64.ofNat exp).toInt64)

/-- One table. -/
def readTable (flips : ℕ → ℕ → Bool) (fresh : Database) : LoadM Database := do
  let idx ← read Reader.u8
  let count ← read Reader.u32
  let ok ← readerOk
  if h : ok = true ∧ idx < kNumDatabases then readTimes (readEntry flips ⟨idx, h.2⟩) count fresh
  else refuse (bytes "bad db index")

/-- `LoadFromFile` after the checks of the magic and the checksum, up to the replacement of the
database. -/
def readDump (flips : ℕ → ℕ → Bool) : LoadM Database := do
  let ndbs ← read Reader.u8
  if !(← readerOk) then refuse (bytes "truncated header")
  else readTimes (readTable flips) ndbs .empty

/-- What the file system has for a path. -/
inductive File where
  | missing
  | unreadable
  | data (s : Bytes)

/-- The check of the size and the magic, by `memcmp`. -/
def hasMagic (data : Bytes) : Except Fault Bool :=
  if data.length < kMagicLen + 5 then .ok false
  else do
    let magic ← slice data 0 kMagicLen
    .ok (magic = kMagic)

/-- The check of the checksum in the last four bytes. -/
def checksumOk (data : Bytes) : Except Fault Bool := do
  let body := data.length - 4
  let trailer ← slice data body 4
  let stored := LittleEndian.get trailer
  let summed ← slice data 0 body
  .ok ((crc32 summed).toNat = stored)

/-- The end of `LoadFromFile`: an error is returned, or the database is replaced. It is flushed
first, of which nothing is left. -/
def replaceBy (db : Database) :
    Except LoadError (Database × LoadState) → Except Fault (Option Bytes × Database)
  | .error (.refused msg) => .ok (some msg, db)
  | .error (.fault f) => .error f
  | .ok (fresh, _) => .ok (none, { fresh with maxMemory := db.maxMemory })

/-- `LoadFromFile`: the error message if it returns false, and the database. -/
def loadFromFile (flips : ℕ → ℕ → Bool) (path : Bytes) (file : File) (db : Database) :
    Except Fault (Option Bytes × Database) :=
  match file with
  | .missing => .ok (some (bytes "cannot open " ++ path), db)
  | .unreadable => .ok (some (bytes "short read on " ++ path), db)
  | .data s => do
    if !(← hasMagic s) then .ok (some (bytes "bad magic (not a TINYREDIS dump)"), db)
    else if !(← checksumOk s) then .ok (some (bytes "CRC mismatch (corrupt dump)"), db)
    else replaceBy db (readDump flips ⟨⟨s, kMagicLen, true⟩, 0⟩)

end TinyRedis.Rdb

import TinyRedis.Rdb.File

/-!
# The format of a snapshot: `include/rdb.h`

A dump as it is documented: a list of sections, one for each table, with their entries. Texts and
counts that a length field cannot hold cannot be built. `layout` is the dump as bytes, up to the
checksum.

`Loads` says which databases a dump can be loaded to. The skip lists of the sorted sets depend on
the draws of `RandomLevel`; everything else is determined by the dump.
-/

namespace TinyRedis.Rdb

open Lib Lib.ByteReader

/-! ## Dumps -/

/-- A string with a length that fits its field. -/
abbrev Text := { s : Bytes // s.length < 2^32 }

/-- A list with a length that fits its field. -/
abbrev Counted (α : Type) := { l : List α // l.length < 2^32 }

/-- The payload of an entry. -/
inductive Payload where
  | string (s : Text)
  | hash (fields : Counted (Text × Text))
  | list (elements : Counted Text)
  | set (members : Counted Text)
  | zset (members : Counted (Text × Double))

/-- An entry. -/
structure Item where
  key : Text
  expiresAtMs : UInt64
  payload : Payload

/-- The entries of a table. -/
structure Section where
  idx : DbIndex
  items : Counted Item

/-- A dump. -/
abbrev Dump := { sections : List Section // sections.length < 2^8 }

/-! ## Bytes -/

/-- `u32 len, bytes`. -/
def Text.encode (s : Text) : Bytes := LittleEndian.put 4 s.1.length ++ s.1

/-- `f64`. -/
def encodeF64 (d : Double) : Bytes := LittleEndian.put 8 d.bits.toNat

/-- `u32 n, { .. } * n`. -/
def encodeAll {α : Type} (enc : α → Bytes) (l : Counted α) : Bytes :=
  LittleEndian.put 4 l.1.length ++ l.1.flatMap enc

/-- `{ u32 klen, k, u32 vlen, v }`. -/
def encodeField (kv : Text × Text) : Bytes := kv.1.encode ++ kv.2.encode

/-- `{ u32 mlen, member, f64 score }`. -/
def encodeScored (ms : Text × Double) : Bytes := ms.1.encode ++ encodeF64 ms.2

namespace Payload

/-- The number of the type. -/
def code : Payload → ℕ
  | .string _ => 0
  | .hash _ => 1
  | .list _ => 2
  | .set _ => 3
  | .zset _ => 4

/-- The bytes of a payload after its type byte. -/
def encode : Payload → Bytes
  | .string s => s.encode
  | .hash fields => encodeAll encodeField fields
  | .list elements => encodeAll Text.encode elements
  | .set members => encodeAll Text.encode members
  | .zset members => encodeAll encodeScored members

end Payload

/-- `u8 type, u32 key_len, key, u64 expires_at_ms, payload`. -/
def Item.encode (item : Item) : Bytes :=
  LittleEndian.put 1 item.payload.code ++ (item.key.encode ++
    (LittleEndian.put 8 item.expiresAtMs.toNat ++ item.payload.encode))

/-- `u8 idx, u32 count`, and the entries. -/
def Section.encode (sec : Section) : Bytes :=
  LittleEndian.put 1 sec.idx ++ encodeAll Item.encode sec.items

/-- What stands between the magic and the checksum. -/
def Dump.encode (dump : Dump) : Bytes :=
  LittleEndian.put 1 dump.1.length ++ dump.1.flatMap Section.encode

/-- A dump, up to its checksum. -/
def layout (dump : Dump) : Bytes := kMagic ++ dump.encode

/-- The bytes of a file are a dump and its checksum. -/
def Documented (s : Bytes) : Prop :=
  ∃ dump, s = layout dump ++ LittleEndian.put 4 (crc32 (layout dump)).toNat

/-! ## Databases -/

/-- A field is not put into a hash twice. -/
def addField (h : Dict Bytes Bytes) (kv : Text × Text) : Dict Bytes Bytes :=
  if kv.1.1 ∈ h then h else h.insert kv.1.1 kv.2.1

/-- A member is not put into a set twice. -/
def addMember (s : Dict Bytes Unit) (m : Text) : Dict Bytes Unit :=
  if m.1 ∈ s then s else s.insert m.1 ()

/-- A member of a sorted set is put into both indices, with some draw. -/
def AddScored (flips : ℕ → ℕ → Bool) (ms : Text × Double) (z z' : ZSetValue) : Prop :=
  ∃ draw added sl, z.sl.insert (SkipList.randomLevel (flips draw)) ms.2 ms.1.1 = .ok (added, sl) ∧
    z' = ⟨sl, z.dict.insert ms.1.1 ms.2⟩

/-- The members of a sorted set, one after another. -/
def LoadsZSet (flips : ℕ → ℕ → Bool) (members : List (Text × Double)) (z : ZSetValue) : Prop :=
  Steps (AddScored flips) members ⟨SkipList.empty, ∅⟩ z

/-- The value of a payload. -/
def LoadsValue (flips : ℕ → ℕ → Bool) : Payload → Value → Prop
  | .string s, v => v = .rawString s.1
  | .hash fields, v => v = .hash (fields.1.foldl addField ∅)
  | .list elements, v => v = .list (elements.1.map Subtype.val)
  | .set members, v => v = .set (members.1.foldl addMember ∅)
  | .zset members, v => ∃ z, v = .zset z ∧ LoadsZSet flips members.1 z

/-- An entry is put into a table. -/
def LoadsItem (flips : ℕ → ℕ → Bool) (i : DbIndex) (item : Item) (db db' : Database) : Prop :=
  ∃ v, LoadsValue flips item.payload v ∧
    db' = db.set i item.key.1 v item.expiresAtMs.toInt64

/-- The entries of a section are put into its table. -/
def LoadsSection (flips : ℕ → ℕ → Bool) (sec : Section) (db db' : Database) : Prop :=
  Steps (LoadsItem flips sec.idx) sec.items.1 db db'

/-- The database of a dump. -/
def Loads (flips : ℕ → ℕ → Bool) (dump : Dump) (db : Database) : Prop :=
  Steps (LoadsSection flips) dump.1 .empty db

end TinyRedis.Rdb

import TinyRedis.Rdb.Reading

/-!
# Loading any bytes

`LoadFromFile` of any file ends without a fault, and either leaves the database as it was or
replaces all of it (`loadFromFile_atomic`). Which files it accepts is `accepts_iff`: those with the
magic and the right checksum whose first bytes are a dump. The reader is bounded by the file and not
by the start of the checksum, and nobody looks where it has stopped, so a dump may end anywhere.
-/

namespace TinyRedis.Rdb

open Lib Lib.ByteReader List

variable {s : Bytes} {dump : Dump} {rest : Bytes}

/-- The cursor starts within the buffer. -/
theorem good_start (h : Headed s) : Good (start s) :=
  ⟨le_trans (show kMagicLen ≤ kMagicLen + 5 by decide) h.1, rfl⟩

/-- The cursor starts behind the magic. -/
theorem view_start (h : Headed s) : view (start s) = some (s.drop kMagicLen) :=
  view_of_good (good_start h)

/-- The magic stands in front of what is read. -/
theorem eq_layout_append (h : Headed s) (dump : Dump) (rest : Bytes) :
    s = layout dump ++ rest ↔ s.drop kMagicLen = dump.encode ++ rest := by
  have hlen : kMagicLen = kMagic.length := rfl
  unfold layout
  constructor
  · intro hs
    rw [hs, append_assoc, hlen, drop_left]
  · intro hs
    rw [append_assoc, ← hs, ← h.2, take_append_drop]

/-- A layout starts with the magic. -/
theorem take_layout (dump : Dump) (rest : Bytes) :
    (layout dump ++ rest).take kMagicLen = kMagic := by
  have hlen : kMagicLen = kMagic.length := rfl
  rw [layout, append_assoc, hlen, take_left]

/-- How the reading of a dump ends: with an error message, or with the database of the first bytes
of the file. -/
theorem readDump_start (flips : ℕ → ℕ → Bool) (h : Headed s) :
    (∃ msg, readDump flips (start s) = .error (.refused msg)) ∨
      ∃ fresh s' dump rest, readDump flips (start s) = .ok (fresh, s') ∧
        s = layout dump ++ rest ∧ Loads flips dump fresh := by
  cases hr : readDump flips (start s) with
  | error e =>
    obtain ⟨msg, rfl⟩ := (safe_readDump flips).triple.of_error (good_start h) hr
    exact .inl ⟨msg, rfl⟩
  | ok p =>
    have hgood := ((safe_readDump flips).triple.of_ok (good_start h) hr).1
    obtain ⟨bs, hbs, dump, rfl, hload⟩ :=
      takes_readDump flips _ p.1 p.2 _ hr (view_of_good hgood)
    rw [view_start h, Option.some.injEq, ← eq_layout_append h] at hbs
    exact .inr ⟨p.1, p.2, dump, _, rfl, hbs, hload⟩

/-- A dump is read, whatever comes after it. -/
theorem readDump_layout (flips : ℕ → ℕ → Bool) (h : Headed s) (hs : s = layout dump ++ rest) :
    ∃ fresh s', readDump flips (start s) = .ok (fresh, s') ∧ Loads flips dump fresh ∧
      view s' = some rest :=
  reads_dump flips dump (start s) rest
    ((view_start h).trans (congrArg some ((eq_layout_append h dump rest).1 hs)))

/-- The dump at the beginning of a file ends at one place only. -/
theorem layout_rest_unique (h : Headed s) {dump' : Dump} {rest' : Bytes}
    (hs : s = layout dump ++ rest) (hs' : s = layout dump' ++ rest') : rest = rest' := by
  obtain ⟨_, s₁, hr, -, hv⟩ := readDump_layout (fun _ _ => false) h hs
  obtain ⟨_, s₂, hr', -, hv'⟩ := readDump_layout (fun _ _ => false) h hs'
  rw [hr] at hr'
  cases hr'
  rw [hv] at hv'
  exact Option.some.inj hv'

/-! ## Every file -/

/-- `LoadFromFile` of any bytes ends without a fault. Either it returns false for every database and
leaves it as it was, or it replaces every database by the same one, up to the limit of the memory,
which is kept. -/
theorem loadFromFile_atomic (flips : ℕ → ℕ → Bool) (path s : Bytes) :
    (∃ msg, ∀ db, loadFromFile flips path (.data s) db = .ok (some msg, db)) ∨
      ∃ fresh : Database, ∀ db, loadFromFile flips path (.data s) db =
        .ok (none, { fresh with maxMemory := db.maxMemory }) := by
  simp only [loadFromFile_data]
  by_cases hhead : Headed s
  · by_cases hseal : Sealed s
    · simp only [if_pos hhead, if_pos hseal]
      rcases readDump_start flips hhead with ⟨msg, hr⟩ | ⟨fresh, s', -, -, hr, -⟩
      · exact .inl ⟨msg, fun db => congrArg (replaceBy db) hr⟩
      · exact .inr ⟨fresh, fun db => congrArg (replaceBy db) hr⟩
    · exact .inl ⟨_, fun db => by rw [if_pos hhead, if_neg hseal]⟩
  · exact .inl ⟨_, fun db => if_neg hhead⟩

/-! ## Which files are accepted -/

/-- What is loaded from an accepted file is what the dump at its beginning says. -/
theorem loadFromFile_eq_none {flips : ℕ → ℕ → Bool} {path : Bytes} {target db : Database}
    (h : loadFromFile flips path (.data s) target = .ok (none, db)) :
    Headed s ∧ Sealed s ∧ ∃ dump rest fresh, s = layout dump ++ rest ∧ Loads flips dump fresh ∧
      db = { fresh with maxMemory := target.maxMemory } := by
  rw [loadFromFile_data] at h
  split_ifs at h with hhead hseal
  · rcases readDump_start flips hhead with ⟨msg, hr⟩ | ⟨fresh, s', dump, rest, hr, hs, hload⟩
    · rw [hr] at h
      cases h
    · rw [hr] at h
      cases h
      exact ⟨hhead, hseal, dump, rest, fresh, hs, hload, rfl⟩
  · cases h
  · cases h

/-- A file that begins with a dump is accepted, if its size and its checksum are right. -/
theorem loadFromFile_of_layout (flips : ℕ → ℕ → Bool) (path : Bytes) (target : Database)
    (hhead : Headed s) (hseal : Sealed s) (hs : s = layout dump ++ rest) :
    ∃ fresh, Loads flips dump fresh ∧ loadFromFile flips path (.data s) target =
      .ok (none, { fresh with maxMemory := target.maxMemory }) := by
  obtain ⟨fresh, s', hr, hload, -⟩ := readDump_layout flips hhead hs
  refine ⟨fresh, hload, ?_⟩
  rw [loadFromFile_data, if_pos hhead, if_pos hseal]
  exact congrArg (replaceBy target) hr

/-- The files that are accepted. -/
theorem accepts_iff (flips : ℕ → ℕ → Bool) (path s : Bytes) (target : Database) :
    (∃ db, loadFromFile flips path (.data s) target = .ok (none, db)) ↔
      Headed s ∧ Sealed s ∧ ∃ dump rest, s = layout dump ++ rest := by
  constructor
  · rintro ⟨db, h⟩
    obtain ⟨hhead, hseal, dump, rest, -, hs, -⟩ := loadFromFile_eq_none h
    exact ⟨hhead, hseal, dump, rest, hs⟩
  · rintro ⟨hhead, hseal, dump, rest, hs⟩
    obtain ⟨fresh, -, hr⟩ := loadFromFile_of_layout flips path target hhead hseal hs
    exact ⟨_, hr⟩

/-- A dump with its checksum has the magic and is sealed. -/
theorem headed_sealed_layout (dump : Dump) :
    Headed (layout dump ++ LittleEndian.put 4 (crc32 (layout dump)).toNat) ∧
      Sealed (layout dump ++ LittleEndian.put 4 (crc32 (layout dump)).toNat) := by
  have hcrc := (crc32 (layout dump)).toNat_lt
  have hlen : kMagicLen + 1 ≤ (layout dump).length := by
    unfold layout Dump.encode
    rw [length_append, length_append, LittleEndian.length_put]
    show 12 ≤ 11 + (1 + _)
    omega
  refine ⟨⟨?_, take_layout dump _⟩, ?_⟩
  · rw [length_append, LittleEndian.length_put]
    omega
  · unfold Sealed
    rw [length_append, LittleEndian.length_put, Nat.add_sub_cancel, take_left,
      drop_left, LittleEndian.get_put_of_lt (by omega)]

/-- A file that begins with a dump is documented when the dump ends where the checksum begins. -/
theorem documented_iff (hhead : Headed s) (hseal : Sealed s) (hs : s = layout dump ++ rest) :
    Documented s ↔ rest.length = 4 := by
  constructor
  · rintro ⟨dump', hs'⟩
    rw [layout_rest_unique hhead hs hs', LittleEndian.length_put]
  · intro hlen
    refine ⟨dump, hs.trans ?_⟩
    unfold Sealed at hseal
    rw [hs, length_append, hlen, Nat.add_sub_cancel, take_left, drop_left] at hseal
    rw [hseal, ← hlen, LittleEndian.put_get]

/-- Where the file begins with a dump, and its size and checksum are right, the dump ends where the
checksum begins. -/
def EndsAtChecksum (s : Bytes) : Prop :=
  ∀ dump rest, s = layout dump ++ rest → kMagicLen + 5 ≤ s.length → Sealed s → rest.length = 4

/-- What is accepted is documented exactly where a dump at the beginning of the file ends at the
checksum. -/
theorem accepted_documented_iff (flips : ℕ → ℕ → Bool) (path s : Bytes) (target : Database) :
    ((∃ db, loadFromFile flips path (.data s) target = .ok (none, db)) → Documented s) ↔
      EndsAtChecksum s := by
  rw [accepts_iff]
  constructor
  · intro h dump rest hs hlen hseal
    have hmagic : s.take kMagicLen = kMagic := by
      rw [hs, take_layout]
    exact (documented_iff ⟨hlen, hmagic⟩ hseal hs).1 (h ⟨⟨hlen, hmagic⟩, hseal, dump, rest, hs⟩)
  · rintro h ⟨hhead, hseal, dump, rest, hs⟩
    exact (documented_iff hhead hseal hs).2 (h dump rest hs hhead.1 hseal)

/-- A file with one string, whose length field runs over the four bytes of the checksum. -/
def overrun : Bytes :=
  kMagic ++ [1, 0, 1, 0, 0, 0, 0, 0, 0, 0, 0, 0, 0, 0, 0, 0, 0, 0, 0, 4, 0, 0, 0, 6, 57, 203, 100]

/-- The checksum is loaded as a string. -/
theorem overrun_accepted :
    (∃ db, loadFromFile (fun _ _ => false) [] (.data overrun) .empty = .ok (none, db) ∧
      (db.table ⟨0, by decide⟩).lookup [] = some ⟨.rawString [6, 57, 203, 100], 0⟩) ∧
    ¬Documented overrun := by
  have hhead : Headed overrun := by decide
  have hseal : Sealed overrun := by decide +kernel
  -- The dump at the beginning of this file is all of it.
  have hdump : ∃ dump, overrun = layout dump ++ [] ∧ ∀ fresh, Loads (fun _ _ => false) dump fresh →
      (fresh.table ⟨0, by decide⟩).lookup [] = some ⟨.rawString [6, 57, 203, 100], 0⟩ := by
    refine ⟨⟨[⟨⟨0, by decide⟩, ⟨[⟨⟨[], by decide⟩, 0, .string ⟨[6, 57, 203, 100], by decide⟩⟩],
      by decide⟩⟩], by decide⟩, by decide, fun fresh hload => ?_⟩
    obtain ⟨db, ⟨db', ⟨v, hv, rfl⟩, hdb⟩, rfl⟩ := hload
    cases hdb
    cases hv
    rfl
  obtain ⟨dump, hs, hvalue⟩ := hdump
  constructor
  · obtain ⟨fresh, hload, hr⟩ := loadFromFile_of_layout (fun _ _ => false) [] .empty hhead hseal hs
    exact ⟨_, hr, hvalue fresh hload⟩
  · intro h
    cases (documented_iff hhead hseal hs).1 h

end TinyRedis.Rdb

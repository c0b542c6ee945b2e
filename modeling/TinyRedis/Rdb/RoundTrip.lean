import TinyRedis.Db.Accounting
import TinyRedis.Rdb.Loading

/-!
# Snapshots load what was saved

What `Serialize` writes is a dump (`exists_dump`), which is loaded to the same content. A collection
comes back element by element: the maps come out in the opposite order, and a skip list is built
anew, from the pairs in the order of the dict. `load_serialize` puts these together.
-/

namespace TinyRedis.Rdb

open Lib Lib.ByteReader List

variable {db start db' : Database} {i : DbIndex} {flips : ℕ → ℕ → Bool} {X : Type}
  {kv : Bytes × Entry} {pre : List (Bytes × Entry)} {xs : List X} {v : Value}

/-! ## Values -/

/-- A value has the same content as another: strings and lists are equal, and hashes, sets, and
sorted sets have the same elements, with the same values and scores. The two indices of the new
sorted set are consistent. -/
def SameValue : Value → Value → Prop
  | .rawString s, .rawString s' => s' = s
  | .hash h, .hash h' => ∀ k, h'.lookup k = h.lookup k
  | .list l, .list l' => l' = l
  | .set s, .set s' => ∀ m, m ∈ s' ↔ m ∈ s
  | .zset z, .zset z' => (∀ m, z'.dict.lookup m = z.dict.lookup m) ∧ z'.Consistent
  | _, _ => False

/-- The lengths of the strings and the number of the elements are below `2^32`. -/
def Small : Value → Prop
  | .rawString s => s.length < 2^32
  | .hash h => h.size < 2^32 ∧ ∀ kv ∈ h.toList, kv.1.length < 2^32 ∧ kv.2.length < 2^32
  | .list l => l.length < 2^32 ∧ ∀ s ∈ l, s.length < 2^32
  | .set s => s.size < 2^32 ∧ ∀ kv ∈ s.toList, kv.1.length < 2^32
  | .zset z => z.dict.size < 2^32 ∧ ∀ kv ∈ z.dict.toList, kv.1.length < 2^32

/-- This can be decided. -/
instance : DecidablePred Small := fun v => by
  cases v <;> unfold Small <;> infer_instance

/-- A string is appended. -/
theorem appends_putBytes : Appends putBytes := fun out s => by simp [putBytes, putU32]

/-- A score is appended. -/
theorem appends_putF64 : Appends putF64 := fun out s => by simp [putF64]

/-- What is written for a collection is its size and its elements. -/
theorem putCollection {f : Bytes → X → Bytes} (hf : Appends f) (out : Bytes) (n : ℕ) (xs : List X) :
    xs.foldl f (putU32 out n) = out ++ (LittleEndian.put 4 n ++ xs.flatMap (f [])) := by
  rw [foldl_appends hf, putU32, append_assoc]

/-- A field of a hash is appended. -/
theorem appends_field : Appends fun out (kv : Bytes × Bytes) => putBytes (putBytes out kv.1) kv.2 :=
  appends_putBytes.comp appends_putBytes Prod.fst Prod.snd

/-- A member of a set is appended. -/
theorem appends_member : Appends fun out (kv : Bytes × Unit) => putBytes out kv.1 :=
  fun out kv => appends_putBytes out kv.1

/-- A member of a sorted set is appended. -/
theorem appends_zmember :
    Appends fun out (kv : Bytes × Double) => putF64 (putBytes out kv.1) kv.2 :=
  appends_putBytes.comp appends_putF64 Prod.fst Prod.snd

/-- A value is appended. -/
theorem appends_putValue : Appends putValue := by
  intro out v
  cases v with
  | rawString s => exact appends_putBytes out s
  | hash h => simp only [putValue, putCollection appends_field, nil_append]
  | list l => simp only [putValue, putCollection appends_putBytes, nil_append]
  | set s => simp only [putValue, putCollection appends_member, nil_append]
  | zset z => simp only [putValue, putCollection appends_zmember, nil_append]

/-- A list of things that come from others is the image of a list. -/
theorem exists_map_eq {Y : Type} {f : Y → X} {l : List X} (h : ∀ x ∈ l, ∃ y, f y = x) :
    ∃ l' : List Y, l'.map f = l := by
  have hl : l ∈ Set.range (List.map f) := by
    rw [Set.range_list_map]
    exact h
  exact hl

/-- The same for the pairs of a small map. -/
theorem exists_counted {Y V : Type} {f : Y → Bytes × V} {d : Dict Bytes V} (hd : d.size < 2^32)
    (h : ∀ kv ∈ d.toList, ∃ y, f y = kv) :
    ∃ l : Counted Y, l.1.map f = d.toList ∧ d.size = l.1.length := by
  obtain ⟨l, hl⟩ := exists_map_eq h
  have hlen : d.size = l.length := by rw [← Dict.length_toList, ← hl, length_map]
  exact ⟨⟨l, hlen ▸ hd⟩, hl, hlen⟩

/-- What is written for some things is what others stand for in a dump. -/
theorem exists_forall₂ {Y : Type} {enc : Y → Bytes} {put : X → Bytes} {R : Y → X → Prop}
    (l : List X) (h : ∀ x ∈ l, ∃ y, enc y = put x ∧ R y x) :
    ∃ ys, ys.flatMap enc = l.flatMap put ∧ List.Forall₂ R ys l := by
  induction l with
  | nil => exact ⟨[], rfl, .nil⟩
  | cons x l ih =>
    obtain ⟨y, hy, hR⟩ := h x mem_cons_self
    obtain ⟨ys, hys, hrel⟩ := ih fun x' hx' => h x' (mem_cons_of_mem _ hx')
    exact ⟨y :: ys, by rw [flatMap_cons, flatMap_cons, hy, hys], .cons hR hrel⟩

/-- A short string is a text. -/
theorem exists_text {s : Bytes} (h : s.length < 2^32) : ∃ t : Text, t.1 = s := ⟨⟨s, h⟩, rfl⟩

/-- What is written for a text. -/
theorem putBytes_text (t : Text) : putBytes [] t.1 = t.encode := by
  simp [putBytes, putU32, Text.encode]

/-- What is written for a collection is what stands in a dump for its elements. -/
theorem encodeAll_eq {Y : Type} {f : Y → X} {put : Bytes → X → Bytes} (hput : Appends put)
    {enc : Y → Bytes} (henc : ∀ y, put [] (f y) = enc y) (l : Counted Y) (hxs : l.1.map f = xs)
    {n : ℕ} (hn : n = l.1.length) :
    encodeAll enc l = xs.foldl put (putU32 [] n) := by
  rw [putCollection hput, nil_append, hn, ← hxs, flatMap_map]
  unfold encodeAll
  congr 2
  exact funext fun y => (henc y).symm

/-- What was taken from a map is put into an empty one. -/
theorem toList_rebuilt {V : Type} {f : X → Bytes × V} {add : Dict Bytes V → X → Dict Bytes V}
    (hadd : ∀ d x, (f x).1 ∉ d → add d x = d.insert (f x).1 (f x).2) {d : Dict Bytes V}
    (hxs : xs.map f = d.toList) :
    (xs.foldl add ∅).toList = d.toList.reverse := by
  have hempty : Dict.toList (∅ : Dict Bytes V) = [] := rfl
  rw [Dict.toList_foldl_add hadd xs ∅ (by
    rw [hxs, hempty, append_nil]
    exact Dict.toList_nodup d), hxs, hempty, append_nil]

/-- The members of a sorted set are distinct, so that every pair gets a node. -/
theorem loadsZSet_distinct (members : List (Text × Double)) {z z' : ZSetValue}
    (h : Steps (AddScored flips) members z z') (hz : z.Consistent)
    (hnd : ((members.map (fun ms => (ms.1.1, ms.2)) ++ z.dict.toList).map Prod.fst).Nodup) :
    z'.dict.toList = (members.map fun ms => (ms.1.1, ms.2)).reverse ++ z.dict.toList ∧
      z'.Consistent := by
  induction members generalizing z with
  | nil =>
    cases h
    exact ⟨rfl, hz⟩
  | cons ms members ih =>
    obtain ⟨z₁, ⟨draw, added, sl, hr, rfl⟩, h⟩ := h
    rw [map_cons, cons_append, map_cons, nodup_cons, map_append,
      mem_append, not_or, ← Dict.mem_iff_mem_toList] at hnd
    have hnew : ms.1.1 ∉ z.dict := hnd.1.2
    have hlist : Dict.toList (z.dict.insert ms.1.1 ms.2) = (ms.1.1, ms.2) :: z.dict.toList :=
      Dict.toList_insert hnew
    obtain ⟨hpos, hle⟩ := SkipList.randomLevel_bounds (flips draw)
    obtain ⟨h1, h2⟩ := ih h (hz.insert_new hpos hle hnew hr) (by
      rw [hlist, map_append, map_cons, nodup_middle, nodup_cons,
        mem_append, not_or, ← Dict.mem_iff_mem_toList]
      exact ⟨hnd.1, hnd.2⟩)
    refine ⟨?_, h2⟩
    rw [h1, hlist, map_cons, reverse_cons, append_assoc]
    rfl

/-- What is written for a value is a payload that is loaded to the same content. -/
theorem exists_payload (hv : Small v) :
    ∃ p : Payload, p.code = typeCode (typeOf v) ∧ p.encode = putValue [] v ∧
      ∀ flips v', LoadsValue flips p v' → SameValue v v' := by
  cases v with
  | rawString s =>
    obtain ⟨t, rfl⟩ := exists_text hv
    refine ⟨.string t, rfl, (putBytes_text t).symm, fun flips v' h => ?_⟩
    cases h
    rfl
  | hash h =>
    obtain ⟨fields, hfields, hlen⟩ := exists_counted
      (f := fun kv : Text × Text => (kv.1.1, kv.2.1)) hv.1 fun kv hkv =>
        ⟨(⟨kv.1, (hv.2 kv hkv).1⟩, ⟨kv.2, (hv.2 kv hkv).2⟩), rfl⟩
    refine ⟨.hash fields, rfl, encodeAll_eq appends_field (fun kv => ?_) fields hfields hlen,
      fun flips v' hv' => ?_⟩
    · dsimp only
      rw [appends_putBytes, putBytes_text, putBytes_text]
      rfl
    · cases hv'
      have hadd : ∀ (d : Dict Bytes Bytes) (kv : Text × Text), kv.1.1 ∉ d →
          addField d kv = d.insert kv.1.1 kv.2.1 := fun d kv hkv => if_neg hkv
      have hlist := toList_rebuilt hadd hfields
      exact Dict.lookup_of_perm (hlist ▸ reverse_perm _)
  | list l =>
    obtain ⟨elements, rfl⟩ := exists_map_eq (f := (Subtype.val : Text → Bytes))
      fun s hs => exists_text (hv.2 s hs)
    have hlen : (elements.map (Subtype.val : Text → Bytes)).length = elements.length :=
      length_map _
    have hcount : elements.length < 2^32 := hlen ▸ hv.1
    refine ⟨.list ⟨elements, hcount⟩, rfl, encodeAll_eq appends_putBytes putBytes_text
      ⟨elements, hcount⟩ rfl hlen, fun flips v' h => ?_⟩
    cases h
    rfl
  | set s =>
    obtain ⟨members, hmembers, hlen⟩ := exists_counted (f := fun t : Text => (t.1, ())) hv.1
      fun kv hkv => ⟨⟨kv.1, hv.2 kv hkv⟩, rfl⟩
    refine ⟨.set members, rfl, encodeAll_eq appends_member putBytes_text members hmembers hlen,
      fun flips v' h => ?_⟩
    cases h
    intro m
    have hadd : ∀ (d : Dict Bytes Unit) (t : Text), t.1 ∉ d → addMember d t = d.insert t.1 () :=
      fun d t ht => if_neg ht
    have hlist := toList_rebuilt hadd hmembers
    rw [Dict.mem_iff_mem_toList, hlist, map_reverse, mem_reverse, ← Dict.mem_iff_mem_toList]
  | zset z =>
    obtain ⟨members, hmembers, hlen⟩ := exists_counted
      (f := fun ms : Text × Double => (ms.1.1, ms.2)) hv.1 fun kv hkv =>
        ⟨(⟨kv.1, hv.2 kv hkv⟩, kv.2), rfl⟩
    refine ⟨.zset members, rfl, encodeAll_eq appends_zmember (fun ms => ?_) members hmembers hlen,
      ?_⟩
    · dsimp only
      rw [appends_putF64, putBytes_text]
      rfl
    · rintro flips v' ⟨z', rfl, h⟩
      have hempty : Dict.toList (∅ : Dict Bytes Double) = [] := rfl
      obtain ⟨h1, h2⟩ := loadsZSet_distinct members.1 h ZSetValue.consistent_empty (by
        rw [hmembers, hempty, append_nil]
        exact Dict.toList_nodup z.dict)
      rw [hmembers, hempty, append_nil] at h1
      exact ⟨Dict.lookup_of_perm (h1 ▸ reverse_perm _), h2⟩

/-! ## Tables -/

/-- An entry has the same deadline and a value with the same content. -/
def SameEntry (e e' : Entry) : Prop :=
  e'.expiresAtMs = e.expiresAtMs ∧ SameValue e.value e'.value

/-- A key space has the same keys as another, with the same entries. -/
def SameTable (t t' : Table) : Prop := ∀ key, Option.Rel SameEntry (t.lookup key) (t'.lookup key)

/-- The sizes in a database that are written with four bytes fit. -/
structure Fits (db : Database) : Prop where
  size_lt : ∀ i, (db.table i).size < 2^32
  key_lt : ∀ i, ∀ kv ∈ (db.table i).toList, kv.1.length < 2^32
  small : ∀ i, ∀ kv ∈ (db.table i).toList, Small kv.2.value

/-- An entry is appended. -/
theorem appends_putEntry : Appends putEntry := by
  intro out kv
  unfold putEntry putU64 putU8
  dsimp only
  rw [appends_putValue, appends_putBytes (out ++ _), appends_putValue (putBytes _ _ ++ _),
    appends_putBytes ([] ++ _)]
  simp only [append_assoc, nil_append]

/-- An entry of a dump is one of a table. -/
structure Describes (item : Item) (kv : Bytes × Entry) : Prop where
  key : item.key.1 = kv.1
  expiresAtMs : item.expiresAtMs.toInt64 = kv.2.expiresAtMs
  value : ∀ flips v, LoadsValue flips item.payload v → SameValue kv.2.value v

/-- What is written for an entry is an entry of a dump. -/
theorem exists_item (hkey : kv.1.length < 2^32) (hv : Small kv.2.value) :
    ∃ item : Item, item.encode = putEntry [] kv ∧ Describes item kv := by
  obtain ⟨p, hcode, hencode, hp⟩ := exists_payload hv
  refine ⟨⟨⟨kv.1, hkey⟩, kv.2.expiresAtMs.toUInt64, p⟩, ?_, rfl, Int64.toInt64_toUInt64 _, hp⟩
  unfold Item.encode putEntry putU64 putU8 putBytes putU32
  dsimp only
  rw [hcode, hencode, appends_putValue (_ ++ _)]
  simp only [Text.encode, append_assoc, nil_append]

/-- What is written for a table. -/
theorem putTable_eq (db : Database) (out : Bytes) (i : DbIndex) :
    putTable db out i = out ++ (LittleEndian.put 1 i ++ (LittleEndian.put 4 (db.table i).size ++
      (db.table i).toList.flatMap (putEntry []))) := by
  unfold putTable
  dsimp only
  rw [putCollection appends_putEntry]
  unfold putU8
  rw [append_assoc]

/-- A table is appended. -/
theorem appends_putTable (db : Database) : Appends (putTable db) := by
  intro out i
  rw [putTable_eq, putTable_eq db [] i, nil_append]

/-- What is written for a table is a section of a dump. -/
theorem exists_section (h : Fits db) (i : DbIndex) :
    ∃ sec : Section, sec.encode = putTable db [] i ∧ sec.idx = i ∧
      List.Forall₂ Describes sec.items.1 (db.table i).toList := by
  obtain ⟨items, hencode, hrel⟩ := exists_forall₂ (db.table i).toList fun kv hkv =>
    exists_item (h.key_lt i kv hkv) (h.small i kv hkv)
  have hlen : items.length = (db.table i).size := by rw [hrel.length_eq, Dict.length_toList]
  have hcount : items.length < 2^32 := hlen ▸ h.size_lt i
  refine ⟨⟨i, ⟨items, hcount⟩⟩, ?_, rfl, hrel⟩
  unfold Section.encode encodeAll
  dsimp only
  rw [putTable_eq, hencode, hlen]
  rfl

/-- After some entries of the table `t`: they are in the table `i` of the new database, the other
tables are as they were, and the sizes are accounted for. -/
structure Loaded (i : DbIndex) (start : Database) (pre : List (Bytes × Entry)) (db : Database) :
    Prop where
  found : ∀ kv ∈ pre, ∃ e, (db.table i).lookup kv.1 = some e ∧ SameEntry kv.2 e
  keys : ∀ key e, (db.table i).lookup key = some e → key ∈ pre.map Prod.fst
  others : ∀ j, j ≠ i → db.table j = start.table j
  accounted : db.Accounted

/-- One more entry. -/
theorem Loaded.concat (h : Loaded i start pre db) (hnew : kv.1 ∉ pre.map Prod.fst)
    (hv : SameValue kv.2.value v) :
    Loaded i start (pre ++ [kv]) (db.set i kv.1 v kv.2.expiresAtMs) := by
  have hlookup : ∀ key, ((db.set i kv.1 v kv.2.expiresAtMs).table i).lookup key =
      if key = kv.1 then some ⟨v, kv.2.expiresAtMs⟩ else (db.table i).lookup key := by
    intro key
    rw [Database.table_set, if_pos rfl, Dict.lookup_insert_eq]
  constructor
  · intro kv' hmem
    rw [hlookup]
    rcases mem_append.1 hmem with hmem | hmem
    · have hne : kv'.1 ≠ kv.1 := fun hc => hnew (hc ▸ mem_map_of_mem hmem)
      rw [if_neg hne]
      exact h.found kv' hmem
    · rw [mem_singleton.1 hmem, if_pos rfl]
      exact ⟨_, rfl, rfl, hv⟩
  · intro key e hkey
    rw [hlookup] at hkey
    rw [map_append, mem_append]
    by_cases hk : key = kv.1
    · exact .inr (by simp [hk])
    · rw [if_neg hk] at hkey
      exact .inl (h.keys key e hkey)
  · intro j hj
    rw [Database.table_set, if_neg hj]
    exact h.others j hj
  · exact Database.accounted_set h.accounted i _ _ _

/-- When all entries were loaded, the table is the same. -/
theorem Loaded.sameTable {t : Table} (h : Loaded i start t.toList db) :
    SameTable t (db.table i) := by
  intro key
  cases ht : t.lookup key with
  | some e =>
    obtain ⟨e', he', hsame⟩ := h.found (key, e) (Dict.lookup_eq_some_iff.1 ht)
    rw [he']
    exact Option.Rel.some hsame
  | none =>
    cases hd : (db.table i).lookup key with
    | none => exact Option.Rel.none
    | some e =>
      have hmem := h.keys key e hd
      rw [← Dict.mem_iff_mem_toList, ← AList.lookup_isSome, ht] at hmem
      cases hmem

/-- The entries of a section are put into a table that has none of their keys. -/
theorem Loaded.steps (items : List Item) {post : List (Bytes × Entry)}
    (hrel : List.Forall₂ Describes items post) (h : Loaded i start pre db)
    (hnd : ((pre ++ post).map Prod.fst).Nodup) (hsteps : Steps (LoadsItem flips i) items db db') :
    Loaded i start (pre ++ post) db' := by
  induction hrel generalizing pre db with
  | nil =>
    cases hsteps
    rw [append_nil]
    exact h
  | @cons item kv items post hitem _ ih =>
    obtain ⟨db₁, ⟨v, hv, rfl⟩, hsteps⟩ := hsteps
    have hnew : kv.1 ∉ pre.map Prod.fst := by
      rw [map_append, map_cons, nodup_middle, nodup_cons] at hnd
      exact fun hc => hnd.1 (mem_append_left _ hc)
    rw [hitem.key, hitem.expiresAtMs] at hsteps
    rw [append_cons] at hnd ⊢
    exact ih (h.concat hnew (hitem.value flips v hv)) hnd hsteps

/-- The tables that are written. -/
theorem mem_usedTables : i ∈ usedTables db ↔ db.table i ≠ ∅ := by
  unfold usedTables
  rw [mem_filter, Bool.not_eq_true', isEmpty_eq_false_iff, Ne, Ne, AList.ext_iff]
  exact ⟨fun h => h.2, fun h => ⟨mem_finRange i, h⟩⟩

/-- After some of the tables: they are in the new database, and the others are still empty. -/
structure TablesLoaded (db : Database) (pre : List DbIndex) (db' : Database) : Prop where
  same : ∀ i ∈ pre, SameTable (db.table i) (db'.table i)
  empty : ∀ i, i ∉ pre → db'.table i = ∅
  accounted : db'.Accounted

/-- One more table. -/
theorem TablesLoaded.concat {db'' : Database} {pre : List DbIndex} (h : TablesLoaded db pre db')
    (hi : i ∉ pre) (hload : Loaded i db' (db.table i).toList db'') :
    TablesLoaded db (pre ++ [i]) db'' := by
  refine ⟨fun j hj => ?_, fun j hj => ?_, hload.accounted⟩
  · rcases mem_append.1 hj with hj | hj
    · rw [hload.others j (fun hc => hi (hc ▸ hj))]
      exact h.same j hj
    · rw [mem_singleton.1 hj]
      exact hload.sameTable
  · rw [mem_append, mem_singleton, not_or] at hj
    rw [hload.others j hj.2]
    exact h.empty j hj.1

/-- A table that was not written is empty in both databases. -/
theorem TablesLoaded.sameTable (h : TablesLoaded db (usedTables db) db') (i : DbIndex) :
    SameTable (db.table i) (db'.table i) := by
  by_cases hi : i ∈ usedTables db
  · exact h.same i hi
  · rw [h.empty i hi, not_not.1 (mem_usedTables.not.1 hi)]
    exact fun key => Option.Rel.none

/-- The sections are put into empty tables, one after another. -/
theorem TablesLoaded.steps (secs : List Section)
    {pre post : List DbIndex} {db₁ db₂ : Database}
    (hrel : List.Forall₂ (fun (sec : Section) i => sec.idx = i ∧
      List.Forall₂ Describes sec.items.1 (db.table i).toList) secs post)
    (h : TablesLoaded db pre db₁) (hnd : (pre ++ post).Nodup)
    (hsteps : Steps (LoadsSection flips) secs db₁ db₂) : TablesLoaded db (pre ++ post) db₂ := by
  induction hrel generalizing pre db₁ with
  | nil =>
    cases hsteps
    rw [append_nil]
    exact h
  | @cons sec i secs post hsec _ ih =>
    obtain ⟨db', hsec', hsteps⟩ := hsteps
    obtain ⟨rfl, hitems⟩ := hsec
    have hi : sec.idx ∉ pre := by
      rw [nodup_middle, nodup_cons] at hnd
      exact fun hc => hnd.1 (mem_append_left _ hc)
    have hload : Loaded sec.idx db₁ (db.table sec.idx).toList db' := by
      have hstart : Loaded sec.idx db₁ [] db₁ := by
        refine ⟨by simp, fun key e he => ?_, fun _ _ => rfl, h.accounted⟩
        rw [h.empty sec.idx hi] at he
        cases he
      exact hstart.steps sec.items.1 hitems (Dict.toList_nodup _) hsec'
    rw [append_cons] at hnd ⊢
    exact ih (h.concat hi hload) hnd hsteps

/-! ## The file -/

/-- What is written for a database is a dump, which is loaded to the same tables. -/
theorem exists_dump (h : Fits db) :
    ∃ dump : Dump, serializeBody db = layout dump ∧
      ∀ flips db', Loads flips dump db' → TablesLoaded db (usedTables db) db' := by
  obtain ⟨secs, hencode, hrel⟩ := exists_forall₂ (usedTables db) fun i _ => exists_section h i
  have hused : (usedTables db).length < 2^8 := by
    have hle := length_filter_le (fun i => !(db.table i).entries.isEmpty)
      (List.finRange kNumDatabases)
    rw [length_finRange] at hle
    exact lt_of_le_of_lt hle (by decide)
  have hlen := hrel.length_eq
  have hcount : secs.length < 2^8 := hlen ▸ hused
  refine ⟨⟨secs, hcount⟩, ?_, fun flips db' hload => ?_⟩
  · unfold serializeBody putU8 layout Dump.encode
    dsimp only
    rw [foldl_appends (appends_putTable db), hencode, hlen, append_assoc]
  · have hnd : (usedTables db).Nodup := (nodup_finRange _).filter _
    have hstart : TablesLoaded db [] .empty :=
      ⟨by simp, fun i _ => rfl, Database.accounted_empty⟩
    exact hstart.steps secs hrel hnd hload

/-- What was saved is loaded: `LoadFromFile` of the bytes of `Serialize` succeeds, all tables have
the same keys with the same values and deadlines, `used_memory` is the sum of the sizes of the
entries, and the limit of the memory is that of the database that is replaced. `Serialize` writes
the maps in the order of their entries, so this is for every order of iteration. -/
theorem load_serialize {db : Database} (h : Fits db) (flips : ℕ → ℕ → Bool) (path : Bytes)
    (target : Database) :
    ∃ db', loadFromFile flips path (.data (serialize db)) target = .ok (none, db') ∧
      (∀ i, SameTable (db.table i) (db'.table i)) ∧ db'.used = db'.totalSize ∧
      db'.maxMemory = target.maxMemory := by
  obtain ⟨dump, hbody, hdump⟩ := exists_dump h
  obtain ⟨hheaded, hsealed⟩ := headed_sealed_layout dump
  obtain ⟨fresh, hload, hr⟩ := loadFromFile_of_layout flips path target hheaded hsealed rfl
  have hbytes : serialize db = layout dump ++ LittleEndian.put 4 (crc32 (layout dump)).toNat := by
    unfold serialize putU32
    rw [hbody]
  rw [hbytes]
  have htables := hdump flips fresh hload
  exact ⟨_, hr, fun i => htables.sameTable i, htables.accounted, rfl⟩

/-- A database with a list whose deadline is negative, and a hash in another key space. -/
def twoTables : Database :=
  (Database.empty.set ⟨3, by decide⟩ (bytes "l") (.list [bytes "a", bytes ""]) (-5)).set
    ⟨15, by decide⟩ (bytes "h") (.hash (AList.singleton (bytes "f") (bytes "v"))) 0

/-- It is loaded as it was. -/
theorem load_serialize_twoTables :
    ∃ db', loadFromFile (fun _ _ => true) [] (.data (serialize twoTables)) Database.empty =
        .ok (none, db') ∧
      (∀ i, SameTable (twoTables.table i) (db'.table i)) ∧ db'.used = db'.totalSize ∧
      db'.maxMemory = 0 :=
  load_serialize ⟨by decide, by decide, by decide⟩ _ _ _

end TinyRedis.Rdb

import TinyRedis.Db.Calls

/-!
# What `ActiveExpireCycle` can reach

`ActiveExpireCycle` draws the place where it starts below `kSampleWindow`, and goes over at most
`kSampleWindow` keys from there. So which entries it can take out depends on where they stand in the
order of iteration: the first `2 * kSampleWindow - 1` can be reached by some random number, and no
random number reaches an entry behind them.
-/

namespace TinyRedis.Database

open Lib List

variable {i j : DbIndex} {now : Int64} {key : Bytes} {e : Entry} {keys : List (Bytes × Entry)}
  {p size rng : ℕ}

/-! ## The window -/

/-- The place where `ActiveExpireCycle` starts among `size` keys. -/
def sampleOffset (rng size : ℕ) : ℕ := rng % if size < kSampleWindow then size else kSampleWindow

/-- The keys that `ActiveExpireCycle` looks at. -/
def window (rng : ℕ) (keys : List (Bytes × Entry)) : List (Bytes × Entry) :=
  (keys.drop (sampleOffset rng keys.length)).take kSampleWindow

/-- The place `p` is in the window. -/
def Covers (rng size p : ℕ) : Prop :=
  sampleOffset rng size ≤ p ∧ p < sampleOffset rng size + kSampleWindow

/-- The start is below `kSampleWindow`. -/
theorem sampleOffset_lt (rng : ℕ) (h : 0 < size) : sampleOffset rng size < kSampleWindow := by
  unfold sampleOffset
  split_ifs with hsmall
  · exact (Nat.mod_lt _ h).trans hsmall
  · exact Nat.mod_lt _ (by decide)

/-- The window is what lies between the start and `kSampleWindow` keys further on. -/
theorem mem_window_iff {kv : Bytes × Entry} : kv ∈ window rng keys ↔
      ∃ n < kSampleWindow, keys[sampleOffset rng keys.length + n]? = some kv := by
  unfold window
  rw [mem_iff_getElem?]
  refine exists_congr fun n => ?_
  rw [getElem?_take, getElem?_drop]
  split_ifs with hn
  · exact ⟨fun h => ⟨hn, h⟩, And.right⟩
  · exact ⟨fun h => (by cases h), fun h => absurd h.1 hn⟩

/-- With distinct keys, the place of an entry decides whether it is in the window. -/
theorem mem_window_iff_place (hnodup : (keys.map Prod.fst).Nodup) (hp : keys[p]? = some (key, e)) :
    (∃ kv ∈ window rng keys, kv.1 = key) ↔ Covers rng keys.length p := by
  have hkey : (keys.map Prod.fst)[p]? = some key := by
    rw [getElem?_map, hp]
    rfl
  constructor
  · rintro ⟨kv, hmem, rfl⟩
    obtain ⟨n, hn, hat⟩ := mem_window_iff.1 hmem
    have hkey' : (keys.map Prod.fst)[sampleOffset rng keys.length + n]? = some kv.1 := by
      rw [getElem?_map, hat]
      rfl
    -- Keys are distinct, so the two places are one.
    obtain ⟨hlt, -⟩ := List.getElem?_eq_some_iff.1 hkey
    rw [(List.getElem?_inj hlt hnodup).1 (hkey.trans hkey'.symm)]
    exact ⟨Nat.le_add_right _ _, Nat.add_lt_add_left hn _⟩
  · rintro ⟨hle, hlt⟩
    refine ⟨(key, e), mem_window_iff.2 ⟨p - sampleOffset rng keys.length, by omega, ?_⟩, rfl⟩
    rw [Nat.add_sub_of_le hle]
    exact hp

/-- The places that some random number covers. -/
theorem exists_covers_iff (hp : p < size) :
    (∃ rng < 2 ^ 32, Covers rng size p) ↔ p < 2 * kSampleWindow - 1 := by
  unfold Covers
  constructor
  · rintro ⟨rng, -, -, hlt⟩
    have := sampleOffset_lt rng (Nat.zero_lt_of_lt hp)
    omega
  · intro hreach
    unfold kSampleWindow at *
    by_cases hfirst : p < 200
    · refine ⟨0, by decide, ?_⟩
      rw [sampleOffset, Nat.zero_mod]
      exact ⟨p.zero_le, by simpa [kSampleWindow] using hfirst⟩
    · -- The table is larger than the window, so the last place of a window can be any up to `398`.
      have hoffset : sampleOffset (p - 199) size = p - 199 := by
        rw [sampleOffset, kSampleWindow, if_neg (by omega), Nat.mod_eq_of_lt (by omega)]
      exact ⟨p - 199, by omega, by omega⟩

/-! ## What is taken out -/

/-- One key of the cycle takes out its own entry, if that is expired, and no other. -/
theorem lookup_expireKey (s : ℕ × Database) (kv : Bytes × Entry) :
    ((expireKey i now s kv).2.table j).lookup key =
      if j = i ∧ kv.1 = key ∧ expired kv.2 now = true then none
      else (s.2.table j).lookup key := by
  unfold expireKey
  cases hexp : expired kv.2 now with
  | false => rw [if_neg (by decide), if_neg fun h => Bool.false_ne_true h.2.2]
  | true =>
    rw [if_pos rfl]
    change (((s.2.drop i kv.1 kv.2).table j).lookup key) = _
    rw [lookup_drop]
    simp only [and_true, eq_comm]

/-- The cycle takes out of a table the expired entries of the window. -/
theorem lookup_expireKeys (keys : List (Bytes × Entry)) (s : ℕ × Database) :
    ((keys.foldl (expireKey i now) s).2.table j).lookup key = none ↔
      (j = i ∧ ∃ kv ∈ keys, kv.1 = key ∧ expired kv.2 now = true) ∨
        (s.2.table j).lookup key = none := by
  induction keys generalizing s with
  | nil => simp
  | cons kv keys ih =>
    rw [foldl_cons, ih, lookup_expireKey]
    split_ifs with h
    · exact ⟨fun _ => Or.inl ⟨h.1, kv, mem_cons_self, h.2⟩, fun _ => Or.inr rfl⟩
    · refine or_congr_left (and_congr_right fun hj => ?_)
      rw [exists_mem_cons_iff, or_iff_right fun hkv => h ⟨hj, hkv⟩]

/-- A turn goes over the window. -/
theorem expireTable_eq (i : DbIndex) (rng : ℕ) (keys : List (Bytes × Entry)) (now : Int64)
    (s : ℕ × Database) :
    expireTable i rng keys now s = (window rng keys).foldl (expireKey i now) s := by
  unfold expireTable
  split_ifs with h
  · subst h
    rw [window, drop_nil, take_nil, foldl_nil]
  · rfl

/-- The turn of another table changes nothing here. -/
theorem table_expireKeys_of_ne (hj : j ≠ i) (keys : List (Bytes × Entry)) (s : ℕ × Database) :
    (keys.foldl (expireKey i now) s).2.table j = s.2.table j := by
  induction keys generalizing s with
  | nil => rfl
  | cons kv keys ih =>
    rw [foldl_cons, ih]
    unfold expireKey
    split_ifs with hexp
    · exact (table_drop s.2 i j kv.1 kv.2).trans (if_neg hj)
    · rfl

/-- The turn of one table in `ActiveExpireCycle`. -/
def cycleTable (r : CycleReadings) (s : ℕ × Database) (i : DbIndex) : ℕ × Database :=
  expireTable i (r.rng i) (r.order i (s.2.table i).toList) (r.now i) s

/-- The turns of other tables change nothing here. -/
theorem table_cycleTables_of_notMem (r : CycleReadings) {turns : List DbIndex} (hj : j ∉ turns)
    (s : ℕ × Database) : (turns.foldl (cycleTable r) s).2.table j = s.2.table j := by
  induction turns generalizing s with
  | nil => rfl
  | cons i turns ih =>
    obtain ⟨hne, hturns⟩ := ne_and_not_mem_of_not_mem_cons hj
    rw [foldl_cons, ih hturns, cycleTable, expireTable_eq, table_expireKeys_of_ne hne]

/-- A cycle takes the expired entries out of the window of each table. -/
theorem lookup_activeExpireCycle (r : CycleReadings) (db : Database) :
    ((db.activeExpireCycle r).2.table i).lookup key = none ↔
      (∃ kv ∈ window (r.rng i) (r.order i (db.table i).toList),
        kv.1 = key ∧ expired kv.2 (r.now i) = true) ∨ (db.table i).lookup key = none := by
  -- Only the turn of the table itself counts, and it finds the table as it was.
  obtain ⟨before, after, hturns⟩ := append_of_mem (mem_finRange i)
  have hnodup : (before ++ i :: after).Nodup := hturns ▸ nodup_finRange kNumDatabases
  have hbefore : i ∉ before := fun h =>
    disjoint_of_nodup_append hnodup h mem_cons_self
  have hafter : i ∉ after := (nodup_cons.1 (nodup_append.1 hnodup).2.1).1
  change (((List.finRange kNumDatabases).foldl (cycleTable r) (0, db)).2.table i).lookup key =
    none ↔ _
  rw [hturns, foldl_append, foldl_cons, table_cycleTables_of_notMem r hafter, cycleTable,
    expireTable_eq, lookup_expireKeys, table_cycleTables_of_notMem r hbefore]
  simp only [true_and]

/-! ## The entries within reach -/

/-- Some random numbers make `ActiveExpireCycle` take the entry of the key out, with the clock and
the order of iteration as they are. -/
def WithinReach (r : CycleReadings) (db : Database) (i : DbIndex) (key : Bytes) : Prop :=
  ∃ rng : DbIndex → ℕ, (∀ j, rng j < 2 ^ 32) ∧
    ((db.activeExpireCycle { r with rng := rng }).2.table i).lookup key = none

/-- An expired entry can be reached when its place is in the window of some random number. -/
theorem withinReach_iff_window (r : CycleReadings) (db : Database)
    (hp : (r.order i (db.table i).toList)[p]? = some (key, e)) (hexp : expired e (r.now i) = true) :
    WithinReach r db i key ↔
      ∃ rng < 2 ^ 32, Covers rng (r.order i (db.table i).toList).length p := by
  have hnodup := ((r.order_perm i _).map Prod.fst).nodup_iff.2 (db.table i).toList_nodup
  have hentry : ∀ kv ∈ r.order i (db.table i).toList, (db.table i).lookup kv.1 = some kv.2 :=
    fun kv hkv => Dict.lookup_eq_some_iff.2 ((r.order_perm i _).mem_iff.1 hkv)
  have hlookup : (db.table i).lookup key = some e := hentry _ (mem_of_getElem? hp)
  have hout : ∀ rng : DbIndex → ℕ,
      ((db.activeExpireCycle { r with rng := rng }).2.table i).lookup key = none ↔
        Covers (rng i) (r.order i (db.table i).toList).length p := by
    intro rng
    rw [lookup_activeExpireCycle, hlookup, or_iff_left (Option.some_ne_none e),
      ← mem_window_iff_place hnodup hp]
    -- The entry that the window holds for the key is the one of the table, and that is expired.
    refine exists_congr fun kv => and_congr_right fun hmem => and_iff_left_of_imp ?_
    rintro rfl
    obtain ⟨n, -, hn⟩ := mem_window_iff.1 hmem
    rw [Option.some.inj ((hentry kv (mem_of_getElem? hn)).symm.trans hlookup)]
    exact hexp
  constructor
  · rintro ⟨rng, hrng, hnone⟩
    exact ⟨rng i, hrng i, (hout rng).1 hnone⟩
  · rintro ⟨rng, hrng, hin⟩
    exact ⟨fun _ => rng, fun _ => hrng, (hout fun _ => rng).2 hin⟩

/-- `ActiveExpireCycle` can reach an expired entry exactly when it is one of the first
`2 * kSampleWindow - 1` in the order of iteration. -/
theorem withinReach_iff (r : CycleReadings) (db : Database) (i : DbIndex) (key : Bytes) (e : Entry)
    (p : ℕ) (hp : (r.order i (db.table i).toList)[p]? = some (key, e))
    (hexp : expired e (r.now i) = true) :
    WithinReach r db i key ↔ p < 2 * kSampleWindow - 1 := by
  obtain ⟨hlt, -⟩ := List.getElem?_eq_some_iff.1 hp
  exact (withinReach_iff_window r db hp hexp).trans (exists_covers_iff hlt)

/-- A table of `n` keys without a deadline. The key `k` is `k` bytes long. -/
def crowd (i : DbIndex) (n : ℕ) : Database :=
  (List.range n).foldl (fun db k => db.set i (List.replicate k 0) (.rawString []) 0) empty

/-- The same, and one more key, with a deadline at 1 ms. -/
def crowdAndOne (i : DbIndex) (n : ℕ) : Database :=
  (crowd i n).set i (List.replicate n 0) (.rawString []) 1

/-- Readings at 1 ms, for a table that is gone through from the oldest key to the newest. -/
def oldestFirst : CycleReadings where
  rng _ := 0
  now _ := 1
  order _ l := l.reverse
  order_perm _ l := l.reverse_perm

/-- The table that `Set` writes to. -/
theorem table_set_self (db : Database) (i : DbIndex) (key : Bytes) (v : Value) (t : Int64) :
    (db.set i key v t).table i = (db.table i).insert key ⟨v, t⟩ :=
  (table_set db i i key v t).trans (if_pos rfl)

/-- The next key of the crowd. -/
theorem crowd_succ (i : DbIndex) (n : ℕ) :
    crowd i (n + 1) = (crowd i n).set i (List.replicate n 0) (.rawString []) 0 := by
  rw [crowd, range_succ, foldl_append]
  rfl

/-- One more key in a table that has the keys of the crowd, oldest first. -/
theorem toList_set_crowd {db : Database} {n : ℕ} (t : Int64)
    (h : (db.table i).toList.reverse =
      (List.range n).map fun k => (List.replicate k 0, ⟨.rawString [], 0⟩)) :
    ((db.set i (List.replicate n 0) (.rawString []) t).table i).toList.reverse =
      ((List.range n).map fun k => (List.replicate k 0, ⟨.rawString [], 0⟩)) ++
        [(List.replicate n 0, ⟨.rawString [], t⟩)] := by
  have hnew : List.replicate n 0 ∉ db.table i := by
    rw [Dict.mem_iff_mem_toList, ← mem_reverse, ← map_reverse, h, map_map]
    intro hmem
    obtain ⟨k, hk, heq⟩ := mem_map.1 hmem
    -- The lengths tell the keys apart.
    have hlength := congrArg List.length heq
    simp only [Function.comp_apply, length_replicate] at hlength
    exact absurd (mem_range.1 hk) (by omega)
  rw [table_set_self, Dict.toList_insert hnew, reverse_cons, h]

/-- The crowd, oldest first. -/
theorem toList_crowd (i : DbIndex) (n : ℕ) :
    ((crowd i n).table i).toList.reverse =
      (List.range n).map fun k => (List.replicate k 0, ⟨.rawString [], 0⟩) := by
  induction n with
  | zero => rfl
  | succ n ih =>
    rw [crowd_succ, toList_set_crowd 0 ih, range_succ, map_append]
    rfl

/-- The newest key comes last. -/
theorem place_crowdAndOne (i : DbIndex) (n : ℕ) :
    (oldestFirst.order i ((crowdAndOne i n).table i).toList)[n]? =
      some (List.replicate n 0, ⟨.rawString [], 1⟩) := by
  change ((crowdAndOne i n).table i).toList.reverse[n]? = _
  rw [crowdAndOne, toList_set_crowd 1 (toList_crowd i n), getElem?_append_right (by simp)]
  simp

/-- With 398 keys before it, an expired entry can still be reached. -/
theorem withinReach_iff_crowd :
    WithinReach oldestFirst (crowdAndOne ⟨0, Nat.zero_lt_succ _⟩ 398) ⟨0, Nat.zero_lt_succ _⟩
      (List.replicate 398 0) :=
  (withinReach_iff oldestFirst _ _ _ _ 398 (place_crowdAndOne _ 398) (by decide)).2 (by decide)

/-- With 399 keys before it, no random number makes `ActiveExpireCycle` take an expired entry
out. -/
theorem crowd_out_of_reach :
    (∃ e, (oldestFirst.order ⟨0, Nat.zero_lt_succ _⟩
        ((crowdAndOne ⟨0, Nat.zero_lt_succ _⟩ 399).table ⟨0, Nat.zero_lt_succ _⟩).toList)[399]? =
          some (List.replicate 399 0, e) ∧
        expired e (oldestFirst.now ⟨0, Nat.zero_lt_succ _⟩) = true) ∧
      ¬WithinReach oldestFirst (crowdAndOne ⟨0, Nat.zero_lt_succ _⟩ 399) ⟨0, Nat.zero_lt_succ _⟩
        (List.replicate 399 0) := by
  have hplace := place_crowdAndOne ⟨0, Nat.zero_lt_succ _⟩ 399
  refine ⟨⟨_, hplace, by decide⟩, fun h => ?_⟩
  obtain ⟨rng, -, -, hlt⟩ := (withinReach_iff_window oldestFirst _ hplace (by decide)).1 h
  obtain ⟨hpos, -⟩ := List.getElem?_eq_some_iff.1 hplace
  have hoffset := sampleOffset_lt rng (Nat.zero_lt_of_lt hpos)
  unfold kSampleWindow at *
  omega

end TinyRedis.Database

import TinyRedis.Db.Indexed
import TinyRedis.Db.Tables
import TinyRedis.Rdb.Loading
import TinyRedis.SkipList.Runs
import TinyRedis.SkipList.Trail

/-!
# Sorted sets in a snapshot

`LoadFromFile` puts each record of a sorted set into both indices, one after the other. The dict has
one score for a member, so a record overwrites what an earlier one has written. The skip list looks
for the pair of the record, and when it does not find it, puts in a second node for the member.

Where a member comes again, the two indices agree only if the search for its pair finds the first
node: the scores must compare equal, and no pair with NaN, which stops every search, may have been
put in front of that node (`Steady`). A file may have such records in any order, with a checksum
that is right.
-/

namespace TinyRedis.Rdb

open Lib Lib.ByteReader SkipList List

variable {members : List (Text × Double)} {db db' : Database} {i : DbIndex} {dump : Dump}
  {item : Item}

/-! ## Records that repeat a member -/

/-- Where a member comes again, its score compares equal to the first one, and no score in between
is NaN. -/
def Steady (members : List (Text × Double)) : Prop :=
  ∀ before a between b after, members = before ++ a :: between ++ b :: after → a.1 = b.1 →
    Score.eq a.2 b.2 = true ∧ ∀ x ∈ between, x.2.isNaN = false

/-- A sorted set after some records: the indices are consistent, and what has been put in since the
last NaN is found. -/
structure Filled (records : List (Text × Double)) (z : ZSetValue) : Prop where
  consistent : z.Consistent
  mem_dict : ∀ m ∈ z.dict, ∃ a ∈ records, a.1.1 = m
  found : ∀ before a after, records = before ++ a :: after → a.2.isNaN = false →
    (∀ x ∈ after, x.2.isNaN = false) → z.sl.contains a.2 a.1.1 = .ok true

/-- The empty sorted set is filled from no pairs. -/
theorem filled_empty : Filled [] ⟨SkipList.empty, ∅⟩ :=
  ⟨ZSetValue.consistent_empty, fun m hm => absurd hm (AList.notMem_empty m),
    fun before a after h => by
    simp at h⟩

variable {flips : ℕ → ℕ → Bool} {records : List (Text × Double)} {b : Text × Double}
  {z z' : ZSetValue}

/-- A record for a member that is there, with a score that compares equal. -/
theorem Filled.contains_repeated (h : Filled records z) {before between : List (Text × Double)}
    {a : Text × Double} (hrec : records = before ++ a :: between) (hsame : a.1 = b.1)
    (heq : Score.eq a.2 b.2 = true) (hnan : ∀ x ∈ between, x.2.isNaN = false) :
    z.sl.contains b.2 b.1.1 = .ok true := by
  obtain ⟨ha, hb, hkey⟩ := (Double.orderedBy.eq_iff _ _).1 heq
  have hfound := h.found before a between hrec ha hnan
  obtain ⟨es, ⟨ps, hshape, -⟩, -⟩ := h.consistent
  rw [contains_iff_finds hshape] at hfound ⊢
  exact hfound.congr Double.orderedBy ha hb (keyOf_eq_iff.2 ⟨hkey, congrArg Subtype.val hsame⟩)

/-- One more record. -/
theorem Filled.add (h : Filled records z)
    (hsteady : ∀ before a between, records = before ++ a :: between → a.1 = b.1 →
      Score.eq a.2 b.2 = true ∧ ∀ x ∈ between, x.2.isNaN = false)
    (hadd : AddScored flips b z z') : Filled (records ++ [b]) z' := by
  obtain ⟨draw, added, sl, hr, rfl⟩ := hadd
  obtain ⟨hpos, hle⟩ := randomLevel_bounds (flips draw)
  refine ⟨?_, fun m hm => ?_, fun before a after hsplit ha hafter => ?_⟩
  · by_cases hmem : b.1.1 ∈ z.dict
    · obtain ⟨a, ha, hsame⟩ := h.mem_dict _ hmem
      obtain ⟨before, between, hrec⟩ := append_of_mem ha
      obtain ⟨heq, hnan⟩ := hsteady before a between hrec (Subtype.ext hsame)
      exact h.consistent.insert_found hpos hle
        (h.contains_repeated hrec (Subtype.ext hsame) heq hnan) hr
    · exact h.consistent.insert_new hpos hle hmem hr
  · rcases (AList.mem_insert z.dict).1 hm with rfl | hm
    · exact ⟨b, by simp, rfl⟩
    · obtain ⟨a, ha, hsame⟩ := h.mem_dict m hm
      exact ⟨a, mem_append_left _ ha, hsame⟩
  · obtain ⟨es, hes, -⟩ := h.consistent
    rcases eq_nil_or_concat after with rfl | ⟨after, x, rfl⟩
    · -- The pair of this record.
      obtain ⟨-, hab⟩ := append_inj' hsplit rfl
      cases hab
      exact contains_insert Double.orderedBy hes hpos hle ha ha hr (.inl rfl)
    · -- A pair from before, which was found until now.
      rw [concat_eq_append] at hsplit hafter
      rw [← cons_append, ← append_assoc] at hsplit
      obtain ⟨hrec, hx⟩ := append_inj' hsplit rfl
      cases hx
      have hfound := h.found before a after hrec ha fun y hy => hafter y (by simp [hy])
      exact contains_insert Double.orderedBy hes hpos hle (hafter b (by simp)) ha hr (.inr hfound)

/-- All records. -/
theorem Filled.addAll {rest : List (Text × Double)} (h : Filled records z)
    (hsteady : Steady (records ++ rest)) (hload : Steps (AddScored flips) rest z z') :
    Filled (records ++ rest) z' := by
  induction rest generalizing records z with
  | nil =>
    cases hload
    rwa [append_nil]
  | cons b rest ih =>
    obtain ⟨z₁, hadd, hload⟩ := hload
    have hb : Filled (records ++ [b]) z₁ := h.add (fun before a between hrec hsame =>
      hsteady before a between b rest (by rw [hrec]) hsame) hadd
    have hassoc : records ++ b :: rest = records ++ [b] ++ rest := by simp
    rw [hassoc] at hsteady ⊢
    exact ih hb hsteady hload

/-! ## Lists with one level -/

/-- `Insert` into a skip list with one level, as the pairs see it. -/
def Inserted (score : Double) (member : Bytes) (es es' : List (Double × Bytes)) : Prop :=
  ∃ as bs, es = as ++ bs ∧ (∀ a ∈ as, keyLess a.1 a.2 score member = true) ∧
    (es' = as ++ (score, member) :: bs ∨
      ∃ b bs', bs = b :: bs' ∧ keyEqual b.1 b.2 score member = true ∧
        es' = as ++ (score, member) :: bs')

/-- The members of some pairs. -/
abbrev membersOf (es : List (Double × Bytes)) : List Bytes := es.map Prod.snd

/-- A pair of a member has this score, or one that has been written over it. -/
def Keeps (s : Double) (m : Bytes) (es : List (Double × Bytes)) : Prop :=
  ∃ t, (t, m) ∈ es ∧ (t = s ∨ Score.eq t s = true)

/-- A member is behind a pair with NaN. -/
def Behind (m : Bytes) (es : List (Double × Bytes)) : Prop :=
  ∃ p n q, es = p ++ n :: q ∧ n.1.isNaN = true ∧ m ∈ membersOf q

/-- A member has two pairs. -/
def Twice (m : Bytes) (es : List (Double × Bytes)) : Prop := 2 ≤ (membersOf es).count m

namespace Inserted

variable {score s : Double} {member m : Bytes} {es es' : List (Double × Bytes)}

/-- The inserted pair is there. -/
theorem mem (h : Inserted score member es es') : (score, member) ∈ es' := by
  obtain ⟨as, bs, -, -, rfl | ⟨b, bs', -, -, rfl⟩⟩ := h
  · simp
  · simp

/-- No member loses a pair. -/
theorem count_le (h : Inserted score member es es') (m : Bytes) :
    (membersOf es).count m ≤ (membersOf es').count m := by
  obtain ⟨as, bs, rfl, -, rfl | ⟨b, bs', rfl, hq, rfl⟩⟩ := h
  · simp [count_cons]
  · simp [count_cons, member_eq_of_keyEqual hq]

/-- A score is only overwritten by one that compares equal. -/
theorem keeps (h : Inserted score member es es') (hk : Keeps s m es) : Keeps s m es' := by
  obtain ⟨t, ht, hts⟩ := hk
  obtain ⟨as, bs, rfl, -, rfl | ⟨b, bs', rfl, hq, rfl⟩⟩ := h
  · refine ⟨t, ?_, hts⟩
    rw [mem_append] at ht
    simp [ht, or_left_comm]
  · rcases mem_append.1 ht with ht | ht
    · exact ⟨t, by simp [ht], hts⟩
    · rcases mem_cons.1 ht with rfl | ht
      · -- This pair is the one that is overwritten.
        obtain rfl := member_eq_of_keyEqual hq
        refine ⟨score, by simp, .inr ?_⟩
        obtain ⟨ht, hscore, hkey⟩ := (keyEqual_iff_and Double.orderedBy).1 hq
        rw [Double.orderedBy.eq_iff]
        rcases hts with rfl | hts
        · exact ⟨hscore, ht, (keyOf_eq_iff.1 hkey).1.symm⟩
        · obtain ⟨-, hs, hkey'⟩ := (Double.orderedBy.eq_iff _ _).1 hts
          exact ⟨hscore, hs, (keyOf_eq_iff.1 hkey).1.symm.trans hkey'⟩
      · exact ⟨t, by simp [ht], hts⟩

/-- A score that does not compare equal gets a pair of its own. -/
theorem twice_of_keeps (h : Inserted score m es es') (hk : Keeps s m es)
    (hne : ¬Score.eq s score = true) : Twice m es' := by
  obtain ⟨t, ht, hts⟩ := hk
  unfold Twice
  obtain ⟨as, bs, rfl, -, rfl | ⟨b, bs', rfl, hq, rfl⟩⟩ := h
  · have hpos : 0 < (membersOf (as ++ bs)).count m :=
      count_pos_iff.2 (mem_map_of_mem (f := Prod.snd) ht)
    simp only [membersOf, map_append, map_cons, count_append, count_cons_self]
      at hpos ⊢
    omega
  · have hold : (t, m) ∈ as ++ bs' := by
      rcases mem_append.1 ht with ht | ht
      · exact mem_append_left _ ht
      · rcases mem_cons.1 ht with rfl | ht
        · -- The pair that is overwritten has a score that compares equal to the new one.
          refine absurd ?_ hne
          obtain ⟨ht, hscore, hkey⟩ := (keyEqual_iff_and Double.orderedBy).1 hq
          rw [Double.orderedBy.eq_iff]
          rcases hts with rfl | hts
          · exact ⟨ht, hscore, (keyOf_eq_iff.1 hkey).1⟩
          · obtain ⟨-, hs, hkey'⟩ := (Double.orderedBy.eq_iff _ _).1 hts
            exact ⟨hs, hscore, hkey'.symm.trans (keyOf_eq_iff.1 hkey).1⟩
        · exact mem_append_right _ ht
    have hpos : 0 < (membersOf (as ++ bs')).count m :=
      count_pos_iff.2 (mem_map_of_mem (f := Prod.snd) hold)
    simp only [membersOf, map_append, map_cons, count_append, count_cons_self]
      at hpos ⊢
    omega

/-- A pair with NaN goes to the front. -/
theorem behind_of_nan (h : Inserted score member es es') (hnan : score.isNaN = true)
    (hm : m ∈ membersOf es) : Behind m es' := by
  obtain ⟨as, bs, rfl, hpass, hnew⟩ := h
  have hnil : as = [] := by
    refine eq_nil_iff_forall_not_mem.2 fun a ha => ?_
    have hok := ((keyLess_iff_and Double.orderedBy).1 (hpass a ha)).2.1
    rw [hnan] at hok
    cases hok
  subst hnil
  rcases hnew with rfl | ⟨b, bs', -, hq, -⟩
  · exact ⟨[], (score, member), bs, rfl, hnan, hm⟩
  · have hok := ((keyEqual_iff_and Double.orderedBy).1 hq).2.1
    rw [hnan] at hok
    cases hok

/-- A search stops at a pair with NaN, so all that is put in goes in front of it. -/
theorem in_front {p q : List (Double × Bytes)} {n : Double × Bytes}
    (h : Inserted score member (p ++ n :: q) es') (hn : n.1.isNaN = true) :
    ∃ p', es' = p' ++ n :: q ∧ (score, member) ∈ p' := by
  obtain ⟨as, bs, hes, hpass, hnew⟩ := h
  have hcut : ∃ x, bs = x ++ n :: q := by
    rcases append_eq_append_iff.1 hes with ⟨x, rfl, hx⟩ | ⟨x, -, hx⟩
    · cases x with
      | nil => exact ⟨[], hx.symm⟩
      | cons c x =>
        cases hx
        have hok := ((keyLess_iff_and Double.orderedBy).1 (hpass n (by simp))).1
        rw [hn] at hok
        cases hok
    · exact ⟨x, hx⟩
  obtain ⟨x, rfl⟩ := hcut
  rcases hnew with rfl | ⟨b, bs', hx, hq, rfl⟩
  · exact ⟨as ++ (score, member) :: x, by simp, by simp⟩
  · cases x with
    | nil =>
      cases hx
      have hok := ((keyEqual_iff_and Double.orderedBy).1 hq).1
      rw [hn] at hok
      cases hok
    | cons c x =>
      cases hx
      exact ⟨as ++ (score, member) :: x, by simp, by simp⟩

/-- An insertion leaves a member behind that was behind. -/
theorem behind (h : Inserted score member es es') (hb : Behind m es) : Behind m es' := by
  obtain ⟨p, n, q, rfl, hn, hm⟩ := hb
  obtain ⟨p', rfl, -⟩ := h.in_front hn
  exact ⟨p', n, q, rfl, hn, hm⟩

/-- A member behind a pair with NaN is not found, and gets a second pair. -/
theorem twice_of_behind (h : Inserted score m es es') (hb : Behind m es) : Twice m es' := by
  obtain ⟨p, n, q, rfl, hn, hm⟩ := hb
  obtain ⟨p', rfl, hnew⟩ := h.in_front hn
  have hfront : 0 < (membersOf p').count m :=
    count_pos_iff.2 (mem_map_of_mem (f := Prod.snd) hnew)
  have hback : 0 < (membersOf q).count m := count_pos_iff.2 hm
  unfold Twice
  simp only [membersOf, map_append, map_cons, count_append, count_cons]
    at hfront hback ⊢
  omega

end Inserted

/-- The records of a sorted set, as the pairs see them. -/
abbrev InsertedAll (members : List (Text × Double)) (es es' : List (Double × Bytes)) : Prop :=
  Steps (fun x => Inserted x.2 x.1.1) members es es'

/-- Where all draws give one level, records of a sorted set are insertions. -/
theorem insertedAll_of_steps (hes : Holds z.sl es) (hflat : z.sl.level = 1)
    (hload : Steps (AddScored fun _ _ => false) members z z') :
    ∃ es', Holds z'.sl es' ∧ InsertedAll members es es' := by
  induction members generalizing z es with
  | nil =>
    cases hload
    exact ⟨es, hes, rfl⟩
  | cons x members ih =>
    obtain ⟨z₁, ⟨draw, added, sl, hr, rfl⟩, hload⟩ := hload
    replace hr : z.sl.insert 1 x.2 x.1.1 = .ok (added, sl) := hr
    have hone : ∃ es₁, Holds sl es₁ ∧ Inserted x.2 x.1.1 es es₁ := by
      obtain ⟨as, bs, hcut, hpass, hcase⟩ := insert_spec hes Nat.one_pos (by decide) x.2 x.1.1
      rcases hcase with ⟨b, bs', sl', rfl, hq, hr', hh⟩ | ⟨-, ⟨sl', hr', hh⟩ | ⟨hfull, -⟩⟩
      · rw [hr'] at hr
        cases hr
        exact ⟨_, hh, as, _, hcut.split, hpass hflat, .inr ⟨b, bs', rfl, hq, rfl⟩⟩
      · rw [hr'] at hr
        cases hr
        exact ⟨_, hh, as, bs, hcut.split, hpass hflat, .inl rfl⟩
      · rw [hfull] at hr
        cases hr
    obtain ⟨es₁, hes₁, hins⟩ := hone
    obtain ⟨es', hes', hall⟩ := ih hes₁ (insert_flat hes hflat hr) hload
    exact ⟨es', hes', es₁, hins, hall⟩

/-- Where a member comes again in the wrong way, it gets two pairs. -/
theorem exists_twice (hload : InsertedAll members [] es) (hsteady : ¬Steady members) :
    ∃ m, Twice m es := by
  unfold Steady at hsteady
  push Not at hsteady
  obtain ⟨before, a, between, b, after, rfl, hsame, hwrong⟩ := hsteady
  refine ⟨b.1.1, ?_⟩
  obtain ⟨es₃, h₃, es₄, hb, h₄⟩ := steps_append.1 hload
  obtain ⟨es₁, -, es₂, ha, h₂⟩ := steps_append.1 h₃
  have hmem : (a.2, b.1.1) ∈ es₂ := hsame ▸ ha.mem
  refine h₄.keeps (I := Twice b.1.1) ?_ fun x _ _ _ hx h => h.trans (hx.count_le _)
  by_cases heq : Score.eq a.2 b.2 = true
  · -- A record in between has put NaN in front of the first pair.
    obtain ⟨x, hx, hnan⟩ := hwrong heq
    replace hnan : x.2.isNaN = true := Bool.eq_true_of_not_eq_false hnan
    obtain ⟨between₁, between₂, rfl⟩ := append_of_mem hx
    obtain ⟨es₅, h₅, es₆, hx, h₆⟩ := steps_append.1 h₂
    have hpos : 0 < (membersOf es₅).count b.1.1 :=
      h₅.keeps (I := fun es => 0 < (membersOf es).count b.1.1)
        (count_pos_iff.2 (mem_map_of_mem (f := Prod.snd) hmem))
        fun y _ _ _ hy h => h.trans_le (hy.count_le _)
    have hbehind := hx.behind_of_nan hnan (count_pos_iff.1 hpos)
    exact hb.twice_of_behind (h₆.keeps hbehind fun y _ _ _ hy h => hy.behind h)
  · exact hb.twice_of_keeps (h₂.keeps ⟨a.2, hmem, .inl rfl⟩ fun y _ _ _ hy h => hy.keeps h) heq

/-- The indices are not consistent when the skip list has a member twice. -/
theorem not_consistent_of_twice {m : Bytes} (hes : Holds z.sl es) (h : Twice m es) :
    ¬z.Consistent := by
  rintro ⟨es', hes', hperm⟩
  obtain rfl := hes.unique hes'
  have hmembers : membersOf z.graph = z.dict.toList.map Prod.fst := by
    unfold ZSetValue.graph membersOf
    rw [map_map]
    rfl
  have hnodup : (membersOf z.graph).Nodup := by
    rw [hmembers]
    exact Dict.toList_nodup z.dict
  have hcount : (membersOf es).count m = (membersOf z.graph).count m :=
    (hperm.map Prod.snd).count_eq m
  have hone := nodup_iff_count_le_one.1 hnodup m
  unfold Twice at h
  omega

/-- Where a member comes again in the wrong way, the two indices are not consistent, if all draws
give one level. -/
theorem not_consistent_of_not_steady (hsteady : ¬Steady members)
    (hload : LoadsZSet (fun _ _ => false) members z) : ¬z.Consistent := by
  obtain ⟨es, hes, hall⟩ := insertedAll_of_steps holds_empty rfl hload
  obtain ⟨m, hm⟩ := exists_twice hall hsteady
  exact not_consistent_of_twice hes hm

/-! ## Databases -/

/-- The entries of a dump with their tables, in the order of the file. -/
def Dump.entries (dump : Dump) : List (DbIndex × Item) :=
  dump.1.flatMap fun sec => sec.items.1.map fun item => (sec.idx, item)

/-- An entry of a dump that no later entry overwrites. -/
def Dump.Last (dump : Dump) (i : DbIndex) (item : Item) : Prop :=
  ∃ before after, dump.entries = before ++ (i, item) :: after ∧
    ∀ x ∈ after, ¬(i = x.1 ∧ item.key.1 = x.2.key.1)

/-- The entries of a dump are put into the tables one after another. -/
theorem loads_iff_steps :
    Loads flips dump db ↔
      Steps (fun x : DbIndex × Item => LoadsItem flips x.1 x.2) dump.entries .empty db := by
  have hsection : LoadsSection flips = fun sec => Steps (fun x : DbIndex × Item =>
      LoadsItem flips x.1 x.2) (sec.items.1.map fun item => (sec.idx, item)) := by
    funext sec db db'
    rw [steps_map]
    rfl
  unfold Loads Dump.entries
  rw [steps_flatMap, hsection]

/-- Loading an item sets its key and no other. -/
theorem lookup_loadsItem (h : LoadsItem flips i item db db') (j : DbIndex) (key : Bytes) :
    ∃ v, LoadsValue flips item.payload v ∧ (db'.table j).lookup key =
      if j = i ∧ key = item.key.1 then some ⟨v, item.expiresAtMs.toInt64⟩
      else (db.table j).lookup key := by
  obtain ⟨v, hv, rfl⟩ := h
  refine ⟨v, hv, ?_⟩
  rw [Database.table_set]
  by_cases hj : j = i
  · subst hj
    simp only [if_true, true_and]
    exact Dict.lookup_insert_eq _ _ _ _
  · simp only [hj, if_false, false_and]

/-- What is in a table was written by the last entry for its key, or was there before. -/
theorem exists_last {l : List (DbIndex × Item)} {key : Bytes} {e : Entry}
    (h : Steps (fun x : DbIndex × Item => LoadsItem flips x.1 x.2) l db db')
    (he : (db'.table i).lookup key = some e) :
    (∃ before item after, l = before ++ (i, item) :: after ∧ item.key.1 = key ∧
        LoadsValue flips item.payload e.value ∧ ∀ x ∈ after, ¬(i = x.1 ∧ key = x.2.key.1)) ∨
      ((db.table i).lookup key = some e ∧ ∀ x ∈ l, ¬(i = x.1 ∧ key = x.2.key.1)) := by
  induction l generalizing db with
  | nil =>
    cases h
    exact .inr ⟨he, fun x hx => absurd hx not_mem_nil⟩
  | cons x l ih =>
    obtain ⟨db₁, hx, h⟩ := h
    rcases ih h with ⟨before, item, after, rfl, hkey, hvalue, hafter⟩ | ⟨hlook, hnone⟩
    · exact .inl ⟨x :: before, item, after, rfl, hkey, hvalue, hafter⟩
    · obtain ⟨v, hv, hlook'⟩ := lookup_loadsItem hx i key
      rw [hlook] at hlook'
      split_ifs at hlook' with hwritten
      · obtain ⟨i', item⟩ := x
        obtain ⟨rfl, rfl⟩ := hwritten
        cases hlook'
        exact .inl ⟨[], item, l, rfl, rfl, hv, hnone⟩
      · refine .inr ⟨hlook'.symm, fun y hy => ?_⟩
        rcases mem_cons.1 hy with rfl | hy
        · exact hwritten
        · exact hnone y hy

/-- The last entry for a key is in its table. -/
theorem lookup_of_last (h : Loads flips dump db) (hlast : dump.Last i item) :
    ∃ v, LoadsValue flips item.payload v ∧
      (db.table i).lookup item.key.1 = some ⟨v, item.expiresAtMs.toInt64⟩ := by
  obtain ⟨before, after, hsplit, hafter⟩ := hlast
  rw [loads_iff_steps, hsplit] at h
  obtain ⟨db₁, -, db₂, hitem, h⟩ := steps_append.1 h
  obtain ⟨v, hv, hlook⟩ := lookup_loadsItem hitem i item.key.1
  rw [if_pos ⟨rfl, rfl⟩] at hlook
  refine ⟨v, hv, h.keeps (I := fun db => (db.table i).lookup item.key.1 = _) hlook ?_⟩
  intro x hx a b hstep ha
  obtain ⟨_, -, hlook'⟩ := lookup_loadsItem hstep i item.key.1
  rw [hlook', if_neg (hafter x hx)]
  exact ha

/-- The sorted sets of a database are consistent. -/
def ConsistentSets (db : Database) : Prop :=
  ∀ i key z t, (db.table i).lookup key = some ⟨.zset z, t⟩ → z.Consistent

/-- Where the file begins with a dump, and its size and checksum are right, no sorted set of the
dump that is left in a table has a member again in the wrong way. -/
def SteadySets (s : Bytes) : Prop :=
  ∀ dump rest, s = layout dump ++ rest → kMagicLen + 5 ≤ s.length → Sealed s →
    ∀ i item members, dump.Last i item → item.payload = .zset members → Steady members.1

/-- What is accepted has consistent sorted sets, whatever `RandomLevel` draws, exactly where no
member comes again in the wrong way. -/
theorem accepted_consistent_iff (s : Bytes) :
    (∀ flips path target db, loadFromFile flips path (.data s) target = .ok (none, db) →
      ConsistentSets db) ↔ SteadySets s := by
  constructor
  · intro h dump rest hs hlen hseal i item members hlast hpayload
    by_contra hsteady
    have hmagic : s.take kMagicLen = kMagic := by
      rw [hs, take_layout]
    obtain ⟨fresh, hload, hr⟩ :=
      loadFromFile_of_layout (fun _ _ => false) [] .empty ⟨hlen, hmagic⟩ hseal hs
    obtain ⟨v, hv, hlook⟩ := lookup_of_last hload hlast
    rw [hpayload] at hv
    obtain ⟨z, rfl, hz⟩ := hv
    exact not_consistent_of_not_steady hsteady hz (h _ _ _ _ hr i _ z _ hlook)
  · intro h flips path target db hr i key z t hlook
    obtain ⟨hhead, hseal, dump, rest, fresh, hs, hload, rfl⟩ := loadFromFile_eq_none hr
    rcases exists_last (loads_iff_steps.1 hload) hlook with
      ⟨before, item, after, hsplit, rfl, hvalue, hafter⟩ | ⟨hempty, -⟩
    · cases hpayload : item.payload with
      | zset members =>
        rw [hpayload] at hvalue
        obtain ⟨z', hz', hz⟩ := hvalue
        cases hz'
        have hsteady :=
          h dump rest hs hhead.1 hseal i item members ⟨before, after, hsplit, hafter⟩ hpayload
        exact (filled_empty.addAll hsteady hz).consistent
      | string => rw [hpayload] at hvalue; cases hvalue
      | hash => rw [hpayload] at hvalue; cases hvalue
      | list => rw [hpayload] at hvalue; cases hvalue
      | set => rw [hpayload] at hvalue; cases hvalue
    · cases hempty

/-- A file with one sorted set that has the scores 1 and 2 for the same member. -/
def rescored : Bytes :=
  kMagic ++ [1, 0, 1, 0, 0, 0, 4, 0, 0, 0, 0, 0, 0, 0, 0, 0, 0, 0, 0, 2, 0, 0, 0,
    0, 0, 0, 0, 0, 0, 0, 0, 0, 0, 240, 63, 0, 0, 0, 0, 0, 0, 0, 0, 0, 0, 0, 64, 233, 91, 32, 211]

/-- The skip list has both scores, and the dict has one. -/
theorem rescored_inconsistent :
    ∃ db, loadFromFile (fun _ _ => false) [] (.data rescored) .empty = .ok (none, db) ∧
      ∃ z, (db.table ⟨0, by decide⟩).lookup [] = some ⟨.zset z, 0⟩ ∧ ¬z.Consistent := by
  have hhead : Headed rescored := by decide
  have hseal : Sealed rescored := by decide +kernel
  -- The dump at the beginning of this file, up to the checksum.
  have hdump : ∃ dump rest, rescored = layout dump ++ rest ∧ ∀ fresh,
      Loads (fun _ _ => false) dump fresh →
        ∃ z, (fresh.table ⟨0, by decide⟩).lookup [] = some ⟨.zset z, 0⟩ ∧ ¬z.Consistent := by
    let a : Text × Double := (⟨[], by decide⟩, ⟨0x3FF0000000000000⟩)
    let b : Text × Double := (⟨[], by decide⟩, ⟨0x4000000000000000⟩)
    refine ⟨⟨[⟨⟨0, by decide⟩, ⟨[⟨⟨[], by decide⟩, 0, .zset ⟨[a, b], by decide⟩⟩],
      by decide⟩⟩], by decide⟩, [233, 91, 32, 211], by decide, fun fresh hload => ?_⟩
    obtain ⟨db, ⟨db', ⟨v, ⟨z, rfl, hz⟩, rfl⟩, hdb⟩, rfl⟩ := hload
    cases hdb
    refine ⟨z, rfl, not_consistent_of_not_steady (fun hsteady => ?_) hz⟩
    have heq : Score.eq a.2 b.2 = true := (hsteady [] a [] b [] rfl rfl).1
    revert heq
    decide
  obtain ⟨dump, rest, hs, hsets⟩ := hdump
  obtain ⟨fresh, hload, hr⟩ := loadFromFile_of_layout (fun _ _ => false) [] .empty hhead hseal hs
  exact ⟨_, hr, hsets fresh hload⟩

end TinyRedis.Rdb

import TinyRedis.Commands.Safety.Runs
import TinyRedis.Db.Indexed
import TinyRedis.SkipList.Range

/-!
# The two indices of stored sorted sets

Every stored sorted set has the same pairs in its skip list and in its dict, in every state of every
run. Each write of a handler is to both indices, and scores that are NaN are refused.
-/

namespace TinyRedis.Commands

open Lib SkipList ZSetValue

/-! ## Removing pairs -/

/-- `removePair` erases from the skip list and from the dict. -/
theorem removePair_eq {z z' : ZSetValue} {score : Double} {member : Bytes}
    (h : removePair z score member = .ok z') :
    ∃ erased sl, z.sl.erase score member = .ok (erased, sl) ∧ z' = ⟨sl, z.dict.erase member⟩ := by
  obtain ⟨r, hr, h⟩ := bind_eq_ok h
  cases h
  exact ⟨r.1, r.2, hr, rfl⟩

/-- A pair is removed whether or not its member is there. -/
theorem indexed_removePair {z z' : ZSetValue} {score : Double} {member : Bytes} (hz : z.Indexed)
    (hscore : ∀ s, z.dict.lookup member = some s → s = score)
    (h : removePair z score member = .ok z') : z'.Indexed := by
  obtain ⟨es, hes⟩ := hz
  obtain ⟨erased, sl, hr, rfl⟩ := removePair_eq h
  cases hl : z.dict.lookup member with
  | none => exact hes.erase_none hl hr
  | some s =>
    rw [← hscore s hl] at hr
    exact hes.erase hl hr

/-- All pairs that are removed one after another are those of the dict `d`. -/
theorem indexed_removePairs {d : Dict Bytes Double} {victims : List (Double × Bytes)}
    {z z' : ZSetValue} (hz : z.Indexed)
    (hd : ∀ m s, z.dict.lookup m = some s → d.lookup m = some s)
    (hv : ∀ e ∈ victims, d.lookup e.2 = some e.1) (h : removePairs victims z = .ok z') :
    z'.Indexed := by
  induction victims generalizing z with
  | nil =>
    cases h
    exact hz
  | cons e victims ih =>
    obtain ⟨z₁, h₁, h⟩ := bind_eq_ok h
    have he := hv e List.mem_cons_self
    have hz₁ : z₁.Indexed := by
      refine indexed_removePair hz (fun s hs => ?_) h₁
      rw [hd _ _ hs] at he
      exact Option.some.inj he
    refine ih hz₁ (fun m s hs => hd m s ?_) (fun e' he' => hv e' (List.mem_cons_of_mem _ he')) h
    obtain ⟨erased, sl, -, rfl⟩ := removePair_eq h₁
    rw [Dict.lookup_erase_eq] at hs
    split_ifs at hs
    exact hs

/-- Removing pairs that are there, in order, keeps the indexes together. -/
theorem indexed_removeRange {victims : List (Double × Bytes)} {z z' : ZSetValue}
    (hz : z.Indexed) (hsub : ∀ es, Holds z.sl es → victims.Sublist es)
    (h : removePairs victims z = .ok z') : z'.Indexed := by
  obtain ⟨es, hes⟩ := hz
  refine indexed_removePairs ⟨es, hes⟩ (fun _ _ hs => hs) (fun e he => ?_) h
  exact hes.mem_iff.1 ((hsub es hes.represents.holds).subset he)

/-! ## The invariant -/

/-- The two indices of a value are consistent, if it is a sorted set. -/
def IndexedValue : Value → Prop
  | .zset z => z.Indexed
  | _ => True

/-- The operations on sorted sets keep the indexes together. -/
theorem zsetClosed_indexed : ZSetClosed IndexedValue where
  add _ _ _ _ _ _ := fun ⟨_, hz⟩ hpos hle hnan hnew hr => hz.insert hpos hle hnan hnew hr
  rescore _ _ _ _ _ _ _ _ _ := fun ⟨_, hz⟩ hpos hle hnan hold hr hr' =>
    hz.rescore hpos hle hnan hold hr hr'
  remove _ score _ _ hz hold hr := by
    have honly : ∀ s, _ = some s → s = score := fun s hs =>
      Option.some.inj (hs.symm.trans hold)
    exact indexed_removePair hz honly hr
  popMin _ _ _ := fun ⟨_, hz⟩ hr => hz.popMin hr
  popMax _ _ _ := fun ⟨_, hz⟩ hr => hz.popMax hr
  removeByRank _ _ _ _ _ hz hv hr :=
    indexed_removeRange hz (fun _ hes => rangeByRank_sublist hes hv) hr
  removeByScore _ _ _ _ hz hv hr :=
    indexed_removeRange hz (fun _ hes => rangeByScore_sublist hes hv) hr

/-- All stored values have a property. -/
def AllValues (V : Value → Prop) (db : Database) : Prop :=
  ∀ i key e, (db.table i).lookup key = some e → V e.value

section

variable {V : Value → Prop} {db db' : Database} {E : CommandFault → Prop}

/-- What holds of all values holds of those of a smaller database. -/
theorem allValues_of_within (h : AllValues V db) (hsub : Database.Within db' db) :
    AllValues V db' := fun i key e he => h i key e (hsub i key e he)

/-- A write of one entry. -/
theorem allValues_write (h : AllValues V db) {i : DbIndex} {key : Bytes} {e : Entry}
    (he : V e.value)
    (hdb : ∀ j, db'.table j = if j = i then (db.table i).insert key e else db.table j) :
    AllValues V db' := by
  intro j key' e' hl
  rw [hdb] at hl
  split_ifs at hl with hj
  · rw [Dict.lookup_insert_eq] at hl
    split_ifs at hl
    · cases hl
      exact he
    · exact h i key' e' hl
  · exact h j key' e' hl

/-- Assigning a value that satisfies `V` keeps all values so. -/
theorem assigns_allValues (V : Value → Prop) : Assigns V (AllValues V) :=
  fun db i key e v h _ hv =>
    allValues_write (e := { e with value := v }) h hv fun j => Database.table_assign db i j key _

/-- The operations that make no value of their own keep all values so. -/
theorem stable_allValues (hstring : V (.rawString [])) (hE : ∀ f, Benign f → E f) :
    Stable V (AllValues V) E where
  value _ i key e h he := h i key e he
  lookup db i key now h := allValues_of_within h (Database.within_lookup db i key now)
  set db i key v exp h hv :=
    allValues_write (e := ⟨v, exp⟩) h hv fun j => Database.table_set db i j key v exp
  delete db i key h := allValues_of_within h (Database.within_delete db i key)
  flushDb db i h := allValues_of_within h (Database.within_flushDb db i)
  maxMemory _ _ h := h
  deadline db i key e exp h he :=
    allValues_write (e := { e with expiresAtMs := exp }) h (h i key e he) fun j =>
      Database.table_assign db i j key _
  emptyString := hstring
  benign := hE

/-- A property that all hashes, lists, and sets have is an invariant of the commands, if the empty
string and the empty sorted set have it. -/
theorem invariant_allValues (hstring : V (.rawString [])) (hhash : ∀ d, V (.hash d))
    (hlist : ∀ l, V (.list l)) (hset : ∀ s, V (.set s)) (hzset : V (.zset ⟨SkipList.empty, ∅⟩))
    (hE : ∀ f, Benign f → E f) : Invariant V (AllValues V) E where
  toStable := stable_allValues hstring hE
  hash := hhash
  list := hlist
  members := hset
  emptyZSet := hzset

end

/-- That the indexes agree is an invariant of the commands. -/
theorem invariant_indexed : Invariant IndexedValue (AllValues IndexedValue) fun _ => True :=
  invariant_allValues trivial (fun _ => trivial) (fun _ => trivial) (fun _ => trivial)
    indexed_empty fun _ _ => trivial

/-- Every command keeps the indexes of all sorted sets together. -/
theorem kept_indexed (env : Env) :
    Server.Kept env (fun _ => true) (AllValues IndexedValue) where
  handler x p hargc _ hx hp := by
    have hrun : RunsIf (fun _ => True) (AllValues IndexedValue) (fun _ => True)
        (handler env (toLower (x.argv.headD [])) x.argv x.cmd) :=
      invariant_indexed.runsIf_handler (A := fun _ => True) (strings_of_all fun _ => trivial)
        (fun _ _ _ => trivial) hargc (fun _ _ _ => assigns_allValues IndexedValue)
        (fun _ _ => trivial) (fun _ _ _ _ => trivial) zsetClosed_indexed
    exact hrun.of_ok ⟨hx, trivial⟩ hp
  expire i rng keys now n db h _ :=
    allValues_of_within h (Database.within_expireTable i rng keys now (n, db))

/-- In every state that a server reaches from an empty database, every stored sorted set has the
pairs of its dict in its skip list, each member once. -/
theorem Server.run_zset_consistent {env : Env} {events : List Event} {s₀ s : Server}
    (hinit : s₀.Initial) (hrun : s₀.run env events = .ok s) {i : DbIndex} {key : Bytes} {e : Entry}
    {z : ZSetValue} (he : (s.db.table i).lookup key = some e) (hz : e.value = .zset z) :
    ∃ pairs, Holds z.sl pairs ∧ pairs.Perm z.graph ∧ (pairs.map Prod.snd).Nodup ∧
      (∀ score member, (score, member) ∈ pairs ↔ z.dict.lookup member = some score) ∧
      z.sl.length = z.dict.size := by
  have hempty : AllValues IndexedValue s₀.db := by
    rw [hinit.db]
    exact fun _ _ _ h => by cases h
  have hall := Server.run_keeps (kept_indexed env) events hempty
    (Server.runMeets_true env events s₀) hrun
  have hv := hall i key e he
  rw [hz] at hv
  obtain ⟨pairs, hp⟩ := hv
  refine ⟨pairs, hp.represents.holds, hp.perm, ?_, fun score member => hp.mem_iff, ?_⟩
  · rw [(hp.perm.map Prod.snd).nodup_iff]
    unfold graph
    rw [List.map_map]
    exact Dict.toList_nodup z.dict
  · rw [hp.represents.holds.length, hp.perm.length_eq, length_graph]

/-- Two members are added by one client, and one of them is removed by another. -/
def zaddZrem : List Event :=
  [.call 0 [bytes "ZADD", bytes "z", bytes "0", bytes "a", bytes "0", bytes "b"],
    .call 1 [bytes "ZREM", bytes "z", bytes "a"]]

/-- A run of `ZADD` and `ZREM` ends with a sorted set whose indexes agree. -/
theorem Server.run_zset_consistent_zadd_zrem :
    ∃ s e z, freshServer.run stillEnv zaddZrem = .ok s ∧
      (s.db.table ⟨0, by decide⟩).lookup (bytes "z") = some e ∧ e.value = .zset z ∧
      ∃ pairs, Holds z.sl pairs ∧ pairs.Perm z.graph ∧ (pairs.map Prod.snd).Nodup ∧
        (∀ score member, (score, member) ∈ pairs ↔ z.dict.lookup member = some score) ∧
        z.sl.length = z.dict.size := by
  have hfound : (freshServer.run stillEnv zaddZrem).toOption.any (fun s =>
      ((s.db.table ⟨0, by decide⟩).lookup (bytes "z")).any fun e =>
        decide (typeOf e.value = .kZSet)) = true := by decide +kernel
  obtain ⟨s, hrun, hs⟩ := exists_ok_of_any hfound
  cases he : (s.db.table ⟨0, by decide⟩).lookup (bytes "z") with
  | none =>
    rw [he] at hs
    cases hs
  | some e =>
    rw [he] at hs
    obtain ⟨z, hz⟩ : ∃ z, e.value = .zset z := by
      have ht : typeOf e.value = .kZSet := of_decide_eq_true hs
      cases hv : e.value <;> rw [hv] at ht <;> first | exact ⟨_, rfl⟩ | cases ht
    exact ⟨s, e, z, hrun, he, hz, Server.run_zset_consistent freshServer_initial hrun he hz⟩

end TinyRedis.Commands

import TinyRedis.Commands.Calls
import TinyRedis.SkipList.Range

/-!
# Windows of indices

`LRANGE`, `GETRANGE`, and `RangeByRank` cut a pair of indices to the length of a list, a string, or
a skip list, each in an order of its own. All three take the same part, `slice`, and the sums they
compute on the way fit in 64 bits.

`LTRIM` keeps the part that `LRANGE` takes.
-/

namespace TinyRedis.Commands

open Lib Lib.Window Resp SkipList

variable {env : Env} {argv : Args} {tx : Tx} {w : World} {key : Bytes} {e : Entry}
  {start stop n : ℤ} {l : List Bytes}

/-! ## The part that is taken -/

/-- A first index below the list. -/
theorem cut_start (i : ℤ) : (if i < 0 then 0 else i) = max 0 i := by split_ifs <;> omega

/-- A last index behind the list. -/
theorem cut_stop (n i : ℤ) : (if n ≤ i then n - 1 else i) = min (n - 1) i := by
  split_ifs <;> omega

/-- An index that counts from the end. -/
theorem add_of_neg (n i : ℤ) : (if i < 0 then i + n else i) = norm n i := by
  unfold Window.norm
  split_ifs <;> omega

/-- `ListIndexRange` cuts the indices to the list. -/
theorem listIndexRange_eq (start stop n : ℤ) :
    listIndexRange start stop n =
      if min (n - 1) (norm n stop) < max 0 (norm n start) then none
      else some (max 0 (norm n start), min (n - 1) (norm n stop)) := by
  unfold listIndexRange
  dsimp only
  rw [add_of_neg, add_of_neg, cut_start, cut_stop]

/-- Nothing is between the indices. -/
theorem slice_of_listIndexRange_none (h : listIndexRange start stop l.length = none) :
    slice start stop l = [] := by
  rw [listIndexRange_eq] at h
  split_ifs at h with hlt
  exact slice_eq_nil rfl rfl hlt

/-- The part of a list that `LRANGE` takes, and `LTRIM` keeps. -/
theorem slice_of_listIndexRange {lo hi : ℤ}
    (h : listIndexRange start stop l.length = some (lo, hi)) :
    slice start stop l = listWindow lo hi l := by
  rw [listIndexRange_eq] at h
  split_ifs at h with hlt
  cases h
  exact slice_of_clamped rfl rfl

/-- The part of a string that `GETRANGE` takes. -/
theorem substring_eq_slice (s : Bytes) (start stop : ℤ) :
    substring s start stop = slice start stop s := by
  unfold substring
  dsimp only
  rw [add_of_neg, add_of_neg, cut_start, cut_stop]
  split_ifs with hlen hempty
  · rw [List.eq_nil_of_length_eq_zero (Int.natCast_eq_zero.1 hlen)]
    rfl
  · refine (slice_eq_nil rfl rfl ?_).symm
    omega
  · rw [slice_of_clamped rfl rfl, List.drop_take]
    congr 1
    omega

/-! ## Sums in 64 bits -/

/-- A sum that fits. -/
theorem checked_of_bounds (hlo : -2^63 ≤ n) (hhi : n < 2^63) : checked n = pure n :=
  if_pos ⟨hlo, hhi⟩

/-- The rest of a program after such a sum. -/
theorem bounded_bind {α : Type} (f : ℤ → M α) (hlo : -2^63 ≤ n) (hhi : n < 2^63) :
    (checked n >>= f) = f n := by
  rw [checked_of_bounds hlo hhi, pure_bind]

/-- An index that may count from the end of `n` elements, with the sum checked. -/
def fromEnd (n i : ℤ) : M ℤ := if i < 0 then checked (n + i) else pure i

/-- `ListIndexRange`, with every sum checked. -/
def listIndexRange64 (start stop llen : ℤ) : M (Option (ℤ × ℤ)) := do
  let start ← fromEnd llen start
  let stop ← fromEnd llen stop
  let start := if start < 0 then 0 else start
  let last ← checked (llen - 1)
  let stop := if llen ≤ stop then last else stop
  pure (if stop < start then none else some (start, stop))

/-- `GETRANGE` on a string, with every sum checked. -/
def substring64 (s : Bytes) (start stop : ℤ) : M Bytes := do
  let len : ℤ := s.length
  if len = 0 then pure []
  else do
    let start ← fromEnd len start
    let stop ← fromEnd len stop
    let start := if start < 0 then 0 else start
    let last ← checked (len - 1)
    let stop := if len ≤ stop then last else stop
    if stop < start ∨ len ≤ start ∨ stop < 0 then pure []
    else do
      let distance ← checked (stop - start)
      let n ← checked (distance + 1)
      pure ((s.drop start.toNat).take n.toNat)

/-- `RangeByRank`, with every sum checked. The loops count at most to the length. -/
def rangeByRank64 (sl : SkipList Double) (start stop : ℤ) (rev : Bool) :
    M (List (Double × Bytes)) := do
  let llen : ℤ := sl.length
  if sl.length = 0 then pure []
  else do
    let start ← fromEnd llen start
    let stop ← fromEnd llen stop
    let start := if start < 0 then 0 else start
    let last ← checked (llen - 1)
    if start > last then pure []
    else if stop < 0 then pure []
    else
      let stop := if stop > last then last else stop
      if start > stop then pure []
      else do
        let first ← checked (if rev then last - stop else start)
        let final ← checked (if rev then last - start else stop)
        let distance ← checked (final - first)
        let _ ← checked (distance + 1)
        liftSkipList do
          let l ← sl.link sl.header 0
          let v ← sl.window first final sl.length l.forward 0
          .ok (if rev then v.reverse else v)

/-- The sum for an index fits. -/
theorem fromEnd_eq {i : ℤ} (hn : 0 ≤ n) (hmax : n < 2^63) (hlo : -2^63 ≤ i) :
    fromEnd n i = pure (norm n i) := by
  unfold fromEnd Window.norm
  split_ifs with hneg
  · exact checked_of_bounds (by omega) (by omega)
  · rfl

/-- The sums of `ListIndexRange` fit. -/
theorem listIndexRange64_eq (hn : 0 ≤ n) (hmax : n < 2^63) (hstart : -2^63 ≤ start)
    (hstop : -2^63 ≤ stop) :
    listIndexRange64 start stop n = pure (listIndexRange start stop n) := by
  unfold listIndexRange64 listIndexRange
  rw [fromEnd_eq hn hmax hstart, pure_bind, fromEnd_eq hn hmax hstop, pure_bind, bounded_bind]
  · unfold Window.norm
    rw [add_comm n start, add_comm n stop]
  all_goals omega

/-- Those of `GETRANGE` fit. -/
theorem substring64_eq (s : Bytes) (hmax : (s.length : ℤ) < 2^63) (hstart : -2^63 ≤ start)
    (hstop : -2^63 ≤ stop) : substring64 s start stop = pure (substring s start stop) := by
  have hn : (0 : ℤ) ≤ s.length := Int.natCast_nonneg _
  unfold substring64 substring
  dsimp only
  by_cases hlen : (s.length : ℤ) = 0
  · rw [if_pos hlen, if_pos hlen]
  rw [if_neg hlen, if_neg hlen, fromEnd_eq hn hmax hstart, pure_bind, fromEnd_eq hn hmax hstop,
    pure_bind, bounded_bind _ (by omega) (by omega), add_of_neg, add_of_neg, cut_start, cut_stop]
  split_ifs with hempty
  · rfl
  · rw [bounded_bind, bounded_bind] <;> omega

/-- Those of `RangeByRank` fit. -/
theorem rangeByRank64_eq {sl : SkipList Double} (hmax : (sl.length : ℤ) < 2^63)
    (hstart : -2^63 ≤ start) (hstop : -2^63 ≤ stop) (rev : Bool) :
    rangeByRank64 sl start stop rev = liftSkipList (sl.rangeByRank start stop rev) := by
  have hn : (0 : ℤ) ≤ sl.length := Int.natCast_nonneg _
  have hlast : ∀ i : ℤ, (if i > (sl.length : ℤ) - 1 then (sl.length : ℤ) - 1 else i) =
      min ((sl.length : ℤ) - 1) i := fun i => by split_ifs <;> omega
  rw [rangeByRank_clamped sl start stop rev rfl rfl]
  unfold rangeByRank64
  dsimp only
  by_cases hlen : sl.length = 0
  · rw [if_pos hlen, if_pos (by omega)]
    rfl
  rw [if_neg hlen, fromEnd_eq hn hmax hstart, pure_bind, fromEnd_eq hn hmax hstop, pure_bind,
    bounded_bind _ (by omega) (by omega), cut_start, hlast]
  generalize hlo : max 0 (norm sl.length start) = lo
  generalize hhi : min ((sl.length : ℤ) - 1) (norm sl.length stop) = hi
  by_cases hlt : hi < lo
  · rw [if_pos hlt, if_pos hlt]
    split_ifs <;> rfl
  · rw [if_neg (by omega), if_neg (by omega), if_neg (by omega), if_neg hlt]
    cases rev with
    | true =>
      simp only [if_true]
      rw [bounded_bind, bounded_bind, bounded_bind, bounded_bind]
      · rfl
      all_goals omega
    | false =>
      simp only [Bool.false_eq_true, if_false]
      rw [bounded_bind, bounded_bind, bounded_bind, bounded_bind]
      · exact congrArg liftSkipList (congrArg _ (funext fun l => bind_pure _))
      all_goals omega

/-! ## Commands -/

/-- `LRANGE` of a list. -/
theorem lrange_found (hkey : argv[1]? = some key) (hstart : HasInt argv 2 start)
    (hstop : HasInt argv 3 stop) (hfinds : Finds env listKind key e l w) :
    lrange env argv w = .ok ((), replied (.array ((slice start stop l).map .bulk))
      { w with tick := w.tick + 1 }) := by
  unfold lrange
  rw [arg_bind_some hkey, hfinds.withTyped_eq, twoInts_eq hstart hstop, pure_bind]
  dsimp only
  refine (hfinds.stores.deref_bind _).trans ?_
  rw [hfinds.afterLookup_eq]
  cases hrange : listIndexRange start stop l.length with
  | none =>
    rw [slice_of_listIndexRange_none hrange]
    exact replyEmptyArray_eq _
  | some r =>
    rw [slice_of_listIndexRange hrange, ← hfinds.afterLookup_eq]
    exact (hfinds.stores.deref_bind _).trans (replyBulkArray_eq _ _)

/-- `LRANGE` of a missing key. -/
theorem lrange_absent (hkey : argv[1]? = some key) (hstart : HasInt argv 2 start)
    (hstop : HasInt argv 3 stop) (habsent : Absent key w) :
    lrange env argv w = .ok ((), replied (.array []) { w with tick := w.tick + 1 }) := by
  have hnone : listIndexRange start stop ([] : List Bytes).length = none := by
    rw [listIndexRange_eq, if_pos]
    simp
  unfold lrange
  rw [arg_bind_some hkey, withTyped_of_absent habsent, twoInts_eq hstart hstop, pure_bind]
  dsimp only
  refine (congrFun (pure_bind ([] : List Bytes) _) _).trans ?_
  rw [hnone]
  exact replyEmptyArray_eq _

/-- `GETRANGE` of a string. -/
theorem getrange_found {s : Bytes} (hkey : argv[1]? = some key) (hstart : HasInt argv 2 start)
    (hstop : HasInt argv 3 stop) (hfinds : Finds env stringKind key e s w) :
    getrange env argv w = .ok ((), replied (.bulk (slice start stop s))
      { w with tick := w.tick + 1 }) := by
  obtain ⟨a, ha, hstart⟩ := hstart
  obtain ⟨b, hb, hstop⟩ := hstop
  unfold getrange
  rw [arg_bind_some hkey, hfinds.withTyped_eq]
  refine (hfinds.stores.deref_bind _).trans ?_
  rw [arg_bind_some ha, hstart]
  dsimp only
  rw [arg_bind_some hb, hstop]
  dsimp only
  rw [substring_eq_slice, replyBulk_eq, hfinds.afterLookup_eq]

/-- What is left after `LTRIM`: the part of the list, or no key if that is empty. -/
def Trimmed (key : Bytes) (e : Entry) (l : List Bytes) (w : World) : Prop :=
  (Absent key w ∧ l = []) ∨ Stores listKind key { e with value := .list l } l w

/-- A reply does not change what is left. -/
theorem Trimmed.reply (h : Trimmed key e l w) (v : Reply) : Trimmed key e l (replied v w) :=
  h.imp_right fun hstores => hstores.replied v

/-- `LTRIM` after its arguments. -/
theorem ltrimBody_eq (hstores : Stores listKind key e l w) (start stop : ℤ) :
    ∃ w', ltrimBody key (some key) start stop w = .ok ((), replied (.simple (bytes "OK")) w') ∧
      w'.out = w.out ∧ w'.tick = w.tick ∧ Trimmed key e (slice start stop l) w' := by
  unfold ltrimBody
  rw [hstores.deref_bind]
  by_cases hnil : l = []
  · -- An empty list stays as it is.
    subst hnil
    rw [if_pos rfl, replySimple_eq]
    have hvalue : Value.list [] = e.value := listKind.put_of_get _ _ hstores.value
    refine ⟨w, rfl, rfl, rfl, .inr ?_⟩
    show Stores listKind key { e with value := .list [] } [] w
    rw [hvalue]
    exact hstores
  rw [if_neg hnil]
  cases hrange : listIndexRange start stop l.length with
  | none =>
    rw [slice_of_listIndexRange_none hrange]
    exact ⟨_, replySimple_eq _ _, rfl, rfl, .inl ⟨absent_delete key w, rfl⟩⟩
  | some r =>
    rw [slice_of_listIndexRange hrange]
    dsimp only
    rw [hstores.store_bind]
    split_ifs with hempty
    · exact ⟨_, replySimple_eq _ _, rfl, rfl, .inl ⟨absent_delete key _, hempty⟩⟩
    · exact ⟨_, replySimple_eq _ _, rfl, rfl, .inr (Stores.assign _)⟩

/-- `LTRIM` of a list. -/
theorem ltrim_found (hkey : argv[1]? = some key) (hstart : HasInt argv 2 start)
    (hstop : HasInt argv 3 stop) (hfinds : Finds env listKind key e l w) :
    ∃ w', ltrim env argv w = .ok ((), replied (.simple (bytes "OK")) w') ∧ w'.out = w.out ∧
      w'.tick = w.tick + 1 ∧ Trimmed key e (slice start stop l) w' := by
  unfold ltrim
  rw [arg_bind_some hkey, hfinds.withTyped_eq, twoInts_eq hstart hstop, pure_bind]
  exact ltrimBody_eq hfinds.stores start stop

/-- What is left after `LTRIM` is what `LRANGE 0 -1` returns, if it does not expire. -/
theorem Trimmed.lrange_eq (h : Trimmed key e l w) (hkey : argv[1]? = some key)
    (hstart : HasInt argv 2 0) (hstop : HasInt argv 3 (-1))
    (hlive : Database.expired e (env.nowMs w.tick) = false) :
    lrange env argv w = .ok ((), replied (.array (l.map .bulk)) { w with tick := w.tick + 1 }) := by
  rcases h with ⟨habsent, rfl⟩ | hstores
  · exact lrange_absent hkey hstart hstop habsent
  · rw [lrange_found hkey hstart hstop (hstores.finds hlive), slice_zero_neg_one]

/-- All windows are the same part: `LRANGE`, `GETRANGE`, and `RangeByRank` take the elements between
the two indices, and no sum on the way is out of range; and `LTRIM` leaves what `LRANGE` takes. -/
theorem windows_agree (hmax : env.opts.maxmemory = 0) (depth : ℕ) (start stop : ℤ) :
    (∀ argv tx key e l w, WindowCall .lrange argv tx key start stop →
      Finds env listKind key e l w →
      ∃ w', Answers env depth argv tx w (.array ((slice start stop l).map .bulk)) w') ∧
    (∀ argv tx key e s w, WindowCall .getrange argv tx key start stop →
      Finds env stringKind key e s w →
      ∃ w', Answers env depth argv tx w (.bulk (slice start stop s)) w') ∧
    (∀ (sl : SkipList Double) es, Holds sl es →
      sl.rangeByRank start stop false = .ok (slice start stop es) ∧
      sl.rangeByRank start stop true = .ok (slice start stop es.reverse)) ∧
    (-2^63 ≤ start → -2^63 ≤ stop →
      (∀ l : List Bytes, (l.length : ℤ) < 2^63 →
        listIndexRange64 start stop l.length = pure (listIndexRange start stop l.length)) ∧
      (∀ s : Bytes, (s.length : ℤ) < 2^63 →
        substring64 s start stop = pure (substring s start stop)) ∧
      (∀ (sl : SkipList Double) es rev, Holds sl es →
        rangeByRank64 sl start stop rev = liftSkipList (sl.rangeByRank start stop rev))) ∧
    (∀ argv argv' tx key e l w, WindowCall .ltrim argv tx key start stop →
      WindowCall .lrange argv' tx key 0 (-1) → Finds env listKind key e l w →
      Database.expired e (env.nowMs (w.tick + 1)) = false →
      ∃ w' w'', Answers env depth argv tx w (.simple (bytes "OK")) w' ∧
        Answers env depth argv' tx w' (.array ((slice start stop l).map .bulk)) w'') := by
  have hgate : ∀ {c : Cmd} {w : World}, gated env c w = false := gated_of_unlimited hmax
  refine ⟨fun argv tx key e l w hcall hfinds => ?_, fun argv tx key e s w hcall hfinds => ?_,
    fun sl es hes => ⟨rangeByRank_eq hes start stop false, rangeByRank_eq hes start stop true⟩,
    fun hstart hstop => ⟨fun l hl => ?_, fun s hs => ?_, fun sl es rev hes => ?_⟩,
    fun argv argv' tx key e l w hcall hcall' hfinds hlive => ?_⟩
  · exact ⟨_, (hcall.enters hgate rfl).answers depth
      (lrange_found hcall.key hcall.start hcall.stop hfinds) rfl⟩
  · exact ⟨_, (hcall.enters hgate rfl).answers depth
      (getrange_found hcall.key hcall.start hcall.stop hfinds) rfl⟩
  · exact listIndexRange64_eq (Int.natCast_nonneg _) hl hstart hstop
  · exact substring64_eq s hs hstart hstop
  · have hnodes := hes.length_le
    unfold maxNodes at hnodes
    have hlength : (sl.length : ℤ) < 2^63 := by
      rw [hes.length]
      omega
    exact rangeByRank64_eq hlength hstart hstop rev
  · obtain ⟨w', hw', hout, htick, htrimmed⟩ :=
      ltrim_found hcall.key hcall.start hcall.stop hfinds
    have hlive' :
        Database.expired e (env.nowMs (replied (.simple (bytes "OK")) w').tick) = false := by
      rw [show (replied (.simple (bytes "OK")) w').tick = w.tick + 1 from htick]
      exact hlive
    have hrange := (htrimmed.reply (.simple (bytes "OK"))).lrange_eq hcall'.key hcall'.start
      hcall'.stop hlive'
    refine ⟨_, _, (hcall.enters hgate rfl).answers depth hw' ?_,
      (hcall'.enters hgate rfl).answers depth hrange rfl⟩
    rw [← hout]
    rfl

/-- The list `a`, `b`, `c`: `LRANGE k -2 7` returns `b` and `c`, and so does `LRANGE k 0 -1` after
`LTRIM k -2 7`. -/
theorem windows_agree_tail :
    (∃ w', Answers stillEnv 1 [bytes "LRANGE", bytes "k", bytes "-2", bytes "7"] .idle
      (worldWith (.list [bytes "a", bytes "b", bytes "c"]))
      (.array [.bulk (bytes "b"), .bulk (bytes "c")]) w') ∧
    ∃ w' w'', Answers stillEnv 1 [bytes "LTRIM", bytes "k", bytes "-2", bytes "7"] .idle
        (worldWith (.list [bytes "a", bytes "b", bytes "c"])) (.simple (bytes "OK")) w' ∧
      Answers stillEnv 1 [bytes "LRANGE", bytes "k", bytes "0", bytes "-1"] .idle w'
        (.array [.bulk (bytes "b"), .bulk (bytes "c")]) w'' := by
  have hfinds := finds_worldWith stillEnv listKind [bytes "a", bytes "b", bytes "c"]
  obtain ⟨hlrange, -, -, -, hltrim⟩ := windows_agree (rfl : stillEnv.opts.maxmemory = 0) 1 (-2) 7
  refine ⟨hlrange _ _ _ _ _ _ ⟨by decide +kernel, rfl, rfl, ?_, ?_⟩ hfinds,
    hltrim _ _ _ _ _ _ _ ⟨by decide +kernel, rfl, rfl, ?_, ?_⟩ ⟨by decide +kernel, rfl, rfl, ?_, ?_⟩
      hfinds rfl⟩ <;> exact ⟨_, rfl, by decide +kernel⟩

end TinyRedis.Commands

import TinyRedis.Commands.Presence

/-!
# Iterations with `SCAN`

A client starts with the cursor 0 and calls `SCAN` with the cursor of each reply, until this is 0
again. The source goes over the whole table in each call, takes no other cursor than 0, and replies
no other, so that an iteration is one call. `COUNT` does not cut the iteration into calls: it bounds
the reply, and what is behind the bound is never returned.
-/

namespace TinyRedis.Commands

open Lib Resp List

variable {env : Env} {argv : Args} {tx : Tx} {w : World} {t : Int64} {o o' : ScanOptions} {i : ℕ}
  {hit : Bytes → Bool}

/-! ## Options -/

/-- The options after `o`, if they are all accepted. -/
def parseScan : List Bytes → ScanOptions → Option ScanOptions
  | [], o => some o
  | [_], _ => none
  | s :: v :: rest, o =>
    if toUpper s = bytes "MATCH" then parseScan rest { o with pattern := v }
    else if toUpper s = bytes "COUNT" then
      ((parseIntStrict v).filter fun n => decide (0 ≤ n)).bind fun n =>
        parseScan rest { o with count := n }
    else none

/-- The loop over the arguments reads the options. -/
theorem scanOptions_run (n i : ℕ) (hn : argv.length ≤ n + i)
    (h : parseScan (argv.drop i) o = some o') (w : World) :
    ∃ j, argLoop argv (scanOption argv) n i o w = .ok (.next j o', w) := by
  induction n generalizing i o with
  | zero =>
    rw [drop_eq_nil_of_le (by omega), parseScan] at h
    cases h
    exact ⟨i, rfl⟩
  | succ n ih =>
    unfold argLoop
    by_cases hi : i < argv.length
    · have hnext : i + 1 < argv.length := by
        by_contra hlast
        rw [drop_eq_cons hi, drop_eq_nil_of_le (by omega), parseScan] at h
        cases h
      rw [drop_eq_cons hi, drop_eq_cons hnext, parseScan] at h
      rw [if_pos hi, bind_apply]
      unfold scanOption
      rw [arg_bind hi]
      split_ifs at h with hmatch hcount
      · rw [if_pos ⟨hmatch, hnext⟩, arg_eq hnext]
        exact ih (i + 2) (by omega) h
      · obtain ⟨cnt, hcnt, hrest⟩ := Option.bind_eq_some_iff.1 h
        obtain ⟨hparse, hpos⟩ := Option.filter_eq_some_iff.1 hcnt
        rw [if_neg fun hc => hmatch hc.1, if_pos ⟨hcount, hnext⟩, arg_bind hnext, hparse]
        dsimp only
        rw [if_neg (not_lt_of_ge (of_decide_eq_true hpos))]
        exact ih (i + 2) (by omega) hrest
    · rw [drop_eq_nil_of_le (by omega), parseScan] at h
      cases h
      exact ⟨i, by rw [if_neg hi]; rfl⟩

/-! ## The keys of a call -/

/-- With a positive `COUNT`, the keys are the first ones that match. -/
theorem scanLive_of_count (hit : Bytes → Bool) {count : ℕ} (l : List (Bytes × Entry))
    {keys : List Bytes} (hkeys : keys.length < count) :
    scanLive hit count l keys = (keys ++ (l.map Prod.fst).filter hit).take count := by
  induction l generalizing keys with
  | nil =>
    rw [scanLive, map_nil, filter_nil, append_nil, take_of_length_le hkeys.le]
  | cons kv rest ih =>
    rw [scanLive]
    cases hkv : hit kv.1 with
    | true =>
      have hlength : (keys ++ [kv.1]).length = keys.length + 1 := length_append
      rw [if_pos rfl, map_cons, filter_cons_of_pos hkv,
        append_cons keys kv.1 ((rest.map Prod.fst).filter hit)]
      split_ifs with hfull
      · -- The last key that still had room.
        rw [take_append_of_le_length (by omega), take_of_length_le (by omega)]
      · exact ih (by omega)
    | false =>
      rw [if_neg Bool.false_ne_true, if_neg (by omega), map_cons,
        filter_cons_of_neg (by rw [hkv]; exact Bool.false_ne_true)]
      exact ih hkeys

/-- With any `COUNT`, they are some of those that match. -/
theorem scanLive_sublist (hit : Bytes → Bool) (count : ℤ) (l : List (Bytes × Entry))
    (keys : List Bytes) :
    (scanLive hit count l keys).Sublist (keys ++ (l.map Prod.fst).filter hit) := by
  induction l generalizing keys with
  | nil => exact sublist_append_left _ _
  | cons kv rest ih =>
    have hkeys : (if hit kv.1 then keys ++ [kv.1] else keys) ++ (rest.map Prod.fst).filter hit =
        keys ++ ((kv :: rest).map Prod.fst).filter hit := by
      rw [map_cons, filter_cons]
      split_ifs
      · exact append_assoc _ _ _
      · rfl
    rw [scanLive, ← hkeys]
    generalize (if hit kv.1 then keys ++ [kv.1] else keys) = keys'
    split_ifs
    · exact sublist_append_left _ _
    · exact ih keys'

/-- The key is live, and `GlobMatch` accepts it. -/
def Selected (t : Int64) (pattern : Bytes) (w : World) (key : Bytes) : Prop :=
  isLive t w key = true ∧ ∀ w', globMatch pattern key w' = .ok (true, w')

/-- What a call of `SCAN` returns: distinct keys out of those that are live and accepted. Without
`COUNT` they are all returned. With a positive `COUNT` there are as many as it says, or all of them
if there are fewer. -/
structure Selects (t : Int64) (o : ScanOptions) (w : World) (found : List Bytes) : Prop where
  nodup : found.Nodup
  selected : ∀ key ∈ found, Selected t o.pattern w key
  all : o.count = -1 → ∀ key, Selected t o.pattern w key → key ∈ found
  bounded : 1 ≤ o.count → (found.length : ℤ) = o.count ∨
    (found.length : ℤ) < o.count ∧ ∀ key, Selected t o.pattern w key → key ∈ found

/-- The live keys of the table, in the order of iteration. -/
def liveKeys (env : Env) (t : Int64) (w : World) : List Bytes :=
  ((env.order w.tick (w.db.table w.cs.dbIndex).toList).filter (alivePair t)).map Prod.fst

/-- The live keys are those of the purged table in some order. -/
theorem liveKeys_perm (env : Env) (t : Int64) (w : World) : (liveKeys env t w).Perm
    ((Database.purgeTable t (w.db.table w.cs.dbIndex)).toList.map Prod.fst) :=
  (filter_order_perm env w.tick _).map Prod.fst

/-- A key is among the live keys if and only if it is live. -/
theorem mem_liveKeys_iff {key : Bytes} : key ∈ liveKeys env t w ↔ isLive t w key = true := by
  rw [(liveKeys_perm env t w).mem_iff, ← Dict.mem_iff_mem_toList, ← AList.lookup_isSome,
    Option.isSome_iff_exists, isLive_iff]
  simp only [Database.lookup_purgeTable_iff]

/-- A list with the elements of one of the lists that `SCAN` makes out of the live keys. -/
theorem selects_of_perm (env : Env)
    (hhit : ∀ s w, globMatch o.pattern s w = .ok (hit s, w)) {found : List Bytes}
    (hfound : found.Perm (scanLive hit o.count
      ((env.order w.tick (w.db.table w.cs.dbIndex).toList).filter (alivePair t)) [])) :
    Selects t o w found := by
  have hselected : ∀ key, key ∈ (liveKeys env t w).filter hit ↔ Selected t o.pattern w key := by
    intro key
    rw [mem_filter, mem_liveKeys_iff]
    refine and_congr_right fun _ => ⟨fun h w' => by rw [hhit, h], fun h => ?_⟩
    exact (Prod.mk.inj (Except.ok.inj ((hhit key w).symm.trans (h w)))).1
  have hsub := scanLive_sublist hit o.count
    ((env.order w.tick (w.db.table w.cs.dbIndex).toList).filter (alivePair t)) []
  have hnodup := (liveKeys_perm env t w).nodup_iff.2 (Dict.toList_nodup _)
  refine ⟨hfound.nodup_iff.2 ((hnodup.filter hit).sublist hsub),
    fun key hkey => (hselected key).1 (hsub.subset (hfound.mem_iff.1 hkey)),
    fun hnone key hkey => ?_, fun hpos => ?_⟩
  · rw [hfound.mem_iff, hnone, scanLive_of_no_count, nil_append]
    exact (hselected key).2 hkey
  · obtain ⟨count, hcount⟩ := Int.eq_ofNat_of_zero_le (show 0 ≤ o.count by omega)
    rw [hcount, scanLive_of_count hit _ (by simp only [length_nil]; omega), nil_append] at hfound
    have hlength : found.length = min count ((liveKeys env t w).filter hit).length := by
      rw [hfound.length_eq]
      exact length_take
    by_cases hfull : count ≤ ((liveKeys env t w).filter hit).length
    · exact Or.inl (by omega)
    · refine Or.inr ⟨by omega, fun key hkey => hfound.mem_iff.2 ?_⟩
      have hall : ((liveKeys env t w).filter hit).take count = (liveKeys env t w).filter hit :=
        take_of_length_le (by omega)
      exact hall.symm ▸ (hselected key).2 hkey

/-! ## The iteration -/

/-- The reply of `SCAN`: a cursor, and keys. -/
def scanReply (cursor : Bytes) (keys : List Bytes) : Reply :=
  .array [.bulk cursor, .array (keys.map .bulk)]

/-- The reply of a scan is a well-formed one. -/
theorem scanReply_wellFormed (cursor : Bytes) (keys : List Bytes) :
    (scanReply cursor keys).WellFormed := by
  have hkeys : Reply.AllWellFormed (keys.map .bulk) := by
    rw [Reply.allWellFormed_iff]
    intro v hv
    obtain ⟨key, -, rfl⟩ := mem_map.1 hv
    trivial
  exact ⟨trivial, hkeys, trivial⟩

/-- `SCAN` appends its cursor and the array of keys. -/
theorem appendScan_eq (out : Bytes) (keys : List Bytes) :
    appendBulkArray (appendBulkReply (appendArrayReply out 2) (bytes "0")) keys =
      out ++ (scanReply (bytes "0") keys).encode := by
  rw [Reply.appendBulkArray_eq_encode]
  simp [appendBulkReply, appendArrayReply, scanReply, Reply.encode, Reply.encodeAll, Reply.header]

/-- A client calls `SCAN` with a cursor and options, and goes on with the cursor of the reply until
this is 0. The keys of all the replies are collected. -/
inductive Iterates (env : Env) (depth : ℕ) (name : Bytes) (options : List Bytes) (tx : Tx) :
    Bytes → World → List Bytes → Prop
  | last {cursor : Bytes} {w w' : World} {keys : List Bytes}
      (h : Answers env depth (name :: cursor :: options) tx w (scanReply (bytes "0") keys) w') :
      Iterates env depth name options tx cursor w keys
  | next {cursor next : Bytes} {w w' : World} {keys rest : List Bytes}
      (h : Answers env depth (name :: cursor :: options) tx w (scanReply next keys) w')
      (hnext : next ≠ bytes "0") (hrest : Iterates env depth name options tx next w' rest) :
      Iterates env depth name options tx cursor w (keys ++ rest)

/-- A call of `SCAN` with options that are accepted, while no key expires. -/
theorem scan_run (env : Env) (name : Bytes) {cursor : Bytes} {options : List Bytes}
    (hcursor : parseIntStrict cursor = some 0)
    (hoptions : parseScan options ⟨bytes "*", -1⟩ = some o) (w : World) :
    ∃ found w', scan env (name :: cursor :: options) w = .ok ((), w') ∧
      w'.out = w.out ++ (scanReply (bytes "0") found).encode ∧
      ∀ t, Settled env t w.tick w'.tick (w.db.table w.cs.dbIndex).toList → Selects t o w found := by
  obtain ⟨hit, hhit⟩ := exists_hit o.pattern
  set argv := name :: cursor :: options with hargv
  have hdrop : parseScan (argv.drop 2) ⟨bytes "*", -1⟩ = some o := hoptions
  obtain ⟨j, hloop⟩ := scanOptions_run argv.length 2 (by omega) hdrop w
  obtain ⟨live, n, hn, -, hlive⟩ := scanLoop_run (o := o) env hhit
    (env.order w.tick (w.db.table w.cs.dbIndex).toList) [] { w with tick := w.tick + 1 }
  refine ⟨sorted live, replied (scanReply (bytes "0") (sorted live)) { w with tick := n }, ?_, rfl,
    fun t hsettled => selects_of_perm env hhit ?_⟩
  · have harg : arg argv 1 = pure cursor := rfl
    unfold scan
    rw [harg, pure_bind, if_neg (not_not_intro hcursor), bind_apply, hloop, ok_bind]
    dsimp only
    show (scanLoop env o (env.order w.tick (w.db.table w.cs.dbIndex).toList) []
      { w with tick := w.tick + 1 } >>= _) = _
    rw [hn, ok_bind]
    exact congrArg Except.ok (congrArg (Prod.mk ()) (congrArg
      (fun out => { w with tick := n, out }) (appendScan_eq w.out (sorted live))))
  · rw [← hlive t fun kv hkv k hk hkn =>
      hsettled kv ((env.order_perm _ _).mem_iff.1 hkv) k (Nat.le_of_succ_le hk) hkn]
    exact perm_insertionSort _ _

/-- An iteration is one call. If no key expires during it, it returns what the call selects. -/
theorem scan_iterates (env : Env) (tx : Tx) (htx : tx.inMulti = false) (depth : ℕ) (w : World)
    (name cursor : Bytes) (options : List Bytes) (o : ScanOptions)
    (haccepts : accepts .scan (name :: cursor :: options) = true)
    (hcursor : parseIntStrict cursor = some 0)
    (hoptions : parseScan options ⟨bytes "*", -1⟩ = some o) :
    ∃ found w', Answers env depth (name :: cursor :: options) tx w
        (scanReply (bytes "0") found) w' ∧
      (∀ keys, Iterates env depth name options tx cursor w keys ↔ keys = found) ∧
      ∀ t, Settled env t w.tick w'.tick (w.db.table w.cs.dbIndex).toList → Selects t o w found := by
  obtain ⟨found, w', hrun, hout, hselects⟩ := scan_run env name hcursor hoptions w
  have hanswers : Answers env depth (name :: cursor :: options) tx w
      (scanReply (bytes "0") found) w' :=
    Enters.answers (.mk haccepts htx (gated_of_read rfl) rfl) depth hrun hout
  refine ⟨found, w', hanswers, fun keys => ⟨fun h => ?_, fun h => h ▸ .last hanswers⟩, hselects⟩
  have hreply : ∀ {next keys w₁}, Answers env depth (name :: cursor :: options) tx w
      (scanReply next keys) w₁ → next = bytes "0" ∧ keys = found := by
    intro next keys w₁ h
    have heq := h.reply_unique hanswers (scanReply_wellFormed _ _) (scanReply_wellFormed _ _)
    simp only [scanReply, Reply.array.injEq, List.cons.injEq, Reply.bulk.injEq, and_true] at heq
    exact ⟨heq.1, map_injective_iff.2 (fun _ _ => Reply.bulk.inj) heq.2⟩
  cases h with
  | last h => exact (hreply h).2
  | next h hnext _ => exact absurd (hreply h).1 hnext

/-- `SCAN 0 match * COUNT 5`, with a clock that moves and a key whose deadline came before. -/
theorem scan_iterates_match : ∃ found w',
    Answers { stillEnv with nowMs := fun n => if n = 0 then 1 else 2 } 0
      [bytes "SCAN", bytes "0", bytes "match", bytes "*", bytes "COUNT", bytes "5"] .idle mixedWorld
      (scanReply (bytes "0") found) w' ∧
    (∀ keys, Iterates { stillEnv with nowMs := fun n => if n = 0 then 1 else 2 } 0 (bytes "SCAN")
      [bytes "match", bytes "*", bytes "COUNT", bytes "5"] .idle (bytes "0") mixedWorld keys ↔
        keys = found) ∧
    Selects 1 ⟨bytes "*", 5⟩ mixedWorld found := by
  obtain ⟨found, w', hanswers, hiterates, hselects⟩ :=
    scan_iterates { stillEnv with nowMs := fun n => if n = 0 then 1 else 2 } .idle rfl 0 mixedWorld
      (bytes "SCAN") (bytes "0") [bytes "match", bytes "*", bytes "COUNT", bytes "5"]
      ⟨bytes "*", 5⟩ (by decide +kernel) (by decide +kernel) rfl
  refine ⟨found, w', hanswers, hiterates, hselects 1 fun kv hkv n _ _ => ?_⟩
  have hall : ∀ kv ∈ (mixedWorld.db.table mixedWorld.cs.dbIndex).toList,
      Database.expired kv.2 1 = Database.expired kv.2 2 := by decide +kernel
  show Database.expired kv.2 (if n = 0 then 1 else 2) = _
  split_ifs
  · rfl
  · exact (hall kv hkv).symm

/-- Of two keys, `SCAN 0 COUNT 1` returns one, and the iteration is over. -/
theorem scan_count_misses : ∃ keys key, Iterates stillEnv 0 (bytes "SCAN")
    [bytes "COUNT", bytes "1"] .idle (bytes "0") mixedWorld keys ∧
      Selected 0 (bytes "*") mixedWorld key ∧ key ∉ keys := by
  obtain ⟨⟨⟨⟩, w'⟩, hrun, hout⟩ := exists_ok_of_any
    (p := fun x : Unit × World =>
      decide (x.2.out = mixedWorld.out ++ (scanReply (bytes "0") [bytes "k"]).encode))
    (x := scan stillEnv [bytes "SCAN", bytes "0", bytes "COUNT", bytes "1"] mixedWorld)
    (by decide +kernel)
  have hanswers : Answers stillEnv 0 [bytes "SCAN", bytes "0", bytes "COUNT", bytes "1"] .idle
      mixedWorld (scanReply (bytes "0") [bytes "k"]) w' :=
    Enters.answers (.mk (c := .scan) (by decide +kernel) rfl (gated_of_read rfl) rfl) 0 hrun
      (of_decide_eq_true hout)
  exact ⟨[bytes "k"], bytes "l", .last hanswers, ⟨by decide +kernel, fun _ => rfl⟩, by decide⟩

end TinyRedis.Commands

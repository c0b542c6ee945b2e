import TinyRedis.Commands.Calls
import TinyRedis.Commands.Expiry.Tables

/-!
# Keys that are there, and keys that are live

`EXISTS` looks its keys up, so that it counts the live ones. `DEL` and `UNLINK` call `Delete`, which
does not look at the deadline, so that they count all the keys that have an entry. `RANDOMKEY` draws
one entry of the table. If the deadline of this entry has come, it replies nil, though another key
may be live.
-/

namespace TinyRedis.Commands

open Lib Resp List

variable {env : Env} {argv : Args} {w : World} {t : Int64} {keys : List Bytes}

/-! ## Loops over the arguments -/

section Loop

variable {α : Type} {body : ℕ → α → M α} {f : Bytes → α → M α}

/-- A loop over the arguments is a fold over them. -/
theorem argLoop_eq_foldlM (hbody : ∀ i s a, argv[i]? = some s → body i a = f s a) (n i : ℕ) (a : α)
    (hn : argv.length ≤ n + i) :
    argLoop argv (fun i a => do
        let a ← body i a
        pure (Step.next (β := Empty) (i + 1) a)) n i a =
      (argv.drop i).foldlM (fun a s => f s a) a >>= fun a =>
        pure (.next (max i argv.length) a) := by
  induction n generalizing i a with
  | zero =>
    rw [argLoop, drop_eq_nil_of_le (by omega), foldlM_nil, pure_bind, max_eq_left (by omega)]
  | succ n ih =>
    rw [argLoop]
    by_cases hi : i < argv.length
    · rw [if_pos hi, hbody i _ a (getElem?_eq_getElem hi), drop_eq_getElem_cons hi, foldlM_cons]
      simp only [bind_assoc, pure_bind]
      have hrest : max (i + 1) argv.length = max i argv.length := by omega
      rw [← hrest]
      exact bind_congr fun a => ih (i + 1) a (by omega)
    · rw [if_neg hi, drop_eq_nil_of_le (by omega), foldlM_nil, pure_bind, max_eq_left (by omega)]

/-- A loop over the arguments is a fold over those from its first index on. -/
theorem forArgs_eq_foldlM (hbody : ∀ i s a, argv[i]? = some s → body i a = f s a) (i : ℕ) (a : α) :
    forArgs argv 1 body i a = (argv.drop i).foldlM (fun a s => f s a) a := by
  unfold forArgs
  rw [argLoop_eq_foldlM hbody _ i a (by omega), bind_assoc]
  simp only [pure_bind, bind_pure]

end Loop

/-- Go over some keys, and count those for which a step says yes. -/
def tally (step : Bytes → M Bool) (keys : List Bytes) (n : ℕ) : M ℕ :=
  keys.foldlM (fun n key => do
    let b ← step key
    pure (if b then n + 1 else n)) n

/-- If a step says nothing about other keys, the count is that at the start. -/
theorem tally_run {step : Bytes → M Bool} {p : World → Bytes → Bool}
    (hstep : ∀ key w, ∃ w', step key w = .ok (p w key, w') ∧ w'.out = w.out ∧
      ∀ key', key' ≠ key → p w' key' = p w key')
    (hnodup : keys.Nodup) (n : ℕ) (w : World) :
    ∃ w', tally step keys n w = .ok (n + keys.countP (p w), w') ∧ w'.out = w.out := by
  induction keys generalizing n w with
  | nil => exact ⟨w, rfl, rfl⟩
  | cons key keys ih =>
    obtain ⟨hkey, hkeys⟩ := nodup_cons.1 hnodup
    obtain ⟨w₁, hrun, hout, hframe⟩ := hstep key w
    obtain ⟨w₂, hrun₂, hout₂⟩ := ih hkeys (if p w key then n + 1 else n) w₁
    have hcount : keys.countP (p w₁) = keys.countP (p w) :=
      countP_congr fun key' hmem => by rw [hframe key' (ne_of_mem_of_not_mem hmem hkey)]
    refine ⟨w₂, ?_, hout₂.trans hout⟩
    rw [tally, foldlM_cons, bind_apply, bind_apply, hrun, ok_bind]
    refine hrun₂.trans ?_
    rw [hcount, countP_cons]
    cases p w key with
    | true => rw [if_pos rfl, if_pos rfl, Nat.add_right_comm, Nat.add_assoc]
    | false => rfl

/-- A command that tallies its keys replies the count. -/
theorem tally_replied {m : M Unit} {step : Bytes → M Bool} {p : World → Bytes → Bool}
    (hm : m = tally step keys 0 >>= fun n => replyInt n)
    (hstep : ∀ key w, ∃ w', step key w = .ok (p w key, w') ∧ w'.out = w.out ∧
      ∀ key', key' ≠ key → p w' key' = p w key')
    (hnodup : keys.Nodup) (w : World) :
    ∃ w', m w = .ok ((), w') ∧ w'.out = w.out ++ (Reply.int (keys.countP (p w))).encode := by
  obtain ⟨w₁, hrun, hout⟩ := tally_run hstep hnodup 0 w
  refine ⟨replied (.int (keys.countP (p w))) w₁, ?_, congrArg (fun out => out ++ _) hout⟩
  rw [hm, bind_apply, hrun, ok_bind, Nat.zero_add]
  exact replyInt_eq _ _

/-! ## What is counted -/

/-- The key has an entry. -/
def hasEntry (w : World) (key : Bytes) : Bool := ((w.db.table w.cs.dbIndex).lookup key).isSome

/-- The key has an entry whose deadline has not come. -/
def isLive (t : Int64) (w : World) (key : Bytes) : Bool :=
  ((w.db.table w.cs.dbIndex).lookup key).any fun e => !Database.expired e t

/-- A key is live when it has an entry that is not expired. -/
theorem isLive_iff {key : Bytes} : isLive t w key = true ↔
    ∃ e, (w.db.table w.cs.dbIndex).lookup key = some e ∧ Database.expired e t = false := by
  unfold isLive
  rw [Option.any_eq_true]
  simp only [Bool.not_eq_true']

/-- A key is live when a lookup finds it. -/
theorem isLive_eq_lookup (t : Int64) (w : World) (key : Bytes) :
    isLive t w key = (w.db.lookup w.cs.dbIndex key t).1.isSome := by
  rw [Bool.eq_iff_iff, isLive_iff, Option.isSome_iff_exists]
  simp only [Database.lookup_fst, Database.lookup_purgeTable_iff]

/-- A live key has an entry. -/
theorem hasEntry_of_isLive {key : Bytes} (h : isLive t w key = true) : hasEntry w key = true := by
  obtain ⟨e, he, -⟩ := isLive_iff.1 h
  unfold hasEntry
  rw [he]
  rfl

/-- `DEL` counts the keys that have an entry. -/
theorem del_run (name : Bytes) (hnodup : keys.Nodup) (w : World) :
    ∃ w', del (name :: keys) w = .ok ((), w') ∧
      w'.out = w.out ++ (Reply.int (keys.countP (hasEntry w))).encode := by
  have hdel : del (name :: keys) = tally delete keys 0 >>= fun n => replyInt n := by
    unfold del
    rw [forArgs_eq_foldlM fun i s n hs => by rw [arg_bind_some hs]]
    rfl
  refine tally_replied hdel (fun key w => ?_) hnodup w
  refine ⟨{ w with db := (w.db.delete w.cs.dbIndex key).2 }, ?_, rfl, fun key' hne => ?_⟩
  · unfold delete hasEntry Database.delete
    cases (w.db.table w.cs.dbIndex).lookup key <;> rfl
  · unfold hasEntry
    rw [Database.lookup_delete, if_neg fun h => hne h.2]

/-- `EXISTS` counts the keys that are live. -/
theorem cmdExists_run (hclock : ∀ n, env.nowMs n = t) (name : Bytes) (hnodup : keys.Nodup)
    (w : World) :
    ∃ w', cmdExists env (name :: keys) w = .ok ((), w') ∧
      w'.out = w.out ++ (Reply.int (keys.countP (isLive t w))).encode := by
  have hexists : cmdExists env (name :: keys) =
      tally (fun key => lookup env key >>= fun e => pure e.isSome) keys 0 >>= fun n =>
        replyInt n := by
    unfold cmdExists tally
    rw [forArgs_eq_foldlM fun i s n hs => by rw [arg_bind_some hs]]
    simp only [bind_assoc, pure_bind]
    rfl
  refine tally_replied hexists (fun key w => ⟨afterLookup env key w, ?_, rfl, fun key' _ => ?_⟩)
    hnodup w
  · rw [lookup_bind, isLive_eq_lookup, ← hclock w.tick]
    rfl
  · rw [isLive_eq_lookup, isLive_eq_lookup]
    unfold afterLookup
    rw [hclock]
    exact congrArg Option.isSome ((Database.alike_lookup _ _ _ _).lookup_fst _ _)

/-- Two counts are the same when they count the same elements. -/
theorem countP_eq_iff {α : Type} {p q : α → Bool} (h : ∀ a, q a = true → p a = true)
    (l : List α) : l.countP p = l.countP q ↔ ∀ a ∈ l, p a = true → q a = true := by
  induction l with
  | nil => exact ⟨fun _ _ hmem => absurd hmem not_mem_nil, fun _ => rfl⟩
  | cons a l ih =>
    have hle : l.countP q ≤ l.countP p := countP_mono_left fun a _ => h a
    rw [forall_mem_cons, ← ih, countP_cons, countP_cons]
    cases hq : q a with
    | true =>
      rw [h a hq]
      exact ⟨fun heq => ⟨fun _ => rfl, Nat.add_right_cancel heq⟩, fun heq => by rw [heq.2]⟩
    | false =>
      cases hp : p a with
      | false => exact ⟨fun heq => ⟨fun hf => hf, heq⟩, And.right⟩
      | true =>
        refine ⟨fun heq => ?_, fun heq => absurd (heq.1 rfl) Bool.false_ne_true⟩
        simp only [if_true, Bool.false_eq_true, if_false] at heq
        omega

/-! ## The replies -/

/-- Two calls, each from the same world, reply the same number. -/
def SameCount (env : Env) (depth : ℕ) (argv argv' : Args) (tx : Tx) (w : World) : Prop :=
  ∃ (n : ℕ) (w₁ w₂ : World), Answers env depth argv tx w (.int n) w₁ ∧
    Answers env depth argv' tx w (.int n) w₂

/-- A call replies nil if and only if no key is live, and otherwise a key that is live. -/
def RepliesLiveKey (env : Env) (depth : ℕ) (argv : Args) (tx : Tx) (t : Int64) (w : World) : Prop :=
  ∃ v w₁, Answers env depth argv tx w v w₁ ∧ (v = .nullBulk ↔ ∀ key, isLive t w key = false) ∧
    (v ≠ .nullBulk → ∃ key, v = .bulk key ∧ isLive t w key = true)

variable {tx : Tx} {c : Cmd}

/-- `DEL` and `EXISTS` count the same when none of the keys has an entry whose deadline has
come. -/
theorem sameCount_iff (hclock : ∀ n, env.nowMs n = t) (hmax : env.opts.maxmemory = 0)
    (htx : tx.inMulti = false) (depth : ℕ) (hc : c = .del ∨ c = .unlink) {del ex : Bytes}
    (hnodup : keys.Nodup) (hdel : accepts c (del :: keys) = true)
    (hexists : accepts .exists (ex :: keys) = true) :
    SameCount env depth (del :: keys) (ex :: keys) tx w ↔
      ∀ key ∈ keys, hasEntry w key = true → isLive t w key = true := by
  obtain ⟨w₁, hrun₁, hout₁⟩ := del_run del hnodup w
  obtain ⟨w₂, hrun₂, hout₂⟩ := cmdExists_run hclock ex hnodup w
  have hcontrol : isControl c = false := by rcases hc with rfl | rfl <;> rfl
  have hanswers₁ : Answers env depth (del :: keys) tx w (.int (keys.countP (hasEntry w))) w₁ :=
    Enters.answers (.mk hdel htx (gated_of_unlimited hmax) hcontrol) depth
      (by rcases hc with rfl | rfl <;> exact hrun₁) hout₁
  have hanswers₂ : Answers env depth (ex :: keys) tx w (.int (keys.countP (isLive t w))) w₂ :=
    Enters.answers (.mk hexists htx (gated_of_unlimited hmax) rfl) depth hrun₂ hout₂
  rw [← countP_eq_iff fun key => hasEntry_of_isLive]
  constructor
  · rintro ⟨n, w₁', w₂', h₁, h₂⟩
    have hn₁ := Reply.int.inj (hanswers₁.reply_unique h₁ trivial trivial)
    have hn₂ := Reply.int.inj (hanswers₂.reply_unique h₂ trivial trivial)
    exact Int.ofNat.inj (hn₁.trans hn₂.symm)
  · intro heq
    exact ⟨_, w₁, w₂, hanswers₁, heq ▸ hanswers₂⟩

/-- The reply to a draw is right when the entry is live, or when there is no live key. -/
theorem drawnReply_right_iff (w : World) :
    ((drawnReply t (drawn env w) = .nullBulk ↔ ∀ key, isLive t w key = false) ∧
      (drawnReply t (drawn env w) ≠ .nullBulk →
        ∃ key, drawnReply t (drawn env w) = .bulk key ∧ isLive t w key = true)) ↔
    (∀ kv, drawn env w = some kv → Database.expired kv.2 t = false) ∨
      ∀ key, isLive t w key = false := by
  cases hkv : drawn env w with
  | none =>
    -- Nothing is drawn, so the table is empty.
    have hnone : ∀ key, isLive t w key = false := by
      intro key
      cases hempty : (w.db.table w.cs.dbIndex).entries.isEmpty with
      | true =>
        unfold isLive
        rw [show w.db.table w.cs.dbIndex = ∅ from AList.ext (isEmpty_iff.1 hempty)]
        rfl
      | false =>
        obtain ⟨kv, hsome, -⟩ : ∃ kv, drawn env w = some kv ∧ _ := drawn_of_nonempty hempty
        cases hkv.symm.trans hsome
    exact ⟨fun _ => Or.inr hnone, fun _ => ⟨iff_of_true rfl hnone, fun h => absurd rfl h⟩⟩
  | some kv =>
    have hlookup := lookup_of_mem_order (mem_of_getElem? hkv)
    unfold drawnReply
    dsimp only
    cases hdead : Database.expired kv.2 t with
    | true =>
      rw [if_pos rfl]
      refine ⟨fun h => Or.inr (h.1.1 rfl), fun h => ?_⟩
      rcases h with h | h
      · cases hdead.symm.trans (h kv rfl)
      · exact ⟨iff_of_true rfl h, fun hne => absurd rfl hne⟩
    | false =>
      have hlive : isLive t w kv.1 = true := isLive_iff.2 ⟨_, hlookup, hdead⟩
      rw [if_neg Bool.false_ne_true]
      refine ⟨fun _ => Or.inl fun kv' h' => ?_, fun _ => ⟨iff_of_false nofun fun h => ?_, ?_⟩⟩
      · cases h'
        exact hdead
      · exact Bool.false_ne_true ((h kv.1).symm.trans hlive)
      · exact fun _ => ⟨kv.1, rfl, hlive⟩

/-- The reply to a draw is a well-formed one. -/
theorem drawnReply_wellFormed (t : Int64) (o : Option (Bytes × Entry)) :
    (drawnReply t o).WellFormed := by
  cases o with
  | none => trivial
  | some kv =>
    unfold drawnReply
    dsimp only
    split_ifs <;> trivial

/-- `RANDOMKEY` is right when the entry it draws is live, or when there is no live key. -/
theorem repliesLiveKey_iff (hclock : ∀ n, env.nowMs n = t) (hmax : env.opts.maxmemory = 0)
    (htx : tx.inMulti = false) (depth : ℕ) (haccepts : accepts .randomkey argv = true) :
    RepliesLiveKey env depth argv tx t w ↔
      (∀ kv, drawn env w = some kv → Database.expired kv.2 t = false) ∨
        ∀ key, isLive t w key = false := by
  obtain ⟨w₁, hrun, -, hout⟩ := randomkey_run hclock w
  have hanswers : Answers env depth argv tx w (drawnReply t (drawn env w)) w₁ :=
    Enters.answers (.mk haccepts htx (gated_of_unlimited hmax) rfl) depth hrun hout
  rw [← drawnReply_right_iff]
  constructor
  · rintro ⟨v, w', h, hnil, hkey⟩
    have hwf : v.WellFormed := by
      by_cases hv : v = .nullBulk
      · rw [hv]
        trivial
      · obtain ⟨key, rfl, -⟩ := hkey hv
        trivial
    cases hanswers.reply_unique h (drawnReply_wellFormed _ _) hwf
    exact ⟨hnil, hkey⟩
  · rintro ⟨hnil, hkey⟩
    exact ⟨_, w₁, hanswers, hnil, hkey⟩

/-- Without a limit on the memory, and with the clock at `t`: `DEL` and `UNLINK` reply the number
that `EXISTS` replies exactly when none of the keys has an entry whose deadline has come, and
`RANDOMKEY` replies as it should exactly when it draws a live entry or no key is live. -/
theorem deletion_and_draw_iff (env : Env) (t : Int64) (hclock : ∀ n, env.nowMs n = t)
    (hmax : env.opts.maxmemory = 0) (tx : Tx) (htx : tx.inMulti = false) (depth : ℕ) (w : World)
    (c : Cmd) (hc : c = .del ∨ c = .unlink) (del ex : Bytes) (keys : List Bytes)
    (hnodup : keys.Nodup) (hdel : accepts c (del :: keys) = true)
    (hexists : accepts .exists (ex :: keys) = true) (argv : Args)
    (hrandomkey : accepts .randomkey argv = true) :
    (SameCount env depth (del :: keys) (ex :: keys) tx w ↔
        ∀ key ∈ keys, hasEntry w key = true → isLive t w key = true) ∧
      (RepliesLiveKey env depth argv tx t w ↔
        (∀ kv, drawn env w = some kv → Database.expired kv.2 t = false) ∨
          ∀ key, isLive t w key = false) :=
  ⟨sameCount_iff hclock hmax htx depth hc hnodup hdel hexists,
    repliesLiveKey_iff hclock hmax htx depth hrandomkey⟩

/-- The key `l` is live, and the deadline of the key `k` comes at the time one. -/
def mixedWorld : World :=
  let w := freshServer.world 0
  { w with
    db := (w.db.set w.cs.dbIndex (bytes "l") (.rawString []) 0).set w.cs.dbIndex (bytes "k")
      (.rawString []) 1 }

/-- At the time one, when `k` has expired, the live key `l` counts, and is drawn. -/
theorem deletion_and_draw_iff_live :
    SameCount { stillEnv with nowMs := fun _ => 1, random := fun _ => 1 } 0 [bytes "DEL", bytes "l"]
        [bytes "EXISTS", bytes "l"] .idle mixedWorld ∧
      RepliesLiveKey { stillEnv with nowMs := fun _ => 1, random := fun _ => 1 } 0
        [bytes "RANDOMKEY"] .idle 1 mixedWorld := by
  have h := deletion_and_draw_iff { stillEnv with nowMs := fun _ => 1, random := fun _ => 1 } 1
    (fun _ => rfl) rfl .idle rfl 0 mixedWorld .del (.inl rfl) (bytes "DEL") (bytes "EXISTS")
    [bytes "l"] (nodup_singleton _) (by decide +kernel) (by decide +kernel)
    [bytes "RANDOMKEY"] (by decide +kernel)
  refine ⟨h.1.2 fun key hkey _ => ?_, h.2.2 (Or.inl fun kv hkv => ?_)⟩
  · rw [mem_singleton.1 hkey]
    decide +kernel
  · cases hkv
    rfl

/-- At the time one, `DEL k` counts the key that `EXISTS k` does not count, and `RANDOMKEY`, when it
draws `k`, replies nil although `l` is live. -/
theorem stale_key_shows :
    ¬SameCount { stillEnv with nowMs := fun _ => 1 } 0 [bytes "DEL", bytes "k"]
        [bytes "EXISTS", bytes "k"] .idle mixedWorld ∧
      ¬RepliesLiveKey { stillEnv with nowMs := fun _ => 1 } 0 [bytes "RANDOMKEY"] .idle 1
        mixedWorld := by
  constructor
  · rw [sameCount_iff (fun _ => rfl) rfl rfl 0 (.inl rfl) (nodup_singleton _)
      (by decide +kernel) (by decide +kernel)]
    intro h
    exact absurd (h (bytes "k") mem_cons_self (by decide +kernel)) (by decide +kernel)
  · rw [repliesLiveKey_iff (fun _ => rfl) rfl rfl 0 (by decide +kernel)]
    rintro (h | h)
    · cases h _ rfl
    · exact absurd (h (bytes "l")) (by decide +kernel)

end TinyRedis.Commands

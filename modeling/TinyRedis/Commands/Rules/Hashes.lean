import TinyRedis.Commands.Rules.Strings

/-!
# Hash commands obey the rules
-/

namespace TinyRedis.Commands

open Lib Resp

variable {r : Rules} {p : Phase} {argv : Args} {lower key field : Bytes}

/-! ## Reading fields -/

/-- A field is looked for only if the hash was found. -/
theorem obeys_hashFind {β : Type} {Q : β → Phase → Prop} {st : LookupResult} {d : Handle}
    {f : Option Bytes → M β} (hst : p.Points (r.faults .nullHandle) st d)
    (hf : ∀ o, Obeys r p (f o) Q) : Obeys r p (hashFind st d field >>= f) Q := by
  unfold hashFind
  rw [bind_assoc]
  rcases hst with ⟨hnull, rfl, rfl⟩ | ⟨key, hkey, rfl, rfl⟩
  · exact .deref_null hnull
  · refine .deref hkey fun t _ => ?_
    rw [pure_bind]
    exact hf _

/-- The reply to a field that was looked for. -/
theorem utters_found (o : Option Bytes) : Utters (match o with
    | some v => replyBulk v
    | none => replyNullBulk) := by
  cases o with
  | none => exact utters_replyNullBulk
  | some v => exact utters_replyBulk v

/-- `HGET`. -/
theorem obeys_hget (h : r.Serves argv 3) (hnull : r.Misses .kHash argv) :
    Obeys r .fresh (hget r.env argv) Finished :=
  h.points (k := hashKind) (by decide) (.inr rfl) rfl hnull fun _ p st d _ _ ha hst =>
    h.arg fun field _ => obeys_hashFind hst fun o => .finish (utters_found o) ha

/-- `HMGET`. -/
theorem obeys_hmget (h : r.Serves argv 3) (hnull : r.Misses .kHash argv) :
    Obeys r .fresh (hmget r.env argv) Finished := by
  refine h.points (k := hashKind) (by decide) (.inr rfl) rfl hnull fun _ p st d _ _ ha hst => ?_
  refine .replyArray ha ?_
  -- Before the field at `i`, as many elements are missing as there are fields left.
  refine (Obeys.forArgs (p := p.reply (.left (argv.length - 2)))
    (I := fun i _ p => p.Points (r.faults .nullHandle) st d ∧
      p.answer = .left (argv.length - i)) Nat.one_pos ?_ 2 () ⟨hst, rfl⟩).imp ?_
  · rintro i ⟨⟩ p hlt ⟨hst, ha⟩
    have hleft : argv.length - i = argv.length - (i + 1) + 1 := by omega
    rw [hleft] at ha
    refine .argLt hlt fun field _ => obeys_hashFind hst fun o => ?_
    exact .element (utters_found o) ha ⟨hst, rfl⟩
  · rintro ⟨⟩ p ⟨j, hj, -, ha⟩
    rw [Nat.sub_eq_zero_of_le hj] at ha
    exact .inr ha

/-- A command that replies parts of a hash. -/
theorem obeys_hashItems (h : r.Serves argv 2) {reply : Dict Bytes Bytes → M Unit}
    (hreply : ∀ p d, p.answer = .none → Obeys r p (reply d) Finished) :
    Obeys r .start (hashItems r.env argv reply) Finished :=
  h.look (fun _ => .done utters_replyEmptyArray) fun _ _ =>
    .deref Phase.mem_hold fun d _ => hreply _ d rfl

/-- Each key comes with its value. -/
theorem length_flatMap_pair (keys : List Bytes) (f : Bytes → Bytes) :
    (keys.flatMap fun k => [k, f k]).length = keys.length * 2 := by
  induction keys with
  | nil => rfl
  | cons k keys ih =>
    rw [List.flatMap_cons, List.length_append, ih]
    simp only [List.length_cons, List.length_nil]
    omega

/-- The header of `HGETALL` counts the keys and their values. -/
theorem obeys_hgetall (h : r.Serves argv 2) : Obeys r .start (hgetall r.env argv) Finished := by
  refine obeys_hashItems h fun p d ha => .replyArray ha (.replyBulks ?_)
  rw [length_flatMap_pair]
  rfl

/-- `HKEYS`. -/
theorem obeys_hkeys (h : r.Serves argv 2) : Obeys r .start (hkeys r.env argv) Finished :=
  obeys_hashItems h fun _ _ ha => .finish (utters_replyBulkArray _) ha

/-- `HVALS`. -/
theorem obeys_hvals (h : r.Serves argv 2) : Obeys r .start (hvals r.env argv) Finished :=
  obeys_hashItems h fun _ _ ha => .finish (utters_replyBulkArray _) ha

/-- `HEXISTS`. -/
theorem obeys_hexists (h : r.Serves argv 3) : Obeys r .start (hexists r.env argv) Finished :=
  h.look (fun _ => .done (utters_replyInt 0)) fun _ _ =>
    .deref Phase.mem_hold fun _ _ => h.arg fun _ _ => .done (utters_replyInt _)

/-- `HLEN`. -/
theorem obeys_hlen (h : r.Serves argv 2) : Obeys r .start (hlen r.env argv) Finished :=
  h.look (fun _ => .done (utters_replyInt 0)) fun _ _ =>
    .deref Phase.mem_hold fun _ _ => .done (utters_replyInt _)

/-- `HSTRLEN`. -/
theorem obeys_hstrlen (h : r.Serves argv 3) (hnull : r.Misses .kHash argv) :
    Obeys r .fresh (hstrlen r.env argv) Finished := by
  refine h.points (k := hashKind) (by decide) (.inr rfl) rfl hnull fun _ p st d _ _ ha hst => ?_
  refine h.arg fun field _ => obeys_hashFind hst fun o => ?_
  cases o with
  | none => exact .finish (utters_replyInt 0) ha
  | some v => exact .finish (utters_replyInt _) ha

/-! ## Writing fields -/

section

variable (hV : ∀ d, r.values (.hash d))
include hV

/-- The loop of `HSET`: there is a value after each field, as their number is even. -/
theorem obeys_hsetLoop (heven : (argv.length - 2) % 2 = 0) (ho : r.Owns key p) :
    Obeys r p (forArgs argv 2 (hsetOne argv (some key)) 2 0) fun _ p' => p'.answer = .none := by
  refine (Obeys.forArgs (I := fun i _ p => (2 ≤ i ∧ i % 2 = 0) ∧ r.Owns key p) Nat.two_pos ?_ 2 0
    ⟨⟨le_rfl, rfl⟩, ho⟩).imp fun _ p' ⟨_, _, _, ho⟩ => ho.answer
  rintro i n p hlt ⟨hi, ho⟩
  refine .argLt hlt fun _ _ => .deref ho.held fun d _ => .argLt (by omega) fun _ _ => ?_
  exact ho.store (hV _) (.pure ⟨by omega, ho.write⟩)

/-- A hash that is taken fields out of. -/
theorem obeys_hdel (h : r.Serves argv 3) (hw : r.writes = true) (hnull : r.Misses .kHash argv)
    (hst : r.Modifies .kHash argv) : Obeys r .fresh (hdel r.env argv) Finished :=
  h.removeArgs (f := fun _ => hdelOne argv) hw hnull hst
    (fun _ _ _ hnull _ => .deref_null hnull) fun _ _ _ _ hi ho =>
      .deref ho.held fun _ _ => .argLt hi fun _ _ => ho.store (hV _) (.pure ho.write)

/-- A field is checked before it is written. In a hash that was just created there is none. -/
theorem obeys_hincrbyBody (h : r.Serves argv 4) {delta : ℤ} (ho : r.Owns key p)
    (hclean : p.stage = .clean ∨ p.created = some (key, .hash ∅)) :
    Obeys r p (hincrbyBody argv (some key) delta) Finished := by
  have hstore : ∀ d res, Obeys r p (do
      store hashKind (some key) d
      replyInt res) Finished := fun d res => ho.put (hV _) (utters_replyInt res)
  rcases hclean with hclean | hcreated
  · refine .deref ho.held fun d _ => h.arg fun field _ => ?_
    cases d.lookup field with
    | none => exact hstore _ _
    | some s =>
      dsimp only
      cases parseIntStrict s with
      | none => exact h.failAt fails_errHashNotInt hclean ho.answer
      | some cur =>
        refine .ite (fun _ => ?_) fun _ => hstore _ _
        exact h.failAt fails_errNotInt hclean ho.answer
  · refine .deref_created (k := hashKind) (t := ∅) ho.held hcreated ?_
    exact h.arg fun field _ => hstore _ _

/-- The sum that `HINCRBYFLOAT` stores, if the field holds a number. -/
theorem obeys_hincrbyfloatAdd (h : r.Serves argv 4) (hlax : r.lax = true) {delta : LongDouble}
    {d : Dict Bytes Bytes} (cur : Option LongDouble) (ho : r.Owns key p) :
    Obeys r p (match cur with
      | none => errHashNotFloat
      | some cur =>
        let res := r.env.floats.addLong cur delta
        if r.env.floats.isNaNLong res || r.env.floats.isInfLong res then errIncrOverflow
        else do
          let s ← formatLongDouble r.env.floats res
          store hashKind (some key) (d.insert field s)
          replyBulk s) Finished := by
  cases cur with
  | none => exact .fail fails_errHashNotFloat h.lines (.inr hlax) ho.answer
  | some cur =>
    refine .ite (fun _ => .fail fails_errIncrOverflow h.lines (.inr hlax) ho.answer) fun _ => ?_
    refine .idle (idle_formatLongDouble _ _) ho.may.settled fun text _ => ?_
    exact ho.put (hV _) (utters_replyBulk text)

variable (h : r.Serves argv 4) (hw : r.writes = true) (hst : r.Creates .kHash argv)
include h hw hst

/-- `HSET` and `HMSET`, which differ in the reply. -/
theorem obeys_hsetWith (hlower : wrongArgsText lower ∈ r.text) {reply : ℕ → M Unit}
    (hreply : ∀ n, Utters (reply n)) :
    Obeys r .fresh (hsetWith r.env argv lower reply) Finished := by
  refine .ite (fun _ => .settle (.wrongArgs hlower rfl rfl)) fun heven => ?_
  refine h.create hw hst (hV _) (fun _ => rfl) fun key p ho _ => ?_
  exact (obeys_hsetLoop hV (by omega) ho).bind fun n p ha => .finish (hreply n) ha

/-- `HSET`. -/
theorem obeys_hset (hlower : wrongArgsText lower ∈ r.text) :
    Obeys r .fresh (hset r.env argv lower) Finished :=
  obeys_hsetWith hV h hw hst hlower fun _ => utters_replyInt _

/-- `HMSET`. -/
theorem obeys_hmset (hlower : wrongArgsText lower ∈ r.text) :
    Obeys r .fresh (hmset r.env argv lower) Finished :=
  obeys_hsetWith hV h hw hst hlower fun _ => utters_replySimple (by decide)

/-- `HSETNX`. -/
theorem obeys_hsetnx : Obeys r .fresh (hsetnx r.env argv) Finished := by
  refine h.create hw hst (hV _) (fun _ => rfl) fun key p ho _ => ?_
  refine .deref ho.held fun d _ => h.arg fun field _ => ?_
  refine .ite (fun _ => .finish (utters_replyInt 0) ho.answer) fun _ => ?_
  exact h.arg fun val _ => ho.put (hV _) (utters_replyInt 1)

/-- `HINCRBY`. -/
theorem obeys_hincrby : Obeys r .fresh (hincrby r.env argv) Finished := by
  refine h.arg fun s _ => ?_
  cases parseIntStrict s with
  | none => exact .settle (h.fail fails_errNotInt)
  | some delta =>
    exact h.create hw hst (hV _) (fun _ => rfl) fun key p ho hclean =>
      obeys_hincrbyBody hV h ho hclean

/-- `HINCRBYFLOAT`. -/
theorem obeys_hincrbyfloat (hlax : r.lax = true) :
    Obeys r .fresh (hincrbyfloat r.env argv) Finished := by
  refine h.arg fun s _ => ?_
  cases parseLongDoubleStrict r.env.floats s with
  | none => exact .settle (h.fail fails_errNotFloat)
  | some delta =>
    exact h.create hw hst (hV _) (fun _ => rfl) fun key p ho _ =>
      .deref ho.held fun _ _ => h.arg fun _ _ => obeys_hincrbyfloatAdd hV h hlax _ ho

end

end TinyRedis.Commands

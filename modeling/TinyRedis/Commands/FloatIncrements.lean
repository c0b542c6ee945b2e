import TinyRedis.Commands.Filled.Basic
import TinyRedis.Commands.ZAdd

/-!
# Increments of floating-point numbers

`INCRBYFLOAT`, `HINCRBYFLOAT`, and `ZINCRBY` get or create the value under their key before the last
test that may fail. A key that was missing is then left with an empty value.
-/

namespace TinyRedis.Commands

open Lib Resp List

variable {env : Env} {argv : Args} {tx tx' : Tx} {w₀ w w' : World} {key field member : Bytes}
  {e : Entry} {t : Int64} {T : Type} {s a : Bytes} {k : Kind T} {delta : LongDouble} {u empty : T}
  {onNew : Bool}

/-! ## The last tests -/

/-- A sum is not a finite number, or one of its terms is no number. -/
def sumFails (fl : Floats) (cur delta : Option LongDouble) : Bool :=
  match cur, delta with
  | some cur, some delta =>
    let res := fl.addLong cur delta
    fl.isNaNLong res || fl.isInfLong res
  | _, _ => true

/-- The call has replied, and has failed or not. If it has failed, the entry is still `e`; if not,
it has an element. -/
def Increments (w₀ : World) (key : Bytes) (e : Entry) (fails : Bool) (w' : World) : Prop :=
  ∃ v w e', Altered w₀ key e' w ∧ w' = replied v w ∧ v.isError = fails ∧
    if fails then e' = e else Filled e'.value

/-- A body that only replies an error has failed without a change. -/
theorem Increments.of_replyError (h : Altered w₀ key e w) (hrun : replyError s w = .ok ((), w')) :
    Increments w₀ key e true w' := by
  rw [replyError_eq] at hrun
  cases hrun
  exact ⟨_, w, e, h, rfl, rfl, rfl⟩

/-- The text of a number is found without a look at the world. -/
theorem formatLongDouble_world {fl : Floats} {d : LongDouble}
    (h : formatLongDouble fl d w = .ok (s, w')) : w' = w := by
  unfold formatLongDouble at h
  dsimp only at h
  split_ifs at h <;> cases h <;> rfl

/-- The end of `INCRBYFLOAT` and `HINCRBYFLOAT`: the sum is tested, stored in the value, and
replied. -/
theorem Increments.of_sum {u : T} {put : Bytes → T} {cur : LongDouble}
    (h : Altered w₀ key ⟨k.put u, t⟩ w) (hput : ∀ s, Filled (k.put (put s)))
    (hrun : (if env.floats.isNaNLong (env.floats.addLong cur delta) ||
          env.floats.isInfLong (env.floats.addLong cur delta) then errIncrOverflow
        else do
          let s ← formatLongDouble env.floats (env.floats.addLong cur delta)
          store k (some key) (put s)
          replyBulk s : M Unit) w = .ok ((), w')) :
    Increments w₀ key ⟨k.put u, t⟩ (sumFails env.floats (some cur) (some delta)) w' := by
  unfold sumFails
  dsimp only
  split_ifs at hrun with hover
  · rw [hover]
    exact .of_replyError h hrun
  · rw [Bool.not_eq_true _ |>.mp hover]
    obtain ⟨s, w₁, hformat, hstore⟩ := exists_of_bind hrun
    obtain rfl := formatLongDouble_world hformat
    rw [(h.stores (k.get_put u)).store_bind, replyBulk_eq] at hstore
    cases hstore
    exact ⟨_, _, _, h.assign _, rfl, rfl, hput s⟩

/-- `incrByFloat` fails when the sum does and else stores it. -/
theorem incrByFloat_increments (h : Altered w₀ key ⟨.rawString s, t⟩ w) (ha : argv[2]? = some a)
    (hrun : incrByFloat env argv (some key) s w = .ok ((), w')) :
    Increments w₀ key ⟨.rawString s, t⟩ (sumFails env.floats
      (if s = [] then some env.floats.zeroLong else parseLongDoubleStrict env.floats s)
      (parseLongDoubleStrict env.floats a)) w' := by
  unfold incrByFloat at hrun
  dsimp only at hrun
  cases hcur :
    (if s = [] then some env.floats.zeroLong else parseLongDoubleStrict env.floats s) with
  | none =>
    rw [hcur] at hrun
    exact .of_replyError h hrun
  | some cur =>
    rw [hcur] at hrun
    dsimp only at hrun
    rw [arg_bind_some ha] at hrun
    cases hdelta : parseLongDoubleStrict env.floats a with
    | none =>
      rw [hdelta] at hrun
      exact .of_replyError h hrun
    | some delta =>
      rw [hdelta] at hrun
      exact .of_sum (k := stringKind) h (fun _ => trivial) hrun

/-- The number in a field of a hash, which is zero if there is no such field. -/
def fieldNumber (fl : Floats) (h : Dict Bytes Bytes) (field : Bytes) : Option LongDouble :=
  match h.lookup field with
  | none => some fl.zeroLong
  | some s => parseLongDoubleStrict fl s

/-- The body of `HINCRBYFLOAT` fails when the sum does and else stores it. -/
theorem hincrbyfloatBody_increments {m : Dict Bytes Bytes} (h : Altered w₀ key ⟨.hash m, t⟩ w)
    (hfield : argv[2]? = some field)
    (hrun : hincrbyfloatBody env argv (some key) delta w = .ok ((), w')) :
    Increments w₀ key ⟨.hash m, t⟩
      (sumFails env.floats (fieldNumber env.floats m field) (some delta)) w' := by
  unfold hincrbyfloatBody at hrun
  rw [(h.stores (k := hashKind) rfl).deref_bind, arg_bind_some hfield] at hrun
  unfold fieldNumber
  cases hlook : m.lookup field with
  | none =>
    rw [hlook] at hrun
    exact .of_sum (k := hashKind) h (fun s => Dict.size_insert_pos m field s) hrun
  | some s =>
    rw [hlook] at hrun
    dsimp only at hrun ⊢
    cases hcur : parseLongDoubleStrict env.floats s with
    | none =>
      rw [hcur] at hrun
      exact .of_replyError h hrun
    | some cur =>
      rw [hcur] at hrun
      exact .of_sum (k := hashKind) h (fun s => Dict.size_insert_pos m field s) hrun

/-- The body of `ZINCRBY` fails when the sum overflows and else stores it. -/
theorem incrScore_increments {z : ZSetValue} {member : Bytes} {delta : Double}
    (h : Altered w₀ key ⟨.zset z, t⟩ w)
    (hrun : (do
      match ← incrScore env (some key) z delta member with
      | none => errIncrOverflow
      | some res => replyBulk (formatDouble env.floats res) : M Unit) w = .ok ((), w')) :
    Increments w₀ key ⟨.zset z, t⟩ (incrOverflows env z.dict member delta) w' := by
  obtain ⟨r, w₁, hw₁, hrest⟩ := exists_of_bind hrun
  have hres := incrScore_scored h hw₁
  unfold incrOverflows
  dsimp only at hres ⊢
  split_ifs at hres with hover
  · obtain ⟨rfl, rfl⟩ := hres
    rw [hover]
    exact .of_replyError h hrest
  · obtain ⟨rfl, z', hdict, haltered⟩ := hres
    have hfilled : Filled (.zset z') := by
      show 0 < z'.dict.size
      rw [hdict]
      exact Dict.size_insert_pos z.dict member _
    rw [Bool.not_eq_true _ |>.mp hover]
    dsimp only at hrest
    rw [replyBulk_eq] at hrest
    cases hrest
    exact ⟨_, w₁, _, haltered, rfl, rfl, hfilled⟩

/-! ## The three commands -/

/-- An error leaves the database undisturbed if and only if the call does not fail, or the key was
found. -/
theorem Increments.undisturbed_iff {fails : Bool} (hgets : Gets env k empty key e u w)
    (h : Increments w key e fails w') :
    ((∃ b, w'.out = w.out ++ 45 :: b) → Undisturbed env w.tick w'.tick w.db w'.db) ↔
      ¬(live env key w = none ∧ fails = true) := by
  obtain ⟨v, w₁, e', haltered, rfl, hv, hsame⟩ := h
  constructor
  · rintro hundisturbed ⟨hlive, rfl⟩
    obtain ⟨b, hb⟩ := exists_encode_of_isError hv
    have hdb := hundisturbed ⟨b, by rw [← hb, ← haltered.out]; rfl⟩
    obtain rfl : e' = e := hsame
    rcases hgets.found with hfound | ⟨-, rfl⟩
    · cases hlive.symm.trans hfound
    · exact haltered.not_undisturbed hlive _ _ hdb
  · rintro hnot ⟨b, hb⟩
    have hfails : fails = true := by
      rw [← hv, ← Bool.not_eq_false]
      intro hnoerror
      rw [← haltered.out] at hb
      exact Reply.encode_ne_error hnoerror b (append_cancel_left hb)
    rw [if_pos hfails] at hsame
    subst hsame
    rcases hgets.found with hfound | ⟨hlive, -⟩
    · exact haltered.undisturbed hfound _ _
    · exact absurd ⟨hlive, hfails⟩ hnot

/-- Whether the call fails after it has created the key: the increment, or its sum with zero, is no
finite number. `HINCRBYFLOAT` and `ZINCRBY` look at the increment before. -/
def failsOnNew (env : Env) (c : Cmd) (argv : Args) : Bool :=
  match c with
  | .incrbyfloat => sumFails env.floats (some env.floats.zeroLong)
      (parseLongDoubleStrict env.floats (argv.getD 2 []))
  | .hincrbyfloat => (parseLongDoubleStrict env.floats (argv.getD 3 [])).any fun delta =>
      sumFails env.floats (some env.floats.zeroLong) (some delta)
  | .zincrby => (parseScore env (argv.getD 2 [])).any fun delta =>
      incrOverflows env ∅ (argv.getD 3 []) delta
  | _ => false

/-- What a call comes to. It does not get to a value, and changes nothing; or it increments the
value that it gets or creates. It fails with a new value if `onNew`. -/
def Attempts (env : Env) (key : Bytes) (onNew : Bool) (w w' : World) : Prop :=
  (w'.db = w.db ∧ ¬(live env key w = none ∧ onNew = true)) ∨
    ∃ (T : Type) (k : Kind T) (empty u : T) (e : Entry) (fails : Bool),
      Gets env k empty key e u w ∧ Increments w key e fails w' ∧
        (live env key w = none → fails = onNew)

/-- An attempt that ends in an error leaves the data alone unless it failed on a new key. -/
theorem Attempts.undisturbed_iff (h : Attempts env key onNew w w') :
    ((∃ b, w'.out = w.out ++ 45 :: b) → Undisturbed env w.tick w'.tick w.db w'.db) ↔
      ¬(live env key w = none ∧ onNew = true) := by
  rcases h with ⟨hdb, hnot⟩ | ⟨T, k, empty, u, e, fails, hgets, hincr, hnew⟩
  · rw [hdb]
    exact iff_of_true (fun _ => .refl env _ _ w.db) hnot
  · rw [hincr.undisturbed_iff hgets]
    exact not_congr (and_congr_right fun hlive => by rw [hnew hlive])

/-- A call that does not fail with a new value leaves no empty value. -/
theorem Attempts.full (h : Attempts env key onNew w w') (hw : Full w)
    (hnew : live env key w = none → onNew = false) : Full w' := by
  rcases h with ⟨hdb, -⟩ | ⟨_, _, _, _, e, fails, hgets, ⟨_, w₁, e', haltered, rfl, -, he'⟩, hon⟩
  · show AllValues Filled w'.db
    rw [hdb]
    exact hw
  · refine show Full w₁ from full_of_altered haltered hw ?_
    cases fails with
    | false => exact he'
    | true =>
      obtain rfl : e' = e := he'
      rcases hgets.found with hlive | ⟨hlive, -⟩
      · exact hw _ _ _ (lookup_of_live hlive).1
      · cases (hon hlive).trans (hnew hlive)

/-- A handler that gets or creates its value, and then ends with `fails u` for the value `u`. -/
theorem attempts_of_body {empty : T} {body : Handle → M Unit} (fails : T → Bool)
    (hbody : ∀ u t w₁, Altered w key ⟨k.put u, t⟩ w₁ →
      body (some key) w₁ = .ok ((), w') → Increments w key ⟨k.put u, t⟩ (fails u) w') (hrun : (do
      let p ← findOrCreate env k empty key
      match p with
      | none => errWrongType
      | some _ => body p : M Unit) w = .ok ((), w')) : Attempts env key (fails empty) w w' := by
  rw [bind_apply] at hrun
  rcases wrongType_or_gets env k empty key w with hwrong | ⟨e, u, hgets⟩
  · rw [hwrong.findOrCreate_eq, ok_bind] at hrun
    cases hrun
    obtain ⟨e, hlive, -⟩ := hwrong
    refine .inl ⟨rfl, fun h => ?_⟩
    cases h.1.symm.trans hlive
  · obtain ⟨w₁, hw₁, haltered, -⟩ := hgets.findOrCreate_eq
    rw [hw₁, ok_bind] at hrun
    have hentry : e = ⟨k.put u, e.expiresAtMs⟩ := by
      rw [k.put_of_get _ _ hgets.value]
    rw [hentry] at haltered
    have hends := hbody u e.expiresAtMs w₁ haltered hrun
    rw [← hentry] at hends
    exact .inr ⟨T, k, empty, u, e, fails u, hgets, hends, fun hlive => by
      rw [hgets.eq_empty hlive]⟩

/-- `INCRBYFLOAT` is an attempt to increment a string. -/
theorem incrbyfloat_attempts (hkey : argv[1]? = some key) (ha : argv[2]? = some a)
    (hrun : incrbyfloat env argv w = .ok ((), w')) :
    Attempts env key (failsOnNew env .incrbyfloat argv) w w' := by
  unfold incrbyfloat cmdIncrBy at hrun
  rw [arg_bind_some hkey] at hrun
  have hfails : failsOnNew env .incrbyfloat argv = sumFails env.floats
      (if ([] : Bytes) = [] then some env.floats.zeroLong else parseLongDoubleStrict env.floats [])
      (parseLongDoubleStrict env.floats a) := by
    rw [if_pos rfl, failsOnNew, getD_eq_getElem?_getD, ha]
    rfl
  rw [hfails]
  refine attempts_of_body (k := stringKind) (fun s => sumFails env.floats
    (if s = [] then some env.floats.zeroLong else parseLongDoubleStrict env.floats s)
    (parseLongDoubleStrict env.floats a)) (fun s t w₁ h hbody => ?_) hrun
  rw [(h.stores (k := stringKind) rfl).deref_bind] at hbody
  exact incrByFloat_increments h ha hbody

/-- An error that is replied before the lookup. -/
theorem attempts_of_replyError (hrun : replyError s w = .ok ((), w')) :
    Attempts env key false w w' := by
  cases hrun
  exact .inl ⟨rfl, fun h => nomatch h.2⟩

/-- `HINCRBYFLOAT` is an attempt to increment a field. -/
theorem hincrbyfloat_attempts (hkey : argv[1]? = some key) (hfield : argv[2]? = some field)
    (ha : argv[3]? = some a) (hrun : hincrbyfloat env argv w = .ok ((), w')) :
    Attempts env key (failsOnNew env .hincrbyfloat argv) w w' := by
  have hfails : failsOnNew env .hincrbyfloat argv = (parseLongDoubleStrict env.floats a).any
      fun delta => sumFails env.floats (some env.floats.zeroLong) (some delta) := by
    rw [failsOnNew, getD_eq_getElem?_getD, ha]
    rfl
  unfold hincrbyfloat at hrun
  rw [arg_bind_some ha] at hrun
  rw [hfails]
  cases hdelta : parseLongDoubleStrict env.floats a with
  | none =>
    rw [hdelta] at hrun
    exact attempts_of_replyError hrun
  | some delta =>
    rw [hdelta] at hrun
    dsimp only at hrun
    rw [arg_bind_some hkey] at hrun
    exact attempts_of_body (k := hashKind)
      (fun m => sumFails env.floats (fieldNumber env.floats m field) (some delta))
      (fun m t w₁ h hbody => hincrbyfloatBody_increments h hfield hbody) hrun

/-- `ZINCRBY` is an attempt to increment a score. -/
theorem zincrby_attempts (hkey : argv[1]? = some key) (ha : argv[2]? = some a)
    (hmember : argv[3]? = some member) (hrun : zincrby env argv w = .ok ((), w')) :
    Attempts env key (failsOnNew env .zincrby argv) w w' := by
  have hfails : failsOnNew env .zincrby argv = (parseScore env a).any
      fun delta => incrOverflows env ∅ member delta := by
    rw [failsOnNew, getD_eq_getElem?_getD, getD_eq_getElem?_getD, ha, hmember]
    rfl
  unfold zincrby at hrun
  rw [arg_bind_some ha] at hrun
  rw [hfails]
  cases hdelta : parseScore env a with
  | none =>
    rw [hdelta] at hrun
    exact attempts_of_replyError hrun
  | some delta =>
    rw [hdelta] at hrun
    dsimp only at hrun
    rw [arg_bind_some hkey, zsetCreate] at hrun
    have hnew : (some delta).any (incrOverflows env ∅ member) =
        incrOverflows env (ZSetValue.mk SkipList.empty ∅).dict member delta := rfl
    rw [hnew]
    refine attempts_of_body (k := zsetKind)
      (fun z => incrOverflows env z.dict member delta) (fun z t w₁ h hbody => ?_) hrun
    rw [(h.stores (k := zsetKind) rfl).deref_bind, arg_bind_some hmember] at hbody
    exact incrScore_increments h hbody

/-- An error of `INCRBYFLOAT`, `HINCRBYFLOAT`, or `ZINCRBY` leaves the database undisturbed if and
only if the call does not reach a key that is missing, or does not fail there. -/
theorem floatIncrement_undisturbed_iff {c : Cmd} {depth : ℕ}
    (hc : c = .incrbyfloat ∨ c = .hincrbyfloat ∨ c = .zincrby) (hcmd : commandOf argv = some c)
    (hrun : dispatch env (depth + 1) argv tx w = .ok (((), tx'), w')) :
    ((∃ b, w'.out = w.out ++ 45 :: b) → Undisturbed env w.tick w'.tick w.db w'.db) ↔
      ¬(reaches env c argv tx w = true ∧
        (∃ key, argv[1]? = some key ∧ live env key w = none) ∧ failsOnNew env c argv = true) := by
  have hcontrol : isControl c = false := by rcases hc with rfl | rfl | rfl <;> rfl
  cases hreaches : reaches env c argv tx w with
  | false =>
    rw [db_of_not_reaches hcmd hcontrol hreaches hrun]
    exact iff_of_true (fun _ => .refl env _ _ w.db) fun h => nomatch h.1
  | true =>
    have hlen := minArgs_le_of_accepts (accepts_of_reaches hreaches)
    have hhandler := (enters_of_reaches hreaches hcontrol).handler_ok hrun
    obtain ⟨key, hkey⟩ : ∃ key, argv[1]? = some key := by
      have hone : 1 < argv.length := by
        rcases hc with rfl | rfl | rfl <;> exact le_trans (by decide) hlen
      exact ⟨_, getElem?_eq_getElem hone⟩
    have hlive : (∃ key, argv[1]? = some key ∧ live env key w = none) ↔ live env key w = none := by
      simp only [hkey, Option.some.injEq, exists_eq_left']
    rw [hlive, and_iff_right rfl]
    rcases hc with rfl | rfl | rfl
    · have htwo : 2 < argv.length := hlen
      exact (incrbyfloat_attempts hkey (getElem?_eq_getElem htwo) hhandler).undisturbed_iff
    · have hthree : 3 < argv.length := hlen
      have htwo := Nat.lt_of_succ_lt hthree
      exact (hincrbyfloat_attempts hkey (getElem?_eq_getElem htwo)
        (getElem?_eq_getElem hthree) hhandler).undisturbed_iff
    · have hthree : 3 < argv.length := hlen
      have htwo := Nat.lt_of_succ_lt hthree
      exact (zincrby_attempts hkey (getElem?_eq_getElem htwo)
        (getElem?_eq_getElem hthree) hhandler).undisturbed_iff

/-- An environment in which `strtold` reads no text. -/
def wordsEnv : Env :=
  { stillEnv with floats := { stillFloats with strtold := fun _ => (stillFloats.zeroLong, 0) } }

/-- `INCRBYFLOAT k x`, where the key holds a string. -/
theorem floatIncrement_undisturbed_iff_string : ∃ w' b,
    dispatch wordsEnv 2 [bytes "INCRBYFLOAT", bytes "k", bytes "x"] .idle
      (worldWith (.rawString (bytes "1"))) = .ok (((), .idle), w') ∧
    w'.out = (worldWith (.rawString (bytes "1"))).out ++ 45 :: b ∧
    Undisturbed wordsEnv (worldWith (.rawString (bytes "1"))).tick w'.tick
      (worldWith (.rawString (bytes "1"))).db w'.db := by
  obtain ⟨w', b, hrun, hb⟩ : ∃ w' b,
      dispatch wordsEnv 2 [bytes "INCRBYFLOAT", bytes "k", bytes "x"] .idle
        (worldWith (.rawString (bytes "1"))) = .ok (((), .idle), w') ∧
      w'.out = (worldWith (.rawString (bytes "1"))).out ++ 45 :: b := ⟨_, _, rfl, rfl⟩
  refine ⟨w', b, hrun, hb,
    (floatIncrement_undisturbed_iff (.inl rfl) (by decide +kernel) hrun).2 ?_ ⟨b, hb⟩⟩
  rintro ⟨-, ⟨key, hkey, hlive⟩, -⟩
  cases hkey
  cases hlive.symm.trans (finds_worldWith wordsEnv stringKind (bytes "1")).live

/-- `INCRBYFLOAT k x` on a new server is an error, and the key has been created, with an empty
string. -/
theorem incrbyfloat_creates : ∃ w' b,
    dispatch wordsEnv 2 [bytes "INCRBYFLOAT", bytes "k", bytes "x"] .idle (freshServer.world 0) =
      .ok (((), .idle), w') ∧
    w'.out = (freshServer.world 0).out ++ 45 :: b ∧ Absent (bytes "k") (freshServer.world 0) ∧
    Stores stringKind (bytes "k") ⟨.rawString [], 0⟩ [] w' :=
  ⟨_, _, rfl, rfl, rfl, rfl, rfl⟩

end TinyRedis.Commands

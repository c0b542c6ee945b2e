import TinyRedis.Commands.DualIndex
import TinyRedis.Commands.OneEntry

/-!
# The sizes of stored strings

`SETRANGE` refuses to make a string longer than 512 MiB, and the parser takes no longer argument.
`APPEND` adds an argument to the stored string without a look at the sum, so two of them are enough
to go over the limit. `Server.run_strings_small` says that nothing else does.
-/

namespace TinyRedis.Commands

open Lib List

variable {env : Env} {argv : Args} {key : Bytes} {w : World} {e : Entry} {s : Server}

/-- The limit of `SETRANGE`. -/
def maxString : ℕ := 512 * 1024 * 1024

/-- A string has at most the size that `SETRANGE` allows. -/
def SmallString : Value → Prop
  | .rawString s => s.length ≤ maxString
  | _ => True

/-- All arguments have at most this size. -/
def smallArgs (argv : Args) : Bool := argv.all fun s => decide (s.length ≤ maxString)

/-- The string that is found at a key, or an empty one. -/
def stringAt (env : Env) (key : Bytes) (w : World) : Bytes :=
  ((live env key w).bind fun e => stringKind.get e.value).getD []

/-- A handler that is not `APPEND`, or with which the string does not become too long. -/
def fits (env : Env) (x : Ran) : Bool :=
  decide (x.cmd = .append →
    (stringAt env (x.argv.getD 1 []) x.world).length + (x.argv.getD 2 []).length ≤ maxString)

/-! ## Strings -/

/-- The string grows to the end of what is written, if at all. -/
theorem length_overwrite (s v : Bytes) (offset : ℕ) :
    (overwrite s offset v).length = max s.length (offset + v.length) := by
  unfold overwrite
  dsimp only
  split_ifs with h
  · simp only [length_append, length_take, length_drop, length_replicate]
    omega
  · simp only [length_append, length_take, length_drop]
    omega

/-- Arguments below the limit make strings below the limit. -/
theorem strings_small (h : smallArgs argv = true) : Strings SmallString argv where
  argument s hs := by
    have hsmall : s.length ≤ maxString := of_decide_eq_true (all_eq_true.1 h s hs)
    exact hsmall
  number s hs := hs.le.trans (by decide)
  overwrite s v offset _ hs hv := by
    show (overwrite s offset v).length ≤ maxString
    rw [length_overwrite]
    exact max_le hs hv

/-- That all strings are below the limit is an invariant of the commands. -/
theorem invariant_small : Invariant SmallString (AllValues SmallString) fun _ => True :=
  invariant_allValues (Nat.zero_le _) (fun _ => trivial) (fun _ => trivial) (fun _ => trivial)
    trivial fun _ _ => trivial

/-! ## Handlers -/

/-- The string a key gets is the one at the key. -/
theorem Gets.stringAt {s : Bytes} (h : Gets env stringKind [] key e s w) :
    stringAt env key w = s := by
  unfold Commands.stringAt
  rcases h.found with hlive | ⟨hlive, -⟩
  · rw [hlive, Option.bind_some, h.value]
    rfl
  · rw [hlive, h.eq_empty hlive]
    rfl

/-- A change to one entry. -/
theorem Altered.allValues {P : Value → Prop} {w' : World} (h : Altered w key e w')
    (hw : AllValues P w.db) (he : P e.value) : AllValues P w'.db := by
  intro i key' e' he'
  by_cases hkey : i = w.cs.dbIndex ∧ key' = key
  · rw [hkey.1, hkey.2, h.entry] at he'
    cases he'
    exact he
  · rw [h.others i key' hkey] at he'
    exact hw i key' e' he'

/-- `APPEND`, where the sum of the sizes is within the limit. -/
theorem append_small {p : Unit × World} (hargc : 3 ≤ argv.length) (hw : AllValues SmallString w.db)
    (hfits : (stringAt env (argv.getD 1 []) w).length + (argv.getD 2 []).length ≤ maxString)
    (hp : append env argv w = .ok p) : AllValues SmallString p.2.db := by
  unfold append getOrCreateString at hp
  rw [arg_bind (by omega), bind_apply] at hp
  rcases wrongType_or_gets env stringKind [] (argv.getD 1 []) w with hwrong | ⟨e, s, hgets⟩
  · rw [hwrong.findOrCreate_eq, ok_bind] at hp
    cases hp
    exact hw
  · obtain ⟨w', hopen, haltered, -⟩ := hgets.findOrCreate_eq
    have hstores := haltered.stores hgets.value
    rw [hopen, ok_bind] at hp
    dsimp only at hp
    rw [hstores.deref_bind, arg_bind hargc, hstores.store_bind] at hp
    cases hp
    -- What is stored is within the limit.
    refine (haltered.assign _).allValues hw ?_
    show (s ++ argv.getD 2 []).length ≤ maxString
    rw [length_append, ← hgets.stringAt]
    exact hfits

/-- What the handlers keep, with arguments that are small. -/
theorem kept_small (env : Env) :
    Server.Kept env (fun x => smallArgs x.argv && fits env x) (AllValues SmallString) where
  handler x p hargc hK hx hp := by
    rw [Bool.and_eq_true] at hK
    obtain ⟨hargs, hfits⟩ := hK
    by_cases hc : x.cmd = .append
    · obtain ⟨c, argv, w⟩ := x
      cases hc
      exact append_small hargc hx (of_decide_eq_true hfits rfl) hp
    · have hrun : RunsIf (fun _ => True) (AllValues SmallString) (fun _ => True)
          (handler env (toLower (x.argv.headD [])) x.argv x.cmd) :=
        invariant_small.runsIf_handler (A := fun _ => True) (strings_small hargs)
          (fun h => absurd h hc) hargc (fun _ _ _ => assigns_allValues SmallString)
          (fun _ _ => trivial) (fun _ _ _ _ => trivial) (zsetClosed_of_all fun _ => trivial)
      exact hrun.of_ok ⟨hx, trivial⟩ hp
  expire i rng keys now n db h _ :=
    allValues_of_within h (Database.within_expireTable i rng keys now (n, db))

/-- In every run with arguments of at most 512 MiB, in which no `APPEND` makes a string longer than
that, every stored string is within the limit in every state that is reached, and its length fits
the field that `PutBytes` writes. -/
theorem Server.run_strings_small {events : List Event} {s₀ s : Server} (hinit : s₀.Initial)
    (hargs : ∀ i argv, .call i argv ∈ events → ∀ a ∈ argv, a.length ≤ 512 * 1024 * 1024)
    (hfits : s₀.runMeets env (fits env) events = true) (hrun : s₀.run env events = .ok s)
    {i : DbIndex} {key : Bytes} {str : Bytes} {t : Int64}
    (hstr : (s.db.table i).lookup key = some ⟨.rawString str, t⟩) :
    str.length ≤ 512 * 1024 * 1024 ∧ str.length < 2^32 := by
  have hempty : AllValues SmallString s₀.db := by
    rw [hinit.db]
    exact fun _ _ _ h => by cases h
  have hsent : ∀ i argv, .call i argv ∈ events → smallArgs argv = true := by
    intro i argv he
    refine all_eq_true.2 fun a ha => decide_eq_true ?_
    exact hargs i argv he a ha
  have hmeets := Server.runMeets_of_sent hinit.wellFormed hinit.queued events hsent hfits
  have hall := Server.run_keeps (kept_small env) events hempty hmeets hrun
  have hsmall : str.length ≤ 512 * 1024 * 1024 := hall i key _ hstr
  exact ⟨hsmall, hsmall.trans_lt (by decide)⟩

/-- A string is set, and two others are appended to it. -/
def appends : List Event :=
  [.call 0 [bytes "SET", bytes "k", bytes "v"], .call 1 [bytes "APPEND", bytes "k", bytes "vv"],
    .expire, .call 0 [bytes "APPEND", bytes "k", bytes "w"]]

/-- A run of two APPENDs ends with a string below the limit. -/
theorem Server.run_strings_small_appends :
    ∃ s str t, freshServer.run stillEnv appends = .ok s ∧
      (s.db.table ⟨0, by decide⟩).lookup (bytes "k") = some ⟨.rawString str, t⟩ ∧
      str.length ≤ 512 * 1024 * 1024 ∧ str.length < 2^32 := by
  obtain ⟨s, hrun, hs⟩ := exists_ok_of_any
    (p := fun s : Server => (((s.db.table ⟨0, by decide⟩).lookup (bytes "k")).bind
      fun e => stringKind.get e.value).isSome)
    (x := freshServer.run stillEnv appends) (by decide +kernel)
  obtain ⟨str, hstr⟩ := Option.isSome_iff_exists.1 hs
  obtain ⟨e, he, hget⟩ := Option.bind_eq_some_iff.1 hstr
  have hentry : e = ⟨.rawString str, e.expiresAtMs⟩ := by
    have hvalue : .rawString str = e.value := stringKind.put_of_get _ _ hget
    rw [hvalue]
  rw [hentry] at he
  have hargs : ∀ i argv, .call i argv ∈ appends → ∀ a ∈ argv, a.length ≤ 512 * 1024 * 1024 := by
    intro i argv he
    simp only [appends, mem_cons, Event.call.injEq, not_mem_nil, reduceCtorEq, or_false,
      false_or] at he
    rcases he with ⟨-, rfl⟩ | ⟨-, rfl⟩ | ⟨-, rfl⟩
    · decide
    · decide
    · decide
  exact ⟨s, str, _, hrun, he,
    Server.run_strings_small freshServer_initial hargs (by decide +kernel) hrun he⟩

/-! ## Over the limit -/

/-- A command outside transactions runs its handler. -/
theorem Server.call_eq_handler {i : ℕ} {c : Cmd}
    (h : Enters env c argv (s.clients i).tx (s.world i)) :
    s.call env i argv = (handler env (lowerName argv) argv c (s.world i) >>= fun p =>
      .ok (s.update i (s.clients i).tx p.2)) := by
  unfold call
  rw [h.dispatch_eq 1]
  cases handler env (lowerName argv) argv c (s.world i) <;> rfl

/-- `SET` in a fresh server, whatever the string is. -/
theorem call_set (x : Bytes) :
    ∃ s, freshServer.call stillEnv 0 [bytes "SET", bytes "k", x] = .ok s ∧
      s.db = Database.empty.set ⟨0, by decide⟩ (bytes "k") (.rawString x) 0 ∧
      (s.clients 0).tx = .idle ∧ (s.clients 0).session = (freshServer.clients 0).session := by
  have haccepts : accepts .set [bytes "SET", bytes "k", x] = true := by
    rw [accepts_congr _ [bytes "SET", bytes "k", x] [bytes "SET", [], []] rfl rfl]
    decide +kernel
  rw [Server.call_eq_handler (.mk haccepts rfl rfl rfl)]
  exact ⟨_, rfl, rfl, rfl, rfl⟩

/-- `APPEND` to the string that was set. -/
theorem call_append {x : Bytes}
    (hdb : s.db = Database.empty.set ⟨0, by decide⟩ (bytes "k") (.rawString x) 0)
    (htx : (s.clients 0).tx = .idle)
    (hsession : (s.clients 0).session = (freshServer.clients 0).session) :
    ∃ s', s.call stillEnv 0 [bytes "APPEND", bytes "k", bytes "a"] = .ok s' ∧
      (s'.db.table ⟨0, by decide⟩).lookup (bytes "k") =
        some ⟨.rawString (x ++ bytes "a"), 0⟩ := by
  rw [Server.call_eq_handler (.mk (c := .append) (by decide +kernel) (by rw [htx]; rfl) rfl rfl)]
  unfold Server.world
  rw [hdb, hsession]
  exact ⟨_, rfl, rfl⟩

/-- A string of 512 MiB. -/
def longString : Bytes := List.replicate (512 * 1024 * 1024) 97

/-- It is set, and a byte is appended. -/
def exceeding : List Event :=
  [.call 0 [bytes "SET", bytes "k", longString], .call 0 [bytes "APPEND", bytes "k", bytes "a"]]

/-- The string is then longer than `SETRANGE` allows. -/
theorem append_exceeds : freshServer.Initial ∧
    (∀ i argv, .call i argv ∈ exceeding → ∀ a ∈ argv, a.length ≤ 512 * 1024 * 1024) ∧
    ∃ s str, freshServer.run stillEnv exceeding = .ok s ∧
      (s.db.table ⟨0, by decide⟩).lookup (bytes "k") = some ⟨.rawString str, 0⟩ ∧
      512 * 1024 * 1024 < str.length := by
  have hlength : longString.length = 512 * 1024 * 1024 := length_replicate
  obtain ⟨s, hset, hdb, htx, hsession⟩ := call_set longString
  obtain ⟨s', happend, hstr⟩ := call_append hdb htx hsession
  refine ⟨freshServer_initial, fun i argv he a ha => ?_, s', _, ?_, hstr, ?_⟩
  · have hshort : ∀ b ∈ [bytes "SET", bytes "APPEND", bytes "k", bytes "a"],
        b.length ≤ 512 * 1024 * 1024 := by decide
    simp only [exceeding, mem_cons, Event.call.injEq, not_mem_nil, or_false] at he
    rcases he with ⟨-, rfl⟩ | ⟨-, rfl⟩
    · simp only [mem_cons, not_mem_nil, or_false] at ha
      rcases ha with rfl | rfl | rfl
      · exact hshort _ (by simp)
      · exact hshort _ (by simp)
      · exact hlength.le
    · simp only [mem_cons, not_mem_nil, or_false] at ha
      rcases ha with rfl | rfl | rfl
      · exact hshort _ (by simp)
      · exact hshort _ (by simp)
      · exact hshort _ (by simp)
  · unfold exceeding Server.run Server.step
    dsimp only
    rw [hset, ok_bind]
    unfold Server.run Server.step
    dsimp only
    rw [happend, ok_bind]
    rfl
  · rw [length_append, hlength]
    decide

end TinyRedis.Commands

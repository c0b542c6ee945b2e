import TinyRedis.Commands.Deadlines
import TinyRedis.Commands.StringSizes

/-!
# Writing into a string

`SETRANGE` writes its argument over the bytes of a string from an offset on, after zeros if the
string is too short. It should refuse to go beyond 512 MiB. The sum that it compares with the limit
is a sum of signed integers, and can overflow. And a string that is already longer, which `APPEND`
can make, is not made any shorter.
-/

namespace TinyRedis.Commands

open Lib Resp List

variable {env : Env} {argv : Args} {w : World} {s : Bytes} {e : Entry} {offset : ℤ}

/-- The string `s'` is `s` with `v` written at the offset, within the limit. -/
structure Written (s : Bytes) (offset : ℕ) (v s' : Bytes) : Prop where
  length : s'.length = max s.length (offset + v.length)
  limit : s'.length ≤ 512 * 1024 * 1024
  written : ∀ i < v.length, s'[offset + i]? = v[i]?
  kept : ∀ i < s.length, i < offset ∨ offset + v.length ≤ i → s'[i]? = s[i]?
  zeros : ∀ i < s'.length, s.length ≤ i → i < offset ∨ offset + v.length ≤ i → s'[i]? = some 0

/-- The bytes of the string that is written, in terms of the string with zeros behind it. -/
theorem getElem?_overwrite (s v : Bytes) (offset i : ℕ) : (overwrite s offset v)[i]? =
    if i < offset ∨ offset + v.length ≤ i then
      (s ++ List.replicate (offset + v.length - s.length) 0)[i]?
    else v[i - offset]? := by
  have hpad : (if s.length < offset + v.length then
      s ++ List.replicate (offset + v.length - s.length) 0 else s) =
        s ++ List.replicate (offset + v.length - s.length) 0 := by
    split_ifs with h
    · rfl
    · rw [Nat.sub_eq_zero_of_le (by omega), replicate_zero, append_nil]
  have hlength :
      offset ≤ (s ++ List.replicate (offset + v.length - s.length) (0 : UInt8)).length := by
    rw [length_append, length_replicate]
    omega
  unfold overwrite
  dsimp only
  rw [hpad, append_assoc, getElem?_append, length_take, min_eq_left hlength]
  by_cases hbefore : i < offset
  · rw [if_pos hbefore, if_pos (.inl hbefore), getElem?_take, if_pos hbefore]
  · rw [if_neg hbefore, getElem?_append]
    by_cases hafter : offset + v.length ≤ i
    · rw [if_neg (by omega), if_pos (.inr hafter), getElem?_drop]
      congr 1
      omega
    · rw [if_pos (by omega), if_neg (by omega)]

/-- `overwrite` writes the value at its offset. -/
theorem written_overwrite (s v : Bytes) {offset : ℕ}
    (hlimit : max s.length (offset + v.length) ≤ 512 * 1024 * 1024) :
    Written s offset v (overwrite s offset v) := by
  have hlength := length_overwrite s v offset
  refine ⟨hlength, hlength ▸ hlimit, fun i hi => ?_, fun i hi hout => ?_, fun i hi hnew hout => ?_⟩
  · rw [getElem?_overwrite, if_neg (by omega), Nat.add_sub_cancel_left]
  · rw [getElem?_overwrite, if_pos hout, getElem?_append_left hi]
  · rw [getElem?_overwrite, if_pos hout, getElem?_append_right hnew,
      getElem?_replicate_of_lt (by omega)]

/-! ## The handler -/

section Handler

variable (hargs : 3 < argv.length) (hoffset : parseIntStrict (argv.getD 2 []) = some offset)
  (hnonneg : 0 ≤ offset)
include hargs hoffset hnonneg

/-- The sum overflows. -/
theorem setrange_overflows (hsum : isInt64 (offset + (argv.getD 3 []).length) = false) :
    setrange env argv w = .error .signedOverflow := by
  unfold setrange
  rw [arg_bind (by omega), hoffset]
  dsimp only
  rw [if_neg (by omega), arg_bind hargs, checked_bind, hsum]
  rfl

/-- The string would be too long. -/
theorem setrange_refuses (hsum : isInt64 (offset + (argv.getD 3 []).length) = true)
    (hlong : 512 * 1024 * 1024 < offset + (argv.getD 3 []).length) :
    ∃ msg, setrange env argv w = .ok ((), replied (.error msg) w) := by
  unfold setrange
  rw [arg_bind (by omega), hoffset]
  dsimp only
  rw [if_neg (by omega), arg_bind hargs, checked_bind, hsum, if_pos rfl, if_pos hlong]
  exact ⟨_, replyError_eq _ _⟩

/-- The string is written. -/
theorem setrange_writes (hgets : Gets env stringKind [] (argv.getD 1 []) e s w)
    (hshort : offset + (argv.getD 3 []).length ≤ 512 * 1024 * 1024) :
    ∃ w', setrange env argv w = .ok ((), replied
        (.int (overwrite s offset.toNat (argv.getD 3 [])).length) w') ∧
      Altered w (argv.getD 1 [])
        { e with value := .rawString (overwrite s offset.toNat (argv.getD 3 [])) } w' := by
  obtain ⟨w₁, hopen, haltered, -⟩ := hgets.findOrCreate_eq
  have hstores := haltered.stores hgets.value
  refine ⟨_, ?_, haltered.assign _⟩
  unfold setrange getOrCreateString
  rw [arg_bind (by omega), hoffset]
  dsimp only
  rw [if_neg (by omega), arg_bind hargs, checked_bind,
    show isInt64 (offset + (argv.getD 3 []).length) = true from decide_eq_true (by omega),
    if_pos rfl, if_neg (by omega), arg_bind (by omega), bind_apply, hopen, ok_bind]
  dsimp only
  rw [hstores.deref_bind, hstores.store_bind]
  exact replyInt_eq _ _

end Handler

/-! ## Calls -/

/-- The call replies an error and changes nothing, or writes the string as it should. -/
def WritesRange (env : Env) (depth : ℕ) (argv : Args) (tx : Tx) (key s : Bytes) (offset : ℤ)
    (v : Bytes) (w : World) : Prop :=
  (∃ msg w', Answers env depth argv tx w (.error msg) w' ∧ w'.db = w.db) ∨
    ∃ s' t w', Answers env depth argv tx w (.int s'.length) w' ∧
      (w'.db.table w.cs.dbIndex).lookup key = some ⟨.rawString s', t⟩ ∧
      Written s offset.toNat v s'

/-- A call of `SETRANGE`, with an offset that is not negative, on a string or a missing key, is
right exactly when it is refused for want of memory, or when the sum of the offset and the length
does not overflow and, unless it is beyond the limit, the string is not beyond it either. -/
theorem setrange_writes_iff (env : Env) (tx : Tx) (htx : tx.inMulti = false) (depth : ℕ) (w : World)
    (argv : Args) (haccepts : accepts .setrange argv = true) (e : Entry) (s : Bytes)
    (hgets : Gets env stringKind [] (argv.getD 1 []) e s w) (offset : ℤ)
    (hoffset : parseIntStrict (argv.getD 2 []) = some offset) (hnonneg : 0 ≤ offset) :
    WritesRange env depth argv tx (argv.getD 1 []) s offset (argv.getD 3 []) w ↔
      gated env .setrange w = true ∨ (offset + (argv.getD 3 []).length < 2^63 ∧
        (offset + (argv.getD 3 []).length ≤ 512 * 1024 * 1024 → s.length ≤ 512 * 1024 * 1024)) := by
  have hargs : 3 < argv.length := minArgs_le_of_accepts haccepts
  cases hgate : gated env .setrange w with
  | true =>
    have hrun : dispatch env (depth + 1) argv tx w = _ :=
      dispatch_of_gated haccepts rfl htx hgate depth
    unfold errOom at hrun
    rw [replyError_eq] at hrun
    exact iff_of_true (.inl ⟨_, _, ⟨hrun, rfl⟩, rfl⟩) (.inl rfl)
  | false =>
    rw [or_iff_right Bool.false_ne_true]
    have henters : Enters env .setrange argv tx w := .mk haccepts htx hgate rfl
    have hanswers : ∀ {v w'}, setrange env argv w = .ok ((), replied v w') → w'.out = w.out →
        Answers env depth argv tx w v (replied v w') := fun hrun hout =>
      henters.answers depth hrun (congrArg (· ++ _) hout)
    cases hsum : isInt64 (offset + (argv.getD 3 []).length) with
    | false =>
      have hfault : handler env (lowerName argv) argv .setrange w = .error .signedOverflow :=
        setrange_overflows hargs hoffset hnonneg hsum
      have hnone : ∀ v w', ¬Answers env depth argv tx w v w' := by
        intro v w' h
        have hrun := h.run
        rw [henters.dispatch_eq, hfault] at hrun
        cases hrun
      refine iff_of_false ?_ fun h => of_decide_eq_false hsum (by omega)
      rintro (⟨msg, w', h, -⟩ | ⟨s', t, w', h, -⟩)
      · exact hnone _ _ h
      · exact hnone _ _ h
    | true =>
      have hrange := of_decide_eq_true hsum
      rw [and_iff_right hrange.2]
      by_cases hlong : 512 * 1024 * 1024 < offset + (argv.getD 3 []).length
      · obtain ⟨msg, hrun⟩ := setrange_refuses hargs hoffset hnonneg hsum hlong
        exact iff_of_true (.inl ⟨msg, _, hanswers hrun rfl, rfl⟩) fun h => by omega
      · obtain ⟨w', hrun, haltered⟩ := setrange_writes hargs hoffset hnonneg hgets (by omega)
        have hwrites := hanswers hrun haltered.out
        rw [forall_prop_of_true (by omega)]
        constructor
        · rintro (⟨msg, w₁, h, -⟩ | ⟨s', t, w₁, -, -, hwritten⟩)
          · exact absurd (h.unique hwrites).1 (encode_int_ne rfl _)
          · have hlength := hwritten.length
            have hlimit := hwritten.limit
            omega
        · exact fun hs => .inr ⟨_, _, _, hwrites, haltered.entry,
            written_overwrite s _ (max_le hs (by omega))⟩

/-- `SETRANGE k 2 a` on an empty string. -/
theorem setrange_writes_iff_two :
    WritesRange stillEnv 0 [bytes "SETRANGE", bytes "k", bytes "2", bytes "a"] .idle (bytes "k") []
      2 (bytes "a") (worldWith (.rawString [])) := by
  have hfinds := finds_worldWith stillEnv stringKind []
  exact (setrange_writes_iff stillEnv .idle rfl 0 _
    [bytes "SETRANGE", bytes "k", bytes "2", bytes "a"] (by decide +kernel) _ []
    ⟨hfinds.value, .inl hfinds.live⟩ 2 (by decide +kernel) (by decide)).2
      (.inr ⟨by decide, fun _ => by decide⟩)

/-- `SETRANGE k 9223372036854775807 a` on an empty string: the sum overflows. -/
theorem setrange_sum_overflows :
    parseIntStrict (bytes "9223372036854775807") = some 9223372036854775807 ∧
      ¬WritesRange stillEnv 0 [bytes "SETRANGE", bytes "k", bytes "9223372036854775807", bytes "a"]
        .idle (bytes "k") [] 9223372036854775807 (bytes "a") (worldWith (.rawString [])) := by
  have hfault : dispatch stillEnv 1
      [bytes "SETRANGE", bytes "k", bytes "9223372036854775807", bytes "a"] .idle
      (worldWith (.rawString [])) = .error .signedOverflow :=
    eq_error_of_errorOf (by decide +kernel)
  refine ⟨by decide +kernel, ?_⟩
  rintro (⟨msg, w', h, -⟩ | ⟨s', t, w', h, -⟩)
  · cases h.run.symm.trans hfault
  · cases h.run.symm.trans hfault

end TinyRedis.Commands

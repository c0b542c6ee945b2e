import TinyRedis.Commands.Safety.Dispatch

/-!
# Null pointers, and arguments past the end

Two faults are due to the handlers alone: `GetTyped` returns a null pointer for a missing key, and
the arity table lets through a command whose handler reads one argument more. Both are met exactly
in the cases that `usesNull` and `overrun` say.
-/

namespace TinyRedis.Commands

open Lib

variable {env : Env} {argv : Args} {w : World} {i : ℕ} {x : Ran} {f : CommandFault}
  {body : LookupResult → Handle → M Unit}

/-- The faults that a handler can meet, from what the lookup of its first key finds. -/
theorem fault_of_outcome (hargc : minArgs x.cmd ≤ x.argv.length) (hf : x.outcome env = .error f) :
    Benign f ∨ f = .nullHandle ∧ usesNull x.cmd = true ∧ x.probe env = .missing ∨
      ∃ i, f = .argvIndex i ∧ overrun x.argv x.cmd (x.probe env) = some i := by
  let E : CommandFault → Prop := fun f =>
    Benign f ∨ f = .nullHandle ∧ usesNull x.cmd = true ∧ x.probe env = .missing ∨
      ∃ i, f = .argvIndex i ∧ overrun x.argv x.cmd (x.probe env) = some i
  have h : Invariant (fun _ => True) (fun _ => True) E := invariant_true fun _ => .inl
  have hrun : RunsIf (fun w => probe env (keyType x.cmd) (x.argv.getD 1 []) w = x.probe env)
      (fun _ => True) E (handler env (toLower (x.argv.headD [])) x.argv x.cmd) := by
    refine h.runsIf_handler (A := (· = x.probe env)) (strings_of_all fun _ => trivial)
      (fun _ _ _ => trivial) hargc (fun _ _ _ _ _ _ _ _ _ _ _ => trivial) (fun hnull hr => ?_)
      (fun r i hr hi => ?_) zsetClosed_true
    · exact .inr (.inl ⟨rfl, hnull, hr.symm⟩)
    · exact .inr (.inr ⟨i, rfl, by rw [← hr]; exact hi⟩)
  exact hrun.of_error ⟨trivial, rfl⟩ hf

/-! ## Null pointers -/

/-- A loop that meets a fault in its first step. -/
theorem forArgs_error {α : Type} {stride : ℕ} {body : ℕ → α → M α} {a : α} (hi : i < argv.length)
    (hf : body i a w = .error f) : forArgs argv stride body i a w = .error f := by
  obtain ⟨n, hn⟩ : ∃ n, argv.length = n + 1 := ⟨argv.length - 1, by omega⟩
  unfold forArgs
  rw [hn, argLoop, if_pos hi]
  show ((body i a w >>= _) >>= _) >>= _ = _
  rw [hf]
  rfl

section

variable (st : LookupResult) (hargc : 3 ≤ argv.length)
include hargc

/-- `HGET` does not check its handle for null. -/
theorem hgetBody_null : hgetBody argv st none w = .error .nullHandle := by
  unfold hgetBody
  rw [arg_eq hargc]
  rfl

/-- `HMGET` does not check its handle for null. -/
theorem hmgetBody_null : hmgetBody argv st none w = .error .nullHandle := by
  unfold hmgetBody
  show forArgs argv 1 (hmgetOne argv st none) 2 () _ = _
  refine forArgs_error hargc ?_
  unfold hmgetOne
  rw [arg_eq hargc]
  rfl

/-- `HDEL` does not check its handle for null. -/
theorem hdelBody_null : hdelBody argv st none w = .error .nullHandle := by
  unfold hdelBody
  show forArgs argv 1 (hdelOne argv none) 2 0 w >>= _ = _
  rw [forArgs_error (f := .nullHandle) hargc rfl]
  rfl

/-- `HSTRLEN` does not check its handle for null. -/
theorem hstrlenBody_null : hstrlenBody argv st none w = .error .nullHandle := by
  unfold hstrlenBody
  rw [arg_eq hargc]
  rfl

/-- `SREM` does not check its handle for null. -/
theorem sremBody_null : sremBody argv st none w = .error .nullHandle := by
  unfold sremBody
  show forArgs argv 1 (sremOne argv none) 2 0 w >>= _ = _
  rw [forArgs_error (f := .nullHandle) hargc rfl]
  rfl

/-- `ZSCORE` does not check its handle for null. -/
theorem zscoreBody_null : zscoreBody env argv st none w = .error .nullHandle := by
  unfold zscoreBody
  rw [arg_eq hargc]
  rfl

/-- `ZREM` does not check its handle for null. -/
theorem zremBody_null : zremBody argv st none w = .error .nullHandle := by
  have hone : zremOne argv st none 2 0 w = .error .nullHandle := by
    unfold zremOne
    rw [arg_eq hargc]
    rfl
  unfold zremBody
  show forArgs argv 1 (zremOne argv st none) 2 0 w >>= _ = _
  rw [forArgs_error hargc hone]
  rfl

end

/-- A command that starts with a typed lookup of its first key. -/
theorem arg_withTyped_missing {T : Type} {k : Kind T} (hargc : 3 ≤ argv.length)
    (h : probe env k.type (argv.getD 1 []) w = .missing)
    (hbody : ∀ w, body .missing none w = .error f) : (do
      let key ← arg argv 1
      withTyped env k key body) w = .error f := by
  rw [arg_bind (by omega), withTyped_eq, h]
  exact hbody _

/-- The commands of `usesNull` access a null pointer when their key is missing. -/
theorem outcome_of_usesNull (hargc : minArgs x.cmd ≤ x.argv.length) (hnull : usesNull x.cmd = true)
    (hp : x.probe env = .missing) : x.outcome env = .error .nullHandle := by
  obtain ⟨c, argv, w⟩ := x
  cases c with
  | hget => exact arg_withTyped_missing (k := hashKind) hargc hp fun _ => hgetBody_null _ hargc
  | hmget => exact arg_withTyped_missing (k := hashKind) hargc hp fun _ => hmgetBody_null _ hargc
  | hdel => exact arg_withTyped_missing (k := hashKind) hargc hp fun _ => hdelBody_null _ hargc
  | hstrlen =>
    exact arg_withTyped_missing (k := hashKind) hargc hp fun _ => hstrlenBody_null _ hargc
  | srem => exact arg_withTyped_missing (k := setKind) hargc hp fun _ => sremBody_null _ hargc
  | zscore => exact arg_withTyped_missing (k := zsetKind) hargc hp fun _ => zscoreBody_null _ hargc
  | zrem => exact arg_withTyped_missing (k := zsetKind) hargc hp fun _ => zremBody_null _ hargc
  | _ => cases hnull

/-- `Dispatch` uses no null pointer if and only if none of the handlers that it runs is one of the
seven that do not look at the result of `GetTyped`, with a missing key. -/
theorem dispatch_nullHandle_iff (depth : ℕ) (argv : Args) (tx : Tx) (w : World) :
    dispatch env depth argv tx w ≠ .error .nullHandle ↔
      ∀ x ∈ ran env depth argv tx w, ¬(usesNull x.cmd = true ∧ x.probe env = .missing) := by
  rw [Ne, dispatch_error_iff (f := .nullHandle) nofun, not_exists]
  refine forall_congr' fun x => ?_
  rw [not_and]
  refine forall_congr' fun hx => not_congr ?_
  have hargc := minArgs_of_ran depth argv tx w x hx
  constructor
  · intro hf
    rcases fault_of_outcome hargc hf with hb | ⟨-, hnull⟩ | ⟨i, hi, -⟩
    · exact hb.elim
    · exact hnull
    · cases hi
  · exact fun hnull => outcome_of_usesNull hargc hnull.1 hnull.2

/-- `HDEL` and `SREM` of a missing key. -/
theorem hdel_srem_missing :
    dispatch stillEnv 2 [bytes "HDEL", bytes "k", bytes "f"] ⟨false, false, []⟩
      (freshServer.world 0) = .error .nullHandle ∧
    dispatch stillEnv 2 [bytes "SREM", bytes "k", bytes "m"] ⟨false, false, []⟩
      (freshServer.world 0) = .error .nullHandle :=
  ⟨rfl, rfl⟩

/-! ## Arguments past the end -/

/-- An index past the arguments is a fault. -/
theorem arg_error (hi : argv.length ≤ i) : arg argv i w = .error (.argvIndex i) := by
  unfold arg
  rw [List.getElem?_eq_none hi]
  rfl

/-- `CONFIG SET maxmemory` without a value reads past its arguments. -/
theorem config_overrun (hargc : 3 ≤ argv.length) (hset : toUpper (argv.getD 1 []) = bytes "SET")
    (hmax : toLower (argv.getD 2 []) = bytes "maxmemory") (hlen : argv.length ≤ 3) :
    config env argv w = .error (.argvIndex 3) := by
  unfold config
  rw [arg_bind (by omega), hset, if_neg (by decide), if_pos rfl]
  unfold configSet
  rw [arg_bind hargc, hmax, if_pos rfl]
  show (arg argv 3 w >>= _) = _
  rw [arg_error hlen]
  rfl

/-- `CLIENT SETNAME` without a name reads past its arguments. -/
theorem client_overrun (hargc : 2 ≤ argv.length)
    (hname : toUpper (argv.getD 1 []) = bytes "SETNAME") (hlen : argv.length ≤ 2) :
    client env argv w = .error (.argvIndex 2) := by
  have hid : bytes "SETNAME" ≠ bytes "ID" := by decide
  have hget : bytes "SETNAME" ≠ bytes "GETNAME" := by decide
  unfold client
  simp only [arg_bind hargc, hname, if_neg hid, if_neg hget, if_true]
  show (arg argv 2 w >>= _) = _
  rw [arg_error hlen]
  rfl

/-- `twoInts` reads past the arguments when the second integer is missing. -/
theorem twoInts_overrun {j : ℕ} (hi : i < argv.length)
    (hstart : parseIntStrict (argv.getD i []) ≠ none) (hj : argv.length ≤ j) :
    twoInts argv i j w = .error (.argvIndex j) := by
  obtain ⟨start, hs⟩ := Option.ne_none_iff_exists'.1 hstart
  unfold twoInts
  rw [arg_bind hi, hs]
  show (arg argv j w >>= _) = _
  rw [arg_error hj]
  rfl

/-- `ZRANGE` without a stop index reads past its arguments. -/
theorem zrange_overrun (hargc : 3 ≤ argv.length)
    (htype : probe env .kZSet (argv.getD 1 []) w ≠ .wrongType)
    (hstart : parseIntStrict (argv.getD 2 []) ≠ none) (hlen : argv.length ≤ 3) :
    zrange env argv w = .error (.argvIndex 3) := by
  have hbody : ∀ st p w, zrangeBody env argv true st p w = .error (.argvIndex 3) := by
    intro st p w
    unfold zrangeBody
    show (twoInts argv 2 3 w >>= _) = _
    rw [twoInts_overrun hargc hstart hlen]
    rfl
  unfold zrange zrangeWith
  rw [arg_bind (by omega), withTyped_eq]
  cases hp : probe env zsetKind.type (argv.getD 1 []) w with
  | missing => exact hbody _ _ _
  | found => exact hbody _ _ _
  | wrongType => exact absurd hp htype

/-- The commands of `overrun` read an argument that is not there. -/
theorem outcome_of_overrun (hargc : minArgs x.cmd ≤ x.argv.length)
    (hi : overrun x.argv x.cmd (x.probe env) = some i) : x.outcome env = .error (.argvIndex i) := by
  obtain ⟨c, argv, w⟩ := x
  cases c with
  | config =>
    obtain ⟨⟨hset, hmax, hlen⟩, hi⟩ := Option.ite_none_right_eq_some.1 hi
    cases hi
    exact config_overrun hargc hset hmax hlen
  | client =>
    obtain ⟨⟨hname, hlen⟩, hi⟩ := Option.ite_none_right_eq_some.1 hi
    cases hi
    exact client_overrun hargc hname hlen
  | zrange =>
    obtain ⟨⟨htype, hstart, hlen⟩, hi⟩ := Option.ite_none_right_eq_some.1 hi
    cases hi
    exact zrange_overrun hargc htype hstart hlen
  | _ => cases hi

/-- `Dispatch` reads no argument past the end of `argv` if and only if none of the handlers that it
runs is `CONFIG SET maxmemory` without a value, `CLIENT SETNAME` without a name, or `ZRANGE` without
an end of the range. -/
theorem dispatch_argvIndex_iff (depth : ℕ) (argv : Args) (tx : Tx) (w : World) :
    (∀ i, dispatch env depth argv tx w ≠ .error (.argvIndex i)) ↔
      ∀ x ∈ ran env depth argv tx w, overrun x.argv x.cmd (x.probe env) = none := by
  constructor
  · intro h x hx
    refine Option.eq_none_iff_forall_ne_some.2 fun i hi => h i ?_
    have hf := outcome_of_overrun (minArgs_of_ran depth argv tx w x hx) hi
    exact (dispatch_error_iff (f := .argvIndex i) nofun depth argv tx w).2 ⟨x, hx, hf⟩
  · intro h i hd
    obtain ⟨x, hx, hf⟩ := (dispatch_error_iff (f := .argvIndex i) nofun depth argv tx w).1 hd
    rcases fault_of_outcome (minArgs_of_ran depth argv tx w x hx) hf with hb | ⟨hn, -⟩ | ⟨j, -, hj⟩
    · exact hb.elim
    · cases hn
    · rw [h x hx] at hj
      cases hj

/-- The three commands, with an argument too few. -/
theorem config_client_zrange_short :
    dispatch stillEnv 2 [bytes "CONFIG", bytes "SET", bytes "maxmemory"] ⟨false, false, []⟩
      (freshServer.world 0) = .error (.argvIndex 3) ∧
    dispatch stillEnv 2 [bytes "CLIENT", bytes "SETNAME"] ⟨false, false, []⟩
      (freshServer.world 0) = .error (.argvIndex 2) ∧
    dispatch stillEnv 2 [bytes "ZRANGE", bytes "z", bytes "0"] ⟨false, false, []⟩
      (freshServer.world 0) = .error (.argvIndex 3) :=
  ⟨rfl, rfl, rfl⟩

end TinyRedis.Commands

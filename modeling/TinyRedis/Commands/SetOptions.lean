import TinyRedis.Commands.Calls

/-!
# The options of `SET`

What `CmdSet` reads from its arguments after the value: flags, and times in the argument after `EX`
and `PX`. The loop over the arguments gives the same options as `parseSet`, or replies an error.
-/

namespace TinyRedis.Commands

open Lib Resp

variable {env : Env} {argv : Args} {w : World} {o o' : SetOptions} {i : ℕ} {s v : Bytes} {n : ℤ}
  {f : ℤ → SetOptions}

/-- A flag. -/
def flagOption (s : Bytes) (o : SetOptions) : Option SetOptions :=
  if toUpper s = bytes "NX" then some { o with nx := true }
  else if toUpper s = bytes "XX" then some { o with xx := true }
  else if toUpper s = bytes "KEEPTTL" then some { o with keepttl := true }
  else if toUpper s = bytes "GET" then some { o with wantGet := true }
  else none

/-- A number that is accepted as a time. -/
def positive (v : Bytes) : Option ℤ := (parseIntStrict v).filter fun n => decide (0 < n)

/-- A time that is accepted is a positive integer. -/
theorem positive_eq_some (h : positive v = some n) : parseIntStrict v = some n ∧ 0 < n := by
  obtain ⟨hparse, hpos⟩ := Option.filter_eq_some_iff.1 h
  exact ⟨hparse, of_decide_eq_true hpos⟩

/-- A time that is an integer and refused is not positive. -/
theorem positive_eq_none (h : positive v = none) (hparse : parseIntStrict v = some n) : n ≤ 0 := by
  unfold positive at h
  rw [hparse, Option.filter_some] at h
  split_ifs at h with hpos
  rw [decide_eq_true_iff] at hpos
  omega

/-- A time, with the argument `v` after it. -/
def timeOption (s v : Bytes) (o : SetOptions) : Option SetOptions :=
  if toUpper s = bytes "EX" then (positive v).map fun n => { o with exS := n }
  else if toUpper s = bytes "PX" then (positive v).map fun n => { o with pxMs := n }
  else none

/-- The options after `o`, if they are all accepted. -/
def parseSet : List Bytes → SetOptions → Option SetOptions
  | [], o => some o
  | s :: rest, o =>
    match flagOption s o with
    | some o => parseSet rest o
    | none =>
      match rest with
      | [] => none
      | v :: rest =>
        match timeOption s v o with
        | some o => parseSet rest o
        | none => none

/-- The options of a call. -/
def setOptionsOf (argv : Args) : Option SetOptions :=
  parseSet (argv.drop 3) ⟨-1, -1, false, false, false, false⟩

/-- The error for options that are not accepted. -/
def syntaxReply : Reply := .error (bytes "ERR syntax error")

/-! ## One option -/

/-- A flag word is consumed alone. -/
theorem setOption_flag (hi : i < argv.length) (h : flagOption (argv.getD i []) o = some o') :
    setOption argv i o w = .ok (.next (i + 1) o', w) := by
  unfold flagOption at h
  unfold setOption
  rw [arg_bind hi]
  split_ifs at h ⊢ <;> cases h <;> rfl

/-- An argument that is no flag. -/
theorem flagOption_eq_none (h : flagOption s o = none) :
    toUpper s ≠ bytes "NX" ∧ toUpper s ≠ bytes "XX" ∧ toUpper s ≠ bytes "KEEPTTL" ∧
      toUpper s ≠ bytes "GET" := by
  unfold flagOption at h
  split_ifs at h with hnx hxx hkeep hget
  exact ⟨hnx, hxx, hkeep, hget⟩

/-- The end of the loop with an error. -/
def syntaxStop : M (Step SetOptions Unit) := do
  errSyntax
  pure (.stop ())

/-- The syntax error stops the loop with its reply. -/
theorem syntaxStop_eq : syntaxStop w = .ok (.stop (), replied syntaxReply w) := by
  unfold syntaxStop errSyntax
  rw [bind_apply, replyError_eq]
  rfl

/-- The argument after `EX` or `PX`. -/
def timeArg (argv : Args) (i : ℕ) (f : ℤ → SetOptions) : M (Step SetOptions Unit) := do
  let v ← arg argv (i + 1)
  match parseIntStrict v with
  | none => syntaxStop
  | some n => if n ≤ 0 then syntaxStop else pure (.next (i + 2) (f n))

/-- A positive time is consumed with its word. -/
theorem timeArg_some (hi : i + 1 < argv.length) (h : positive (argv.getD (i + 1) []) = some n) :
    timeArg argv i f w = .ok (.next (i + 2) (f n), w) := by
  obtain ⟨hparse, hpos⟩ := positive_eq_some h
  unfold timeArg
  rw [arg_bind hi, hparse]
  dsimp only
  rw [if_neg (by omega)]
  rfl

/-- A time that is not positive stops the loop with the syntax error. -/
theorem timeArg_none (hi : i + 1 < argv.length) (h : positive (argv.getD (i + 1) []) = none) :
    timeArg argv i f w = .ok (.stop (), replied syntaxReply w) := by
  unfold timeArg
  rw [arg_bind hi]
  cases hparse : parseIntStrict (argv.getD (i + 1) []) with
  | none => exact syntaxStop_eq
  | some n =>
    dsimp only
    rw [if_pos (positive_eq_none h hparse)]
    exact syntaxStop_eq

/-- An argument that is no flag is `EX` or `PX` with a time after it, or an error. -/
theorem setOption_of_not_flag (hi : i < argv.length)
    (hflag : flagOption (argv.getD i []) o = none) : setOption argv i o =
      if toUpper (argv.getD i []) = bytes "EX" ∧ i + 1 < argv.length then
        timeArg argv i fun n => { o with exS := n }
      else if toUpper (argv.getD i []) = bytes "PX" ∧ i + 1 < argv.length then
        timeArg argv i fun n => { o with pxMs := n }
      else syntaxStop := by
  obtain ⟨hnx, hxx, hkeep, hget⟩ := flagOption_eq_none hflag
  unfold setOption
  rw [arg_bind hi, if_neg hnx, if_neg hxx, if_neg hkeep, if_neg hget]
  rfl

/-- A time word is consumed with its value. -/
theorem setOption_time (hi : i + 1 < argv.length) (hflag : flagOption (argv.getD i []) o = none)
    (h : timeOption (argv.getD i []) (argv.getD (i + 1) []) o = some o') :
    setOption argv i o w = .ok (.next (i + 2) o', w) := by
  unfold timeOption at h
  rw [setOption_of_not_flag (by omega) hflag]
  split_ifs at h with hex hpx
  · obtain ⟨n, hn, rfl⟩ := Option.map_eq_some_iff.1 h
    rw [if_pos ⟨hex, hi⟩, timeArg_some hi hn]
  · obtain ⟨n, hn, rfl⟩ := Option.map_eq_some_iff.1 h
    rw [if_neg fun hc => hex hc.1, if_pos ⟨hpx, hi⟩, timeArg_some hi hn]

/-- Any other word stops the loop with the syntax error. -/
theorem setOption_refused (hi : i < argv.length) (hflag : flagOption (argv.getD i []) o = none)
    (h : i + 1 < argv.length → timeOption (argv.getD i []) (argv.getD (i + 1) []) o = none) :
    setOption argv i o w = .ok (.stop (), replied syntaxReply w) := by
  unfold timeOption at h
  rw [setOption_of_not_flag hi hflag]
  split_ifs with hex hpx
  · have hnone := h hex.2
    rw [if_pos hex.1, Option.map_eq_none_iff] at hnone
    exact timeArg_none hex.2 hnone
  · have hnone := h hpx.2
    rw [if_neg fun hc => hex ⟨hc, hpx.2⟩, if_pos hpx.1, Option.map_eq_none_iff] at hnone
    exact timeArg_none hpx.2 hnone
  · exact syntaxStop_eq

/-! ## All options -/

/-- The parser passes over a flag word. -/
theorem parseSet_flag (h : flagOption s o = some o') (rest : List Bytes) :
    parseSet (s :: rest) o = parseSet rest o' := by
  conv_lhs => unfold parseSet
  rw [h]

/-- A last word that is no flag is refused. -/
theorem parseSet_last (h : flagOption s o = none) : parseSet [s] o = none := by
  unfold parseSet
  rw [h]

/-- The parser passes over a time word and its value. -/
theorem parseSet_time (h : flagOption s o = none) (rest : List Bytes) :
    parseSet (s :: v :: rest) o = (timeOption s v o).bind (parseSet rest) := by
  conv_lhs => unfold parseSet
  rw [h]
  dsimp only
  cases timeOption s v o with
  | none => rfl
  | some o' => rfl

/-- How the loop over the arguments ends: with the options, or with an error. -/
def EndsWith (r : Option SetOptions) (w : World)
    (x : Except CommandFault (Step SetOptions Unit × World)) : Prop :=
  match r with
  | some o => ∃ j, x = .ok (.next j o, w)
  | none => x = .ok (.stop (), replied syntaxReply w)

/-- The option loop ends as the parser of the words that are left says. -/
theorem setLoop_ends (n i : ℕ) (o : SetOptions) (hn : argv.length ≤ n + i) :
    EndsWith (parseSet (argv.drop i) o) w (argLoop argv (setOption argv) n i o w) := by
  induction n generalizing i o with
  | zero =>
    rw [List.drop_eq_nil_of_le (by omega)]
    exact ⟨i, rfl⟩
  | succ n ih =>
    unfold argLoop
    by_cases hi : i < argv.length
    · rw [if_pos hi, bind_apply, drop_eq_cons hi]
      cases hflag : flagOption (argv.getD i []) o with
      | some o' =>
        rw [setOption_flag hi hflag, ok_bind, parseSet_flag hflag]
        exact ih (i + 1) o' (by omega)
      | none =>
        by_cases hnext : i + 1 < argv.length
        · rw [drop_eq_cons hnext, parseSet_time hflag]
          cases htime : timeOption (argv.getD i []) (argv.getD (i + 1) []) o with
          | some o' =>
            rw [setOption_time hnext hflag htime, ok_bind]
            exact ih (i + 2) o' (by omega)
          | none =>
            rw [setOption_refused hi hflag fun _ => htime, ok_bind]
            rfl
        · rw [setOption_refused hi hflag fun hc => absurd hc hnext, ok_bind,
            List.drop_eq_nil_of_le (by omega), parseSet_last hflag]
          rfl
    · rw [if_neg hi, List.drop_eq_nil_of_le (by omega)]
      exact ⟨i, rfl⟩

/-- `CmdSet` with options that are accepted. -/
theorem cmdSet_of_options (hargs : 2 < argv.length) (h : setOptionsOf argv = some o) :
    cmdSet env argv w = if o.nx && o.xx then .ok ((), replied syntaxReply w)
      else setWith env o (argv.getD 1 []) (argv.getD 2 []) w := by
  have hloop : EndsWith (setOptionsOf argv) w (argLoop argv (setOption argv) argv.length 3 _ w) :=
    setLoop_ends argv.length 3 _ (Nat.le_add_right _ _)
  rw [h] at hloop
  obtain ⟨j, hj⟩ := hloop
  unfold cmdSet
  rw [arg_bind (by omega), arg_bind hargs, bind_apply, hj, ok_bind]
  dsimp only
  split_ifs
  · exact replyError_eq _ _
  · rfl

/-- `CmdSet` with options that are not accepted. -/
theorem cmdSet_of_syntax (hargs : 2 < argv.length) (h : setOptionsOf argv = none) :
    cmdSet env argv w = .ok ((), replied syntaxReply w) := by
  have hloop : EndsWith (setOptionsOf argv) w (argLoop argv (setOption argv) argv.length 3 _ w) :=
    setLoop_ends argv.length 3 _ (Nat.le_add_right _ _)
  rw [h] at hloop
  unfold cmdSet
  rw [arg_bind (by omega), arg_bind hargs, bind_apply,
    show argLoop argv (setOption argv) argv.length 3 _ w = _ from hloop, ok_bind]
  rfl

end TinyRedis.Commands

import TinyRedis.Commands.Rules.Basic
import TinyRedis.Commands.Occurrences

/-!
# List commands obey the rules
-/

namespace TinyRedis.Commands

open Lib Resp

variable {r : Rules} {p : Phase} {argv : Args} {key src dst : Bytes} {left fromLeft toLeft : Bool}

/-! ## Numbers of the arguments -/

/-- An optional number of elements. -/
theorem obeys_countArg (default : ℤ) : Obeys r p (countArg argv default) fun _ p' => p' = p := by
  refine .ite (fun hlen => .argLt (by omega) fun s _ => ?_) fun _ => .pure rfl
  cases parseIntStrict s with
  | none => exact .pure rfl
  | some count => exact .pure rfl

/-- The second argument is read only if the first is valid. -/
theorem obeys_twoInts {i j : ℕ} (hi : argv.length ≤ i → r.faults (.argvIndex i))
    (hj : parseIntStrict (argv.getD i []) ≠ none → argv.length ≤ j → r.faults (.argvIndex j)) :
    Obeys r p (twoInts argv i j) fun _ p' => p' = p := by
  refine .arg hi fun a ha => ?_
  rw [List.getD_eq_getElem?_getD, ha, Option.getD_some] at hj
  cases hp : parseIntStrict a with
  | none => exact .pure rfl
  | some start =>
    refine .arg (hj (by rw [hp]; exact Option.some_ne_none _)) fun b _ => ?_
    cases parseIntStrict b with
    | none => exact .pure rfl
    | some stop => exact .pure rfl

/-- Two arguments that are there. -/
theorem Rules.Serves.obeys_twoInts (h : r.Serves argv 4) :
    Obeys r p (twoInts argv 2 3) fun _ p' => p' = p :=
  Commands.obeys_twoInts (h.reads 2 (by decide)) fun _ => h.reads 3 (by decide)

/-! ## Reading -/

/-- `LLEN`. -/
theorem obeys_llen (h : r.Serves argv 2) : Obeys r .start (llen r.env argv) Finished :=
  h.look (fun _ => .done (utters_replyInt 0)) fun _ _ =>
    .deref Phase.mem_hold fun _ _ => .done (utters_replyInt _)

/-- No window of an empty list has an element. -/
theorem listIndexRange_zero (start stop : ℤ) : listIndexRange start stop 0 = none := by
  unfold listIndexRange
  dsimp only
  split_ifs <;> first | rfl | omega

/-- `LRANGE`. -/
theorem obeys_lrange (h : r.Serves argv 4) : Obeys r .start (lrange r.env argv) Finished := by
  refine h.read fun _ p st d _ hp ha hst => ?_
  refine .option h.obeys_twoInts (h.failAt fails_errNotInt hp ha) fun range => ?_
  refine .derefOr hst fun l hl => ?_
  cases hrange : listIndexRange range.1 range.2 l.length with
  | none => exact .finish utters_replyEmptyArray ha
  | some window =>
    rcases hst with ⟨-, rfl, rfl⟩ | ⟨key, hkey, rfl, rfl⟩
    · -- The list is not read again: a missing key has length zero.
      rw [hl rfl, List.length_nil, Nat.cast_zero, listIndexRange_zero] at hrange
      cases hrange
    · exact .deref hkey fun l _ => .finish (utters_replyBulkArray _) ha

/-- `LINDEX`. -/
theorem obeys_lindex (h : r.Serves argv 3) : Obeys r .start (lindex r.env argv) Finished := by
  refine h.read fun _ p st d _ hp ha hst => h.argIntAt hp ha fun idx => ?_
  rcases hst with ⟨-, rfl, rfl⟩ | ⟨key, hkey, rfl, rfl⟩
  · exact .finish utters_replyNullBulk ha
  · refine .deref hkey fun l _ => ?_
    cases listIndex idx l with
    | none => exact .finish utters_replyNullBulk ha
    | some i => exact .finish (utters_replyBulk _) ha

section

variable (hV : ∀ l, r.values (.list l))
include hV

/-! ## Ends of a list -/

/-- The loop of `CmdPush`. -/
theorem obeys_pushLoop (ho : r.Owns key p) :
    Obeys r p (forArgs argv 1 (pushOne argv left (some key)) 2 ()) fun _ => r.Owns key := by
  refine (Obeys.forArgs (I := fun _ _ => r.Owns key) Nat.one_pos ?_ 2 () ho).imp
    fun _ p' ⟨_, _, ho⟩ => ho
  rintro i ⟨⟩ p hi ho
  exact .argLt hi fun v _ => .deref ho.held fun l _ => ho.store_last (hV _) ho.write

/-- `LPUSH` and `RPUSH`. -/
theorem obeys_cmdPush (h : r.Serves argv 3) (hw : r.writes = true) (hst : r.Creates .kList argv)
    (left : Bool) : Obeys r .fresh (cmdPush r.env argv left) Finished :=
  h.create hw hst (hV _) (fun _ => rfl) fun _ _ ho _ =>
    (obeys_pushLoop hV ho).bind fun _ _ ho =>
      .deref ho.held fun _ _ => .finish (utters_replyInt _) ho.answer

/-- A list that is popped from has an element. -/
theorem obeys_popBody {count : ℤ} {l : List Bytes} (ho : r.Owns key p) :
    Obeys r p (popBody left count (some key) l) Finished := by
  refine .ite (fun _ => ?_) fun _ => ?_
  · cases popEnd left l with
    | none => exact .fault (r.stable.benign _ trivial)
    | some v => exact ho.put (hV _) (utters_replyBulk _)
  · refine ho.store (hV _) (.ite (fun _ => ?_) fun _ => ?_)
    · exact .finish utters_replyEmptyArray ho.answer
    · exact .finish (utters_replyBulkArray _) ho.answer

variable (hw : r.writes = true) (hst : r.Modifies .kList argv)
include hw hst

/-- `LPOP` and `RPOP`. The count is checked first. -/
theorem obeys_cmdPop (h : r.Serves argv 2) (left : Bool) :
    Obeys r .fresh (cmdPop r.env argv left) Finished := by
  refine h.arg fun key hkey => .option (obeys_countArg _) (.settle (h.fail fails_errNotInt))
    fun count => ?_
  refine .withTyped (k := listKind) h.lines (h.keys 0 key hkey) (.inr rfl) rfl (fun _ => ?_)
    fun hm => ?_
  · exact .done utters_replyNullBulk
  refine .deref Phase.mem_hold fun l _ => .ite (fun _ => .done utters_replyNullBulk) fun _ => ?_
  exact obeys_popBody hV ⟨hst key hkey hm, Phase.mem_hold, (Phase.mayWrite_start hw).hold, rfl⟩

/-! ## Writing into a list -/

/-- `LSET`. -/
theorem obeys_lset (h : r.Serves argv 4) : Obeys r .fresh (lset r.env argv) Finished := by
  have hmissing : Fails (replyError (bytes "ERR no such key")) := ⟨_, rfl, by decide⟩
  refine h.modify hw hst (fun _ => h.argInt fun idx => h.fail hmissing) fun key _ ho =>
    h.argInt fun idx => ?_
  refine .deref ho.held fun l _ => .ite (fun _ => h.fail hmissing) fun _ => ?_
  cases listIndex idx l with
  | none => exact h.fail ⟨_, rfl, by decide⟩
  | some i => exact h.arg fun v _ => ho.put (hV _) (utters_replySimple (by decide))

omit hV hw hst in
/-- The elements are only counted where the number is negative. -/
theorem idle_removeCount (v : Bytes) (count : ℤ) (l : List Bytes) :
    Idle (removeCount v count l) fun _ => True := by
  rw [removeCount_eq]
  refine .ite (fun _ => .pure trivial) fun _ => .ite (fun _ => .pure trivial) fun _ => ?_
  exact .bind (idle_checked _) fun _ _ => .pure trivial

/-- `LREM`. -/
theorem obeys_lrem (h : r.Serves argv 4) : Obeys r .fresh (lrem r.env argv) Finished := by
  refine h.modify hw hst (fun _ => h.argInt fun _ => .done (utters_replyInt 0)) fun key _ ho =>
    h.argInt fun count => ?_
  refine .deref ho.held fun l _ => h.arg fun v _ => ?_
  refine .idle (idle_removeCount v count l) (Phase.settled rfl) fun _ _ => ?_
  exact ho.put (hV _) (utters_replyInt _)

/-- `LINSERT`. -/
theorem obeys_linsert (h : r.Serves argv 5) : Obeys r .fresh (linsert r.env argv) Finished := by
  refine h.arg fun s _ => .ite (fun _ => .settle (h.fail fails_errSyntax)) fun _ => ?_
  refine h.modify hw hst (fun _ => .done (utters_replyInt 0)) fun key _ ho => ?_
  refine .deref ho.held fun l _ => h.arg fun pivot _ => h.arg fun v _ => ?_
  cases insertBeside (decide (toUpper s = bytes "BEFORE")) pivot v l with
  | none => exact .done (utters_replyInt _)
  | some l' => exact ho.put (hV _) (utters_replyInt _)

omit hw hst in
/-- `LTRIM` deletes a list of which nothing is left. -/
theorem obeys_ltrimBody {start stop : ℤ} (hkey : key ∈ r.keys) (ho : r.Owns key p) :
    Obeys r p (ltrimBody key (some key) start stop) Finished := by
  have hok : ∀ p : Phase, p.answer = .none → Obeys r p (replySimple (bytes "OK")) Finished :=
    fun p ha => .finish (utters_replySimple (by decide)) ha
  refine .deref ho.held fun l _ => .ite (fun _ => hok _ ho.answer) fun _ => ?_
  cases listIndexRange start stop l.length with
  | none => exact .delete_bind hkey (.inl ho.held) ho.may fun _ => hok _ ho.answer
  | some window =>
    refine ho.store (hV _) (.ite (fun _ => ?_) fun _ => hok _ ho.answer)
    exact .delete_bind hkey (.inl ho.held) ho.may.write fun _ => hok _ ho.answer

/-- `LTRIM`. -/
theorem obeys_ltrim (h : r.Serves argv 4) : Obeys r .fresh (ltrim r.env argv) Finished := by
  refine h.modify hw hst (fun _ => ?_) fun key hkey ho => ?_
  · exact .option h.obeys_twoInts (h.fail fails_errNotInt) fun _ =>
      .done (utters_replySimple (by decide))
  · exact .option h.obeys_twoInts (h.fail fails_errNotInt) fun _ =>
      obeys_ltrimBody hV (h.keys 0 key hkey) ho

/-! ## Between lists -/

omit hw hst in
/-- An element goes from the source to the destination. -/
theorem obeys_moveEnd {same : Bool} (hs : r.Owns src p) (hd : r.Owns dst p) :
    Obeys r p (moveEnd fromLeft toLeft same (some src) (some dst)) Finished := by
  refine .deref hs.held fun l _ => .ite (fun _ => ?_) fun _ => ?_
  · cases rotate fromLeft toLeft l with
    | none => exact .fault (r.stable.benign _ trivial)
    | some v => exact hs.put (hV _) (utters_replyBulk _)
  · cases popEnd fromLeft l with
    | none => exact .fault (r.stable.benign _ trivial)
    | some v =>
      exact hs.store (hV _) (.deref hd.held fun _ _ => hd.write.put (hV _) (utters_replyBulk _))

omit hw hst in
/-- The destination is created only for a source that has an element. -/
theorem obeys_lmoveBody (hlines : ∀ s, OneLine s → s ∈ r.text) (hdst : dst ∈ r.keys)
    (hs : r.Owns src p) (hclean : p.stage = .clean) {st : LookupResult} {d : Handle}
    (hd : (st = .missing ∧ d = none) ∨ (r.Owns dst p ∧ st = .found ∧ d = some dst)) :
    Obeys r p (lmoveBody r.env src dst fromLeft toLeft .found (some src) st d) Finished := by
  refine .deref hs.held fun l _ => .ite (fun _ => .finish utters_replyNullBulk hs.answer)
    fun _ => ?_
  rcases hd with ⟨rfl, rfl⟩ | ⟨hd, rfl, rfl⟩
  · exact hs.createBeside hclean hdst (hV _) (.fail fails_errWrongType hlines (.inl rfl) hs.answer)
      fun _ => obeys_moveEnd hV
  · exact obeys_moveEnd hV hs hd

/-- `CmdLMove` names two keys. -/
theorem obeys_cmdLMove (hlines : ∀ s, OneLine s → s ∈ r.text)
    (hreads : ∀ i < 5, argv.length ≤ i → r.faults (.argvIndex i))
    (hsrc : ∀ s, argv[1]? = some s → s ∈ r.keys) (hdst : ∀ s, argv[2]? = some s → s ∈ r.keys) :
    Obeys r .fresh (cmdLMove r.env argv) Finished := by
  refine .arg (hreads 1 (by decide)) fun src hs => .arg (hreads 2 (by decide)) fun dst hd => ?_
  refine .arg (hreads 3 (by decide)) fun fromSide _ => ?_
  refine .arg (hreads 4 (by decide)) fun toSide _ => ?_
  refine .ite (fun _ => .settle (.fail fails_errSyntax hlines (.inl rfl) rfl)) fun _ => ?_
  refine .ite (fun _ => .settle (.fail fails_errSyntax hlines (.inl rfl) rfl)) fun _ => ?_
  have hnull : ∀ p : Phase, p.answer = .none → Obeys r p replyNullBulk Finished :=
    fun p ha => .finish utters_replyNullBulk ha
  refine .withTyped (k := listKind) hlines (hsrc src hs) (.inr rfl) rfl (fun _ => ?_) fun hm => ?_
  · exact .withTyped hlines (hdst dst hd) (.inl rfl) rfl (fun _ => hnull _ rfl)
      fun _ => hnull _ rfl
  · have ho : r.Owns src (Phase.start.hold src) :=
      ⟨hst src hs hm, Phase.mem_hold, (Phase.mayWrite_start hw).hold, rfl⟩
    refine .withTyped hlines (hdst dst hd) (.inl rfl) rfl (fun _ => ?_) fun _ => ?_
    · exact obeys_lmoveBody hV hlines (hdst dst hd) ho rfl (.inl ⟨rfl, rfl⟩)
    · exact obeys_lmoveBody hV hlines (hdst dst hd) ho.hold rfl (.inr ⟨ho.beside, rfl, rfl⟩)

/-- `LMOVE`. -/
theorem obeys_lmove (h : r.Serves argv 5) : Obeys r .fresh (cmdLMove r.env argv) Finished :=
  obeys_cmdLMove hV hw hst h.lines h.reads (h.keys 0) (h.keys 1)

/-- `RPOPLPUSH` makes the arguments of an `LMOVE`. -/
theorem obeys_rpoplpush (h : r.Serves argv 3) : Obeys r .fresh (rpoplpush r.env argv) Finished := by
  refine h.arg fun src hs => h.arg fun dst hd => ?_
  refine obeys_cmdLMove hV hw (fun s hs' hm => ?_) h.lines
    (fun i hi hlen => absurd hi (Nat.not_lt.mpr hlen)) (fun s hs' => ?_) fun s hs' => ?_
  · cases hs'
    exact hst src hs hm
  · cases hs'
    exact h.keys 0 src hs
  · cases hs'
    exact h.keys 1 dst hd

end

end TinyRedis.Commands

import TinyRedis.Commands.Calls
import TinyRedis.Commands.Glob

/-!
# Patterns and the keys they select

A `*` of the pattern is a wildcard wherever it stands, so it should not matter whether a key has the
byte `*` or another one that the pattern does not have. It matters to `GlobMatch`, for which a `*`
that stands before a `*` of the key is just this byte: `KEYS *` does not return the key `*a`.

`commands.h` says that a pattern may have classes in brackets and bytes after a `\`. What they are
to match is `GlobDocumented`, with any reading of the text in the brackets; for `GlobMatch` they are
bytes as all others.
-/

namespace TinyRedis.Commands

open Lib Lib.Wildcard Resp List

variable {pattern str word : Bytes} {c : UInt8}

/-! ## Stars in keys -/

/-- The string with another byte for each `*`. -/
def disguise (c : UInt8) (str : Bytes) : Bytes := str.map fun b => if b = 42 then c else b

/-- A disguised string has no star. -/
theorem star_notMem_disguise (hc : c ≠ 42) : (42 : UInt8) ∉ disguise c str := by
  intro h
  obtain ⟨b, -, hb⟩ := mem_map.1 h
  split_ifs at hb with hb42
  · exact hc hb
  · exact hb42 hb

/-- To the language of a pattern, a `*` of the string is a byte as others. -/
theorem globLanguage_disguise_iff (hpattern : c ∉ pattern) :
    GlobLanguage pattern (disguise c str) ↔ GlobLanguage pattern str := by
  refine matches_map_iff fun t ht hstar a _ => ?_
  split_ifs with ha
  · rw [ha]
    have hc : t ≠ c := fun h => hpattern (h ▸ ht)
    have h42 : t ≠ 42 := hstar
    unfold GlobFits
    rw [or_iff_left hc, or_iff_left h42]
  · exact Iff.rfl

/-- Two calls of `GlobMatch` do the same if they decide the same. -/
theorem globMatch_eq_iff {pattern' str' : Bytes} :
    globMatch pattern str = globMatch pattern' str' ↔
      (GlobYields pattern str ↔ GlobYields pattern' str') := by
  obtain ⟨hit, hhit, hyields⟩ := globMatch_yields pattern str
  obtain ⟨hit', hhit', hyields'⟩ := globMatch_yields pattern' str'
  rw [← hyields, ← hyields', ← Bool.eq_iff_iff]
  constructor
  · intro h
    have heq := (hhit (freshServer.world 0)).symm.trans
      ((congrFun h _).trans (hhit' (freshServer.world 0)))
    exact (Prod.mk.inj (Except.ok.inj heq)).1
  · rintro rfl
    exact funext fun w => (hhit w).trans (hhit' w).symm

/-- The lone `*` matches every string that does not begin with a `*`, and itself. -/
theorem globYields_star_iff :
    GlobYields (bytes "*") str ↔ (str.head? = some 42 → str = bytes "*") := by
  constructor
  · intro h hhead
    obtain ⟨s, rfl⟩ := head?_eq_some_iff.1 hhead
    have hrest := (yields_fits_iff (.inr rfl)).1 h
    generalize hw : s = s' at hrest
    cases hrest
    rfl
  · intro h
    cases str with
    | nil => exact .star [] globStar (fun a ha => by cases ha) .nil
    | cons b s =>
      by_cases hb : b = 42
      · rw [h (congrArg some hb)]
        exact .one (.inr rfl) .nil
      · have hfits : ¬GlobFits 42 b := fun hfits =>
          hfits.elim (by decide) fun h42 => hb h42.symm
        exact (yields_star_iff globStar hfits).2 ⟨[], nil_suffix, .nil⟩

/-! ## `KEYS` -/

/-- The key is in the table, and its deadline does not come from the reading `i` of the clock to the
reading `j`. -/
def Lasts (env : Env) (i j : ℕ) (t : Table) (key : Bytes) : Prop :=
  ∃ e, t.lookup key = some e ∧ ∀ n, i ≤ n → n < j → Database.expired e (env.nowMs n) = false

/-- `KEYS` replies keys that match, and all of them that do not expire meanwhile. -/
theorem keys_returns (env : Env) (name pattern : Bytes) (w : World) :
    ∃ found w', keys env [name, pattern] w = .ok ((), w') ∧
      w'.out = appendBulkArray w.out (sorted found) ∧
      ∀ key, Lasts env w.tick w'.tick (w.db.table w.cs.dbIndex) key →
        (key ∈ found ↔ GlobYields pattern key) := by
  choose hit hhit hyields using globMatch_yields pattern
  have hp : [name, pattern][1]? = some pattern := rfl
  obtain ⟨live, dead, n, w₁, hsifts, hdelete, -, hkeys⟩ := sweepKeys_run env hp hhit w
  obtain ⟨_, hrun, hout, -, htick, -⟩ :=
    deleteAllExpired_returns (dead.map Prod.fst) { w with tick := n }
  cases hrun.symm.trans hdelete
  refine ⟨_, _, hkeys, congrArg (appendBulkArray · (sorted _)) hout, ?_⟩
  rintro key ⟨e, he, hlast⟩
  rw [← hyields, mem_filter]
  refine ⟨fun hkey => hkey.2, fun hkey => ⟨mem_map.2 ⟨(key, e), ?_, rfl⟩, hkey⟩⟩
  -- What is not live was found expired at one of the readings.
  have hmem := (hsifts.perm.trans (env.order_perm _ _)).mem_iff.2 (Dict.lookup_eq_some_iff.1 he)
  refine (mem_append.1 hmem).resolve_right fun hdead => ?_
  obtain ⟨k, hk, hkn, hexp⟩ := hsifts.expired hdead
  cases hexp.symm.trans (hlast k (Nat.le_of_succ_le hk) (hkn.trans_eq htick.symm))

/-- A `*` in the string may be replaced by a byte that does not occur in the pattern, without any
difference to `GlobMatch`, if and only if the pattern matches also with stars that give way, or does
not match at all. `KEYS *` returns all live keys if and only if no one begins with a `*` but the
lone `*`. -/
theorem globMatch_disguise_iff (pattern str : Bytes) {c : UInt8} (hstar : c ≠ 42)
    (hpattern : c ∉ pattern) :
    (globMatch pattern str = globMatch pattern (disguise c str) ↔
      (GlobLanguage pattern str → GlobYields pattern str)) ∧
    ∀ (env : Env) (name : Bytes) (tx : Tx) (w : World) (depth : ℕ),
      toUpper name = bytes "KEYS" → tx.inMulti = false →
      ∃ found w', dispatch env (depth + 1) [name, bytes "*"] tx w = .ok (((), tx), w') ∧
        w'.out = appendBulkArray w.out (sorted found) ∧
        ((∀ key, Lasts env w.tick w'.tick (w.db.table w.cs.dbIndex) key → key ∈ found) ↔
          ∀ key, Lasts env w.tick w'.tick (w.db.table w.cs.dbIndex) key →
            key.head? = some 42 → key = bytes "*") := by
  constructor
  · rw [globMatch_eq_iff, globYields_iff_globLanguage (star_notMem_disguise hstar),
      globLanguage_disguise_iff hpattern]
    exact ⟨fun h => h.2, fun h => ⟨Yields.matches, h⟩⟩
  · intro env name tx w depth hname htx
    obtain ⟨found, w', hrun, hout, hall⟩ := keys_returns env name (bytes "*") w
    have haccepts : accepts .keys [name, bytes "*"] = true := by
      unfold accepts
      rw [headD_cons, hname]
      show (findCommand (bytes "KEYS")).any (fun r => decide (r.cmd = .keys) && arityOk r 2) = true
      decide +kernel
    refine ⟨found, w', ?_, hout, forall₂_congr fun key hkey => ?_⟩
    · exact Enters.dispatch_ok (.mk haccepts htx (gated_of_read rfl) rfl) depth hrun
    · rw [hall key hkey, globYields_star_iff]

/-- `a*` and the key `a*b`, with `x` for the star. -/
theorem globMatch_disguise_iff_inner : (120 : UInt8) ≠ 42 ∧ (120 : UInt8) ∉ bytes "a*" ∧
    (globMatch (bytes "a*") (bytes "a*b") = globMatch (bytes "a*") (disguise 120 (bytes "a*b")) ↔
      (GlobLanguage (bytes "a*") (bytes "a*b") → GlobYields (bytes "a*") (bytes "a*b"))) :=
  ⟨by decide, by decide, (globMatch_disguise_iff (bytes "a*") (bytes "a*b") (by decide)
    (by decide)).1⟩

/-- A database with the key `*a`. -/
def starredWorld : World :=
  let w := freshServer.world 0
  { w with db := w.db.set w.cs.dbIndex (bytes "*a") (.rawString (bytes "v")) 0 }

/-- `*` does not match `*a`, but it matches `xa`; and `KEYS *` returns nothing, although the key
`*a` is there. -/
theorem keys_miss_star :
    (∀ w, globMatch (bytes "*") (bytes "*a") w = .ok (false, w)) ∧
    (∀ w, globMatch (bytes "*") (disguise 120 (bytes "*a")) w = .ok (true, w)) ∧
    Lasts stillEnv 0 1 (starredWorld.db.table starredWorld.cs.dbIndex) (bytes "*a") ∧
    ∃ tx' w', dispatch stillEnv 2 [bytes "KEYS", bytes "*"] .idle starredWorld =
      .ok (((), tx'), w') ∧ w'.out = appendBulkArray starredWorld.out [] ∧ w'.tick = 1 := by
  refine ⟨fun _ => rfl, fun _ => rfl, ⟨⟨.rawString (bytes "v"), 0⟩, rfl, fun _ _ _ => rfl⟩, ?_⟩
  obtain ⟨⟨⟨⟨⟩, tx'⟩, w'⟩, hrun, hw'⟩ := exists_ok_of_any
    (p := fun x : (Unit × Tx) × World => decide (x.2.out = appendBulkArray starredWorld.out []) &&
      decide (x.2.tick = 1))
    (x := dispatch stillEnv 2 [bytes "KEYS", bytes "*"] .idle starredWorld) (by decide +kernel)
  rw [Bool.and_eq_true] at hw'
  exact ⟨tx', w', hrun, of_decide_eq_true hw'.1, of_decide_eq_true hw'.2⟩

/-! ## What is documented -/

/-- What a pattern is made of, according to `commands.h`. -/
inductive GlobToken where
  /-- `*`. -/
  | star
  /-- `?`. -/
  | any
  /-- The text between two brackets. -/
  | cls (text : Bytes)
  /-- A byte that stands for itself, or is made to by a `\` before it. -/
  | literal (b : UInt8)
  deriving DecidableEq, Repr

/-- The text of a class up to the `]` that ends it, and what follows. A `\` takes the next byte
along, so that a class may have a `]`. -/
def classText : Bytes → Option (Bytes × Bytes)
  | [] => none
  | 93 :: p => some ([], p)
  | 92 :: b :: p => (classText p).map fun r => (92 :: b :: r.1, r.2)
  | b :: p => (classText p).map fun r => (b :: r.1, r.2)

/-- The tokens of a pattern, of which there are no more than bytes. A `[` without a `]`, and a `\`
at the end, stand for themselves. -/
def globTokensFrom : ℕ → Bytes → List GlobToken
  | 0, _ => []
  | _, [] => []
  | n + 1, 42 :: p => .star :: globTokensFrom n p
  | n + 1, 63 :: p => .any :: globTokensFrom n p
  | n + 1, 92 :: b :: p => .literal b :: globTokensFrom n p
  | n + 1, 91 :: p =>
    match classText p with
    | some (text, rest) => .cls text :: globTokensFrom n rest
    | none => .literal 91 :: globTokensFrom n p
  | n + 1, b :: p => .literal b :: globTokensFrom n p

/-- The tokens of a pattern. -/
def globTokens (pattern : Bytes) : List GlobToken := globTokensFrom pattern.length pattern

/-- A token matches a byte. `InClass` says which bytes the text of a class stands for. -/
def GlobToken.Fits (InClass : Bytes → UInt8 → Prop) : GlobToken → UInt8 → Prop
  | .star, _ => False
  | .any, _ => True
  | .cls text, b => InClass text b
  | .literal a, b => a = b

/-- The language of a pattern that `commands.h` documents. -/
def GlobDocumented (InClass : Bytes → UInt8 → Prop) (pattern str : Bytes) : Prop :=
  Matches (· = GlobToken.star) (GlobToken.Fits InClass) (globTokens pattern) str

example : globTokens (bytes "a[b\\]c]*\\?") =
    [.literal 97, .cls (bytes "b\\]c"), .star, .literal 63] := by decide +kernel

variable {InClass : Bytes → UInt8 → Prop} {p : Bytes} {ts : List GlobToken}

/-- The token of a byte that is neither in a class nor after a `\`. -/
def GlobToken.ofByte : UInt8 → GlobToken
  | 42 => .star
  | 63 => .any
  | b => .literal b

/-- A class ends with a `]`. -/
theorem classText_eq {text rest : Bytes} (h : classText p = some (text, rest)) :
    p = text ++ 93 :: rest := by
  fun_induction classText p generalizing text with
  | case1 => cases h
  | case2 p =>
    cases h
    rfl
  | case3 b p ih | case4 b p _ _ ih =>
    obtain ⟨r, hr, heq⟩ := Option.map_eq_some_iff.1 h
    cases heq
    rw [ih hr]
    rfl

/-- How the bytes of a pattern become tokens. -/
inductive Tokenized : Bytes → List GlobToken → Prop
  | nil : Tokenized [] []
  | byte (b : UInt8) {p : Bytes} {ts : List GlobToken} :
      Tokenized p ts → Tokenized (b :: p) (.ofByte b :: ts)
  | escape (b : UInt8) {p : Bytes} {ts : List GlobToken} :
      Tokenized p ts → Tokenized (92 :: b :: p) (.literal b :: ts)
  | cls (text : Bytes) {p : Bytes} {ts : List GlobToken} :
      Tokenized p ts → Tokenized (91 :: text ++ 93 :: p) (.cls text :: ts)

/-- The tokens of a pattern are a tokenization of it. -/
theorem tokenized_globTokens (pattern : Bytes) : Tokenized pattern (globTokens pattern) := by
  have h : ∀ n p, p.length ≤ n → Tokenized p (globTokensFrom n p) := by
    intro n p hn
    fun_induction globTokensFrom n p with
    | case1 p =>
      rw [length_eq_zero_iff.1 (Nat.le_zero.1 hn)]
      exact .nil
    | case2 => exact .nil
    | case3 n p ih => exact .byte 42 (ih (Nat.le_of_succ_le_succ hn))
    | case4 n p ih => exact .byte 63 (ih (Nat.le_of_succ_le_succ hn))
    | case5 n b p ih => exact .escape b (ih (by simp at hn; omega))
    | case6 n p text rest hc ih =>
      have hp := classText_eq hc
      rw [hp]
      exact .cls text (ih (by simp [hp] at hn; omega))
    | case7 n p _ ih => exact .byte 91 (ih (Nat.le_of_succ_le_succ hn))
    | case8 n b p h42 h63 h92 h91 ih =>
      have hb : GlobToken.ofByte b = .literal b := by
        unfold GlobToken.ofByte
        split <;> simp_all
      exact hb ▸ .byte b (ih (Nat.le_of_succ_le_succ hn))
  exact h _ _ (le_refl _)

/-- The tokens that take a byte. -/
def takers (ts : List GlobToken) : List GlobToken := ts.filter (· ≠ .star)

/-- The bytes of a pattern that take a byte. -/
def unstarred (p : Bytes) : Bytes := p.filter (· ≠ 42)

/-- A star is dropped, any other byte is kept. -/
theorem unstarred_cons (b : UInt8) (p : Bytes) :
    unstarred (b :: p) = if b = 42 then unstarred p else b :: unstarred p := by
  unfold unstarred
  by_cases hb : b = 42 <;> simp [hb]

/-- The token of a star takes nothing, that of any other byte is kept. -/
theorem takers_ofByte (b : UInt8) (ts : List GlobToken) :
    takers (.ofByte b :: ts) = if b = 42 then takers ts else .ofByte b :: takers ts := by
  unfold takers GlobToken.ofByte
  split <;> simp_all

/-- Both brackets of a class take a byte. -/
theorem length_unstarred_cls (text p : Bytes) : (unstarred (91 :: text ++ 93 :: p)).length =
    (unstarred text).length + (unstarred p).length + 2 := by
  unfold unstarred
  simp
  omega

/-- There are no more such tokens than bytes. -/
theorem Tokenized.length_takers_le (h : Tokenized p ts) :
    (takers ts).length ≤ (unstarred p).length := by
  induction h with
  | nil => exact Nat.zero_le _
  | byte b _ ih =>
    rw [takers_ofByte, unstarred_cons]
    split_ifs
    · exact ih
    · exact Nat.succ_le_succ ih
  | escape b _ ih =>
    rw [unstarred_cons, if_neg (by decide), unstarred_cons]
    refine Nat.succ_le_succ (ih.trans ?_)
    split_ifs
    · exact le_refl _
    · exact Nat.le_succ _
  | @cls text p ts _ ih =>
    have hcls : (takers (.cls text :: ts)).length = (takers ts).length + 1 := rfl
    rw [length_unstarred_cls]
    omega

/-- If the bytes of the pattern take a shortest word of the documented language one by one, then
there is no class and no escape: it would be a token of one byte of the word, and two bytes or more
of the pattern, or a `\` before a `*`, which does not take this `*`. -/
theorem Tokenized.eq_map (h : Tokenized p ts)
    (hdoc : List.Forall₂ (GlobToken.Fits InClass) (takers ts) word)
    (hbytes : List.Forall₂ GlobFits (unstarred p) word) : ts = p.map .ofByte := by
  have hlength := hbytes.length_eq.trans hdoc.length_eq.symm
  induction h generalizing word with
  | nil => rfl
  | byte b _ ih =>
    rw [takers_ofByte] at hdoc hlength
    rw [unstarred_cons] at hbytes hlength
    rw [map_cons]
    split_ifs at hdoc hbytes hlength
    · rw [← ih hdoc hbytes hlength]
    · cases hdoc with
      | cons _ hdoc =>
        cases hbytes with
        | cons _ hbytes => rw [← ih hdoc hbytes (Nat.succ.inj hlength)]
  | @escape b p ts h ih =>
    have hle := h.length_takers_le
    have hescape : (takers (.literal b :: ts)).length = (takers ts).length + 1 := rfl
    rw [unstarred_cons, if_neg (by decide), unstarred_cons] at hbytes hlength
    split_ifs at hbytes hlength with hb
    · cases hdoc with
      | cons hfit _ =>
        cases hbytes with
        | cons hfit' _ =>
          cases hfit
          subst hb
          exact absurd hfit' (by unfold GlobFits; decide)
    · simp only [length_cons] at hlength
      omega
  | @cls text p ts h ih =>
    have hle := h.length_takers_le
    have hcls : (takers (.cls text :: ts)).length = (takers ts).length + 1 := rfl
    rw [length_unstarred_cls] at hlength
    omega

/-- The filter of `takers` keeps the tokens that are no star. -/
theorem takes_ne_star (t : GlobToken) : decide (t ≠ .star) = true ↔ ¬t = .star := decide_eq_true_iff

/-- The filter of `unstarred` keeps the bytes that are no star. -/
theorem takes_ne_42 (b : UInt8) : decide (b ≠ 42) = true ↔ ¬GlobStar b := decide_eq_true_iff

/-- Without classes and escapes, the documented language is that of the bytes. -/
theorem globDocumented_iff (h : globTokens pattern = pattern.map .ofByte) :
    GlobDocumented InClass pattern str ↔ GlobLanguage pattern str := by
  unfold GlobDocumented GlobLanguage
  rw [h]
  refine matches_map_tokens_iff (fun b => ?_) fun b hb c => ?_
  · unfold GlobToken.ofByte GlobStar
    split <;> simp_all
  · unfold GlobToken.ofByte GlobFits GlobStar at *
    split <;> simp_all [GlobToken.Fits]

/-- A pattern with a class or an escape refuses a shortest word of its documented language. -/
theorem not_globLanguage_of_takers (h : globTokens pattern ≠ pattern.map .ofByte)
    (hword : List.Forall₂ (GlobToken.Fits InClass) (takers (globTokens pattern)) word) :
    ¬GlobLanguage pattern word := by
  intro hlang
  have htokens := tokenized_globTokens pattern
  obtain ⟨s, hs, hfits⟩ := Matches.exists_sublist takes_ne_42 hlang
  have heq : s = word := by
    refine hs.eq_of_length_le ?_
    rw [← hword.length_eq, ← hfits.length_eq]
    exact htokens.length_takers_le
  exact h (htokens.eq_map hword (heq ▸ hfits))

/-- `GlobMatch` decides the documented language of a pattern, on the strings without `*`, if and
only if the pattern has no class and no escape, so that every byte of it is a token. -/
theorem globMatch_documented_iff (InClass : Bytes → UInt8 → Prop) (pattern : Bytes) :
    (∀ str, (42 : UInt8) ∉ str → ∃ hit, (∀ w, globMatch pattern str w = .ok (hit, w)) ∧
      (hit = true ↔ GlobDocumented InClass pattern str)) ↔
      globTokens pattern = pattern.map .ofByte := by
  have hdecides : ∀ str, (42 : UInt8) ∉ str →
      ((∃ hit, (∀ w, globMatch pattern str w = .ok (hit, w)) ∧
        (hit = true ↔ GlobDocumented InClass pattern str)) ↔
      (GlobLanguage pattern str ↔ GlobDocumented InClass pattern str)) := by
    intro str hstr
    obtain ⟨hit, hhit, hyields⟩ := globMatch_yields pattern str
    rw [globYields_iff_globLanguage hstr] at hyields
    constructor
    · rintro ⟨hit', hhit', hdoc⟩
      have heq := (hhit (freshServer.world 0)).symm.trans (hhit' (freshServer.world 0))
      cases heq
      exact hyields.symm.trans hdoc
    · exact fun h => ⟨hit, hhit, hyields.trans h⟩
  constructor
  · intro h
    by_contra hspecial
    have hagree := fun str hstr => (hdecides str hstr).1 (h str hstr)
    -- The pattern matches itself without its stars, so the documented language has a word without
    -- `*`, and then a shortest one, which is refused.
    have hself : GlobLanguage pattern (unstarred pattern) := matches_of_forall₂ takes_ne_42
      (forall₂_same.2 fun b _ => .inr rfl)
    have hfree : (42 : UInt8) ∉ unstarred pattern := fun hmem => by
      simp [unstarred] at hmem
    obtain ⟨word, hword, hfits⟩ :=
      Matches.exists_sublist takes_ne_star ((hagree _ hfree).1 hself)
    have hword42 : (42 : UInt8) ∉ word := fun hmem => hfree (hword.subset hmem)
    exact not_globLanguage_of_takers hspecial hfits
      ((hagree word hword42).2 (matches_of_forall₂ takes_ne_star hfits))
  · exact fun h str hstr => (hdecides str hstr).2 (globDocumented_iff h).symm

/-- `[ab]` stands for `a` and for `b`, and `\?` for `?`. `GlobMatch` takes both for other texts. -/
theorem globMatch_undocumented :
    GlobDocumented (fun text b => b ∈ text) (bytes "[ab]") (bytes "a") ∧
    (∀ w, globMatch (bytes "[ab]") (bytes "a") w = .ok (false, w)) ∧
    GlobDocumented (fun text b => b ∈ text) (bytes "\\?") (bytes "?") ∧
    ∀ w, globMatch (bytes "\\?") (bytes "?") w = .ok (false, w) := by
  refine ⟨?_, fun _ => rfl, ?_, fun _ => rfl⟩
  · show Matches _ _ [GlobToken.cls (bytes "ab")] [97]
    exact .one nofun (show (97 : UInt8) ∈ bytes "ab" by decide) .nil
  · show Matches _ _ [GlobToken.literal 63] [63]
    exact .one nofun rfl .nil

end TinyRedis.Commands

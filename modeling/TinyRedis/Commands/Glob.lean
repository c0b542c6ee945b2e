import TinyRedis.Commands.Invariant
import TinyRedis.Lib.Wildcard

/-!
# What `GlobMatch` decides

The positions in the pattern and the string go up, but for the steps back to the last `*`. Each of
these goes on one byte further in the string than the one before, so that there are no more of them
than the string has bytes.

What is left to match at a position is the rest of the pattern against the rest of the string, or,
after a `*`, what begins after this `*`. The bytes are compared before the `*` is looked for, so a
`*` in the pattern that stands before a `*` of the string takes this one byte: `GlobMatch` decides
`GlobYields`. This is the language of the pattern for the strings without `*`.

A class in brackets and a `\` are nothing else than their bytes for `GlobMatch`, whatever
`commands.h` says (`GlobDocumented`).
-/

namespace TinyRedis.Commands

open Lib.Wildcard List

variable {pattern str l : Bytes} {c : UInt8} {p s i n : ℕ} {g : GlobState} {star : Option (ℕ × ℕ)}

/-! ## It returns -/

/-- The positions are inside the pattern and the string, and a step back does not go forward. -/
structure GlobState.Inside (pattern str : Bytes) (g : GlobState) : Prop where
  p : g.p ≤ pattern.length
  s : g.s ≤ str.length
  star : ∀ a ∈ g.star, a.1 < pattern.length ∧ a.2 ≤ g.s

/-- The position in the string to go back to. -/
def GlobState.back (g : GlobState) : ℕ := (g.star.map Prod.snd).getD 0

/-- The number of steps that are left, at most. -/
def GlobState.left (pattern str : Bytes) (g : GlobState) : ℕ :=
  (str.length - g.back) * (pattern.length + str.length + 2) + (pattern.length - g.p) +
    (str.length - g.s)

/-- An index with a byte is within the string. -/
theorem lt_length_of_getElem? (h : l[i]? = some c) :
    i < l.length := (List.getElem?_eq_some_iff.1 h).1

/-- A step forward, in the pattern alone or in both. -/
theorem GlobState.left_lt (str : Bytes) (g' : GlobState) (hp : g.p < pattern.length)
    (hp' : g'.p = g.p + 1) (hs : g.s ≤ g'.s) (hback : g.back ≤ g'.back) :
    g'.left pattern str < g.left pattern str := by
  have hmul := Nat.mul_le_mul_right (pattern.length + str.length + 2)
    (Nat.sub_le_sub_left hback str.length)
  unfold left
  omega

/-- A step back. -/
theorem GlobState.left_back_lt (pattern : Bytes) (g' : GlobState) (hback : g'.back = g.back + 1)
    (hlt : g.back < str.length) : g'.left pattern str < g.left pattern str := by
  obtain ⟨k, hk⟩ : ∃ k, str.length - g.back = k + 1 := ⟨str.length - g.back - 1, by omega⟩
  have hk' : str.length - g'.back = k := by omega
  unfold left
  rw [hk, hk', Nat.succ_mul]
  omega

/-- With enough fuel, the loop ends, in every world with the same result. -/
theorem globLoop_returns (hg : g.Inside pattern str) (hn : g.left pattern str < n) :
    ∃ o, ∀ w, globLoop pattern str n g w = .ok (o, w) := by
  induction n generalizing g with
  | zero => omega
  | succ n ih =>
    unfold globLoop
    cases hs : str[g.s]? with
    | none => exact ⟨some g.p, fun _ => rfl⟩
    | some c =>
      have hslt := lt_length_of_getElem? hs
      dsimp only
      split_ifs with hmatch hstar
      · have hplt : g.p < pattern.length := by
          rcases hmatch with h | h
          · exact lt_length_of_getElem? h
          · exact lt_length_of_getElem? h
        have hlt := GlobState.left_lt str { g with p := g.p + 1, s := g.s + 1 } hplt rfl
          (Nat.le_succ _) (le_refl _)
        refine ih ⟨hplt, hslt, fun a ha => ?_⟩ (by omega)
        exact ⟨(hg.star a ha).1, Nat.le_succ_of_le (hg.star a ha).2⟩
      · have hplt := lt_length_of_getElem? hstar
        have hback : g.back ≤ g.s := by
          unfold GlobState.back
          cases ha : g.star with
          | none => exact Nat.zero_le _
          | some a => exact (hg.star a ha).2
        have hlt := GlobState.left_lt str { g with p := g.p + 1, star := some (g.p, g.s) } hplt rfl
          (le_refl _) hback
        refine ih ⟨hplt, hg.s, fun a ha => ?_⟩ (by omega)
        cases ha
        exact ⟨hplt, le_refl _⟩
      · cases ha : g.star with
        | none => exact ⟨none, fun _ => rfl⟩
        | some a =>
          obtain ⟨starP, starS⟩ := a
          obtain ⟨hstarP, hstarS⟩ := hg.star _ ha
          dsimp only at hstarP hstarS ⊢
          have hback : g.back = starS := by rw [GlobState.back, ha]; rfl
          have hlt : GlobState.left pattern str ⟨starP + 1, starS + 1, some (starP, starS + 1)⟩ <
              g.left pattern str := by
            refine GlobState.left_back_lt pattern _ ?_ (by omega)
            rw [hback]
            rfl
          refine ih ⟨hstarP, by dsimp only; omega, fun b hb => ?_⟩ (by omega)
          cases hb
          exact ⟨hstarP, le_refl _⟩

/-- `GlobMatch` returns, in every world with the same result. -/
theorem globMatch_returns (pattern str : Bytes) :
    ∃ hit, ∀ w, globMatch pattern str w = .ok (hit, w) := by
  have hleft : GlobState.left pattern str ⟨0, 0, none⟩ <
      (str.length + 1) * (pattern.length + str.length + 2) := by
    unfold GlobState.left GlobState.back
    simp only [Option.map_none, Option.getD_none, Nat.sub_zero, Nat.succ_mul]
    omega
  obtain ⟨o, ho⟩ := globLoop_returns
    ⟨Nat.zero_le _, Nat.zero_le _, fun a ha => by cases ha⟩ hleft
  unfold globMatch
  cases o with
  | none => exact ⟨false, fun w => by rw [bind_apply, ho]; rfl⟩
  | some p => exact ⟨_, fun w => by rw [bind_apply, ho]; rfl⟩

/-! ## What it decides -/

/-- `*`. -/
def GlobStar (b : UInt8) : Prop := b = 42

/-- `?` matches one byte, and any other byte matches itself. -/
def GlobFits (b c : UInt8) : Prop := b = 63 ∨ b = c

/-- The language of a pattern. A `*` matches any bytes. -/
def GlobLanguage : Bytes → Bytes → Prop := Matches GlobStar GlobFits

/-- The strings that a pattern matches if each `*` that stands before a `*` of the string takes just
this byte. -/
def GlobYields : Bytes → Bytes → Prop := Yields GlobStar GlobFits

/-- The byte 42 is the star. -/
theorem globStar : GlobStar 42 := rfl

/-- What is left to match. -/
inductive GlobState.Sound (pattern str : Bytes) : GlobState → Prop
  | start {p s : ℕ} :
      (GlobYields pattern str ↔ GlobYields (pattern.drop p) (str.drop s)) →
      Sound pattern str ⟨p, s, none⟩
  | starred {p s starP starS : ℕ} (seg m : Bytes) :
      pattern.drop (starP + 1) = seg ++ pattern.drop p → str.drop starS = m ++ str.drop s →
      List.Forall₂ GlobFits seg m →
      (GlobYields pattern str ↔
        Later GlobStar GlobFits (pattern.drop (starP + 1)) (str.drop starS)) →
      Sound pattern str ⟨p, s, some (starP, starS)⟩

namespace GlobState.Sound

/-- The rest of a string starts with the byte at its index. -/
theorem drop_eq_cons (h : l[i]? = some c) : l.drop i = c :: l.drop (i + 1) := by
  obtain ⟨hi, rfl⟩ := List.getElem?_eq_some_iff.1 h
  exact List.drop_eq_getElem_cons hi

/-- A byte that matches. -/
theorem forward (h : Sound pattern str ⟨p, s, star⟩) {b : UInt8} (hb : pattern[p]? = some b)
    (hc : str[s]? = some c) (hfits : GlobFits b c) : Sound pattern str ⟨p + 1, s + 1, star⟩ := by
  have hp := drop_eq_cons hb
  have hs := drop_eq_cons hc
  cases h with
  | start h =>
    refine .start (h.trans ?_)
    rw [hp, hs]
    exact yields_fits_iff hfits
  | starred seg m hseg hm hmatch h =>
    refine .starred (seg ++ [b]) (m ++ [c]) ?_ ?_ ?_ h
    · rw [hseg, hp, append_assoc]
      rfl
    · rw [hm, hs, append_assoc]
      rfl
    · exact rel_append hmatch (.cons hfits .nil)

/-- A star that does not give way becomes the last one. -/
theorem meet (h : Sound pattern str ⟨p, s, star⟩) (hp : pattern[p]? = some 42)
    (hc : str[s]? = some c) (hfits : ¬GlobFits 42 c) :
    Sound pattern str ⟨p + 1, s, some (p, s)⟩ := by
  refine .starred [] [] rfl rfl .nil ?_
  have hpdrop := drop_eq_cons hp
  have hsdrop := drop_eq_cons hc
  cases h with
  | start h =>
    refine h.trans ?_
    rw [hpdrop, hsdrop]
    exact yields_star_iff globStar hfits
  | starred seg m hseg hm hmatch h =>
    refine h.trans ?_
    rw [hseg, hm, hpdrop, hsdrop]
    exact later_segment_star_iff globStar hfits hmatch

/-- The byte does not match, and the pattern has no star here. -/
theorem stuck (hc : str[s]? = some c) (hfits : ¬(pattern[p]? = some 63 ∨ pattern[p]? = some c))
    (hstar : pattern[p]? ≠ some 42) : ¬GlobYields (pattern.drop p) (str.drop s) := by
  rw [drop_eq_cons hc]
  intro h
  cases hp : pattern[p]? with
  | none =>
    rw [drop_eq_nil_of_le (getElem?_eq_none_iff.1 hp)] at h
    cases h
  | some b =>
    rw [drop_eq_cons hp] at h
    generalize hw : c :: str.drop (s + 1) = w at h
    cases h with
    | one hbc _ =>
      cases hw
      rw [hp] at hfits
      exact hfits (hbc.imp (congrArg some) (congrArg some))
    | star run hb _ _ => exact hstar (hp.trans (congrArg some hb))

/-- A step back: the star takes one more byte. -/
theorem back {starP starS : ℕ} (h : Sound pattern str ⟨p, s, some (starP, starS)⟩)
    (hc : str[s]? = some c) (hstuck : ¬GlobYields (pattern.drop p) (str.drop s)) :
    Sound pattern str ⟨starP + 1, starS + 1, some (starP, starS + 1)⟩ := by
  cases h with
  | starred seg m hseg hm hmatch h =>
    -- There is a byte at `starS`, since there is one further on.
    obtain ⟨b, hb⟩ : ∃ b, str[starS]? = some b := by
      cases hb : str[starS]? with
      | some b => exact ⟨b, rfl⟩
      | none =>
        rw [drop_eq_nil_of_le (getElem?_eq_none_iff.1 hb), drop_eq_cons hc] at hm
        exact absurd hm.symm (append_ne_nil_of_right_ne_nil _ (cons_ne_nil _ _))
    have hs := drop_eq_cons hb
    refine .starred [] [] rfl rfl .nil (h.trans ?_)
    rw [hseg, hs]
    exact later_segment_back_iff hmatch hstuck (hm.symm.trans hs)

/-- At the end of the string only stars may be left. -/
theorem finish (h : Sound pattern str ⟨p, s, star⟩) (hs : str[s]? = none) :
    GlobYields pattern str ↔ ∀ b ∈ pattern.drop p, b = 42 := by
  have hdrop : str.drop s = [] := drop_eq_nil_of_le (getElem?_eq_none_iff.1 hs)
  cases h with
  | start h =>
    rw [hdrop] at h
    exact h.trans yields_nil_iff
  | starred seg m hseg hm hmatch h =>
    rw [hseg, hm, hdrop] at h
    exact h.trans (later_segment_nil_iff hmatch)

end GlobState.Sound

/-- What the loop has found out when it ends. -/
def GlobOutcome (pattern str : Bytes) : Option ℕ → Prop
  | none => ¬GlobYields pattern str
  | some p => GlobYields pattern str ↔ ∀ b ∈ pattern.drop p, b = 42

/-- The loop keeps its invariant, and what it ends with is a right outcome. -/
theorem globLoop_sound (hg : g.Sound pattern str) {o : Option ℕ} {w w' : World}
    (hrun : globLoop pattern str n g w = .ok (o, w')) : GlobOutcome pattern str o := by
  induction n generalizing g with
  | zero => cases hrun
  | succ n ih =>
    obtain ⟨p, s, star⟩ := g
    unfold globLoop at hrun
    cases hs : str[s]? with
    | none =>
      rw [hs] at hrun
      cases hrun
      exact hg.finish hs
    | some c =>
      rw [hs] at hrun
      dsimp only at hrun
      split_ifs at hrun with hfits hstar
      · obtain ⟨b, hb, hbc⟩ : ∃ b, pattern[p]? = some b ∧ (b = 63 ∨ b = c) := by
          rcases hfits with hb | hb
          · exact ⟨63, hb, .inl rfl⟩
          · exact ⟨c, hb, .inr rfl⟩
        exact ih (hg.forward hb hs hbc) hrun
      · refine ih (hg.meet hstar hs fun hc => hfits ?_) hrun
        exact hc.imp (fun hc => absurd hc (by decide)) fun hc => hstar.trans (congrArg some hc)
      · have hstuck := GlobState.Sound.stuck hs hfits hstar
        rcases star with _ | ⟨starP, starS⟩
        · cases hrun
          cases hg with
          | start h => exact fun hc => hstuck (h.1 hc)
        · exact ih (hg.back hs hstuck) hrun

/-- Nothing is left after the stars exactly when there are only stars. -/
theorem dropWhile_isEmpty_iff (l : Bytes) :
    (l.dropWhile (· == 42)).isEmpty = true ↔ ∀ b ∈ l, b = 42 := by
  rw [List.isEmpty_iff, List.dropWhile_eq_nil_iff]
  exact forall₂_congr fun b _ => beq_iff_eq

/-- `GlobMatch` ends, and decides whether the pattern matches the string, with stars that give way.
-/
theorem globMatch_yields (pattern str : Bytes) :
    ∃ hit, (∀ w, globMatch pattern str w = .ok (hit, w)) ∧
      (hit = true ↔ GlobYields pattern str) := by
  obtain ⟨hit, hhit⟩ := globMatch_returns pattern str
  refine ⟨hit, hhit, ?_⟩
  have hrun := hhit (freshServer.world 0)
  unfold globMatch at hrun
  obtain ⟨⟨o, w⟩, hloop, hrun⟩ := bind_eq_ok hrun
  have hout := globLoop_sound (.start Iff.rfl) hloop
  cases o with
  | none =>
    cases hrun
    exact ⟨fun h => absurd h Bool.false_ne_true, fun h => absurd h hout⟩
  | some p =>
    cases hrun
    exact (dropWhile_isEmpty_iff _).trans hout.symm

/-- Without a `*` in the string no star gives way. -/
theorem globYields_iff_globLanguage (hstr : (42 : UInt8) ∉ str) :
    GlobYields pattern str ↔ GlobLanguage pattern str := by
  refine yields_iff_matches fun b hb c hc hfits => ?_
  rcases hfits with h | h
  · exact absurd (hb.symm.trans h) (by decide)
  · exact hstr (hb ▸ h ▸ hc)

/-- `GlobMatch` ends, and decides whether the string is in the language of the pattern. -/
theorem globMatch_decides (pattern str : Bytes) (hstr : (42 : UInt8) ∉ str) :
    ∃ hit, (∀ w, globMatch pattern str w = .ok (hit, w)) ∧
      (hit = true ↔ GlobLanguage pattern str) := by
  obtain ⟨hit, hhit, hyields⟩ := globMatch_yields pattern str
  exact ⟨hit, hhit, hyields.trans (globYields_iff_globLanguage hstr)⟩

/-- The first place where `ab` matches is not the one that counts. -/
theorem globMatch_decides_back : (42 : UInt8) ∉ bytes "abab" ∧
    ∃ hit, (∀ w, globMatch (bytes "*ab") (bytes "abab") w = .ok (hit, w)) ∧
      (hit = true ↔ GlobLanguage (bytes "*ab") (bytes "abab")) :=
  ⟨by decide, globMatch_decides (bytes "*ab") (bytes "abab") (by decide)⟩

end TinyRedis.Commands

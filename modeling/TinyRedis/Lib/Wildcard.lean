import Mathlib.Data.List.Forall2

/-!
# Patterns with wildcards

A pattern is a list of tokens. A token with the property `Star` matches any run of letters, and any
other token matches one letter that it fits: `Matches`.

A matcher that compares before it looks for a star takes a star for a letter if it stands before one
that it fits: `Yields`. If no letter fits a star, there is no difference (`yields_iff_matches`).

Such a matcher, which keeps only the last star it met, and goes back no further than to this one, is
complete. Once it has compared `seg` with `m`, no other way to match is ahead of it
(`Later.of_segment`), so it does no harm to take the first place where the tokens between two stars
match (`later_segment_star_iff`). If the tokens after the last star do not match here, the star
takes one more letter (`later_segment_back_iff`).
-/

namespace TinyRedis.Lib.Wildcard

open List

variable {τ τ' α : Type} {Star : τ → Prop} {Fits : τ → α → Prop} {t : τ} {p tail seg : List τ}
  {a b : α} {s m : List α}

/-- The words of a pattern. -/
inductive Matches (Star : τ → Prop) (Fits : τ → α → Prop) : List τ → List α → Prop
  | nil : Matches Star Fits [] []
  | star {t : τ} {p : List τ} {s : List α} (run : List α) :
      Star t → Matches Star Fits p s → Matches Star Fits (t :: p) (run ++ s)
  | one {t : τ} {a : α} {p : List τ} {s : List α} :
      ¬Star t → Fits t a → Matches Star Fits p s → Matches Star Fits (t :: p) (a :: s)

/-- Letters may be replaced by others that fit the same tokens. -/
theorem matches_map_iff {f : α → α} (hf : ∀ t ∈ p, ¬Star t → ∀ a ∈ s, Fits t (f a) ↔ Fits t a) :
    Matches Star Fits p (s.map f) ↔ Matches Star Fits p s := by
  constructor
  · intro h
    generalize hw : s.map f = w at h
    induction h generalizing s with
    | nil =>
      rw [map_eq_nil_iff.1 hw]
      exact .nil
    | star run ht _ ih =>
      obtain ⟨run', s', rfl, -, hs'⟩ := map_eq_append_iff.1 hw
      refine .star run' ht (ih (fun t ht hn a ha => ?_) hs')
      exact hf t (mem_cons_of_mem _ ht) hn a (mem_append_right _ ha)
    | one hn hfits _ ih =>
      obtain ⟨a, s', rfl, rfl, hs'⟩ := map_eq_cons_iff.1 hw
      refine .one hn ((hf _ mem_cons_self hn a mem_cons_self).1 hfits) (ih ?_ hs')
      exact fun t ht hn a ha => hf t (mem_cons_of_mem _ ht) hn a (mem_cons_of_mem _ ha)
  · intro h
    induction h with
    | nil => exact .nil
    | star run ht _ ih =>
      rw [map_append]
      refine .star _ ht (ih fun t ht hn a ha => ?_)
      exact hf t (mem_cons_of_mem _ ht) hn a (mem_append_right _ ha)
    | one hn hfits _ ih =>
      refine .one hn ((hf _ mem_cons_self hn _ mem_cons_self).2 hfits) (ih ?_)
      exact fun t ht hn a ha => hf t (mem_cons_of_mem _ ht) hn a (mem_cons_of_mem _ ha)

section Takers

variable {takes : τ → Bool} (htakes : ∀ t, takes t = true ↔ ¬Star t)
include htakes

/-- The tokens that are not stars take a sublist of the word. -/
theorem Matches.exists_sublist (h : Matches Star Fits p s) :
    ∃ s', s'.Sublist s ∧ List.Forall₂ Fits (p.filter takes) s' := by
  induction h with
  | nil => exact ⟨[], .refl _, .nil⟩
  | @star t p s run ht _ ih =>
    obtain ⟨s', hs', hfits⟩ := ih
    refine ⟨s', hs'.trans (sublist_append_right run s), ?_⟩
    rwa [filter_cons_of_neg fun h => (htakes t).1 h ht]
  | @one t a p s ht hfit _ ih =>
    obtain ⟨s', hs', hfits⟩ := ih
    refine ⟨a :: s', hs'.cons_cons a, ?_⟩
    rw [filter_cons_of_pos ((htakes t).2 ht)]
    exact .cons hfit hfits

/-- A shortest word: the stars take nothing. -/
theorem matches_of_forall₂ (h : List.Forall₂ Fits (p.filter takes) s) : Matches Star Fits p s := by
  induction p generalizing s with
  | nil =>
    cases h
    exact .nil
  | cons t p ih =>
    by_cases ht : Star t
    · rw [filter_cons_of_neg fun h => (htakes t).1 h ht] at h
      exact .star [] ht (ih h)
    · rw [filter_cons_of_pos ((htakes t).2 ht)] at h
      cases h with
      | cons hfit h => exact .one ht hfit (ih h)

end Takers

/-- Tokens may be replaced by others that fit the same letters. -/
theorem matches_map_tokens_iff {Star' : τ' → Prop} {Fits' : τ' → α → Prop} {f : τ → τ'}
    (hstar : ∀ t, Star' (f t) ↔ Star t) (hfits : ∀ t, ¬Star t → ∀ a, Fits' (f t) a ↔ Fits t a) :
    Matches Star' Fits' (p.map f) s ↔ Matches Star Fits p s := by
  constructor
  · intro h
    generalize hq : p.map f = q at h
    induction h generalizing p with
    | nil =>
      rw [map_eq_nil_iff.1 hq]
      exact .nil
    | star run ht _ ih =>
      obtain ⟨t, p, rfl, rfl, hp⟩ := map_eq_cons_iff.1 hq
      exact .star run ((hstar t).1 ht) (ih hp)
    | one ht hfit _ ih =>
      obtain ⟨t, p, rfl, rfl, hp⟩ := map_eq_cons_iff.1 hq
      have hn : ¬Star t := mt (hstar t).2 ht
      exact .one hn ((hfits t hn _).1 hfit) (ih hp)
  · intro h
    induction h with
    | nil => exact .nil
    | star run ht _ ih => exact .star run ((hstar _).2 ht) ih
    | one ht hfit _ ih => exact .one (mt (hstar _).1 ht) ((hfits _ ht _).2 hfit) ih

/-- The words of a pattern whose stars give way to letters: a star that stands before a letter that
it fits takes this letter, and nothing else. -/
inductive Yields (Star : τ → Prop) (Fits : τ → α → Prop) : List τ → List α → Prop
  | nil : Yields Star Fits [] []
  | one {t : τ} {a : α} {p : List τ} {s : List α} :
      Fits t a → Yields Star Fits p s → Yields Star Fits (t :: p) (a :: s)
  | star {t : τ} {p : List τ} {s : List α} (run : List α) :
      Star t → (∀ a ∈ (run ++ s).head?, ¬Fits t a) → Yields Star Fits p s →
      Yields Star Fits (t :: p) (run ++ s)

/-- A star may take a single letter. -/
theorem Yields.matches (h : Yields Star Fits p s) : Matches Star Fits p s := by
  induction h with
  | nil => exact .nil
  | @one t a p s hfits _ ih =>
    by_cases ht : Star t
    · exact .star [a] ht ih
    · exact .one ht hfits ih
  | star run ht _ _ ih => exact .star run ht ih

/-- If no letter fits a star, then stars do not give way. -/
theorem yields_iff_matches (hs : ∀ t, Star t → ∀ a ∈ s, ¬Fits t a) :
    Yields Star Fits p s ↔ Matches Star Fits p s := by
  refine ⟨Yields.matches, fun h => ?_⟩
  induction h with
  | nil => exact .nil
  | @star t p s run ht _ ih =>
    refine .star run ht (fun a ha => hs t ht a (mem_of_mem_head? ha)) (ih fun t ht a ha => ?_)
    exact hs t ht a (mem_append_right run ha)
  | one _ hfits _ ih => exact .one hfits (ih fun t ht a ha => hs t ht a (mem_cons_of_mem _ ha))

/-- Only stars are left at the end. -/
theorem yields_nil_iff : Yields Star Fits p [] ↔ ∀ t ∈ p, Star t := by
  constructor
  · intro h
    generalize hs : ([] : List α) = s at h
    induction h with
    | nil => exact fun _ ht => absurd ht not_mem_nil
    | one => cases hs
    | star run ht _ _ ih =>
      intro t' ht'
      rcases mem_cons.1 ht' with rfl | ht'
      · exact ht
      · exact ih (append_eq_nil_iff.1 hs.symm).2.symm t' ht'
  · intro h
    induction p with
    | nil => exact .nil
    | cons t p ih =>
      have hrest := ih fun t' ht' => h t' (mem_cons_of_mem _ ht')
      exact .star [] (h t mem_cons_self) (fun a ha => by cases ha) hrest

/-- A token, star or not, takes a letter that it fits. -/
theorem yields_fits_iff (hfits : Fits t a) :
    Yields Star Fits (t :: p) (a :: s) ↔ Yields Star Fits p s := by
  refine ⟨fun h => ?_, .one hfits⟩
  generalize hw : a :: s = w at h
  cases h with
  | one _ h =>
    cases hw
    exact h
  | star run _ hhead _ => exact absurd hfits (hhead a (by rw [← hw]; rfl))

/-- Letters that were compared with their tokens, one by one. -/
theorem yields_segment_iff (hm : List.Forall₂ Fits seg m) :
    Yields Star Fits (seg ++ tail) (m ++ s) ↔ Yields Star Fits tail s := by
  induction hm with
  | nil => rfl
  | cons hfits _ ih => exact (yields_fits_iff hfits).trans ih

/-! ## After a star -/

/-- The pattern after a star: it matches what is left after some letters. -/
def Later (Star : τ → Prop) (Fits : τ → α → Prop) (p : List τ) (s : List α) : Prop :=
  ∃ s', s' <:+ s ∧ Yields Star Fits p s'

/-- A star that does not give way. -/
theorem yields_star_iff (ht : Star t) (ha : ¬Fits t a) :
    Yields Star Fits (t :: p) (a :: s) ↔ Later Star Fits p (a :: s) := by
  constructor
  · intro h
    generalize hw : a :: s = w at h
    cases h with
    | one hfits _ =>
      cases hw
      exact absurd hfits ha
    | star run _ _ h => exact ⟨_, suffix_append run _, h⟩
  · rintro ⟨s', ⟨run, hrun⟩, h⟩
    rw [← hrun]
    refine .star run ht (fun b hb => ?_) h
    rw [hrun] at hb
    cases hb
    exact ha

/-- A token that is passed takes letters from the front. -/
theorem Later.of_cons (h : Later Star Fits (t :: p) s) : Later Star Fits p s := by
  obtain ⟨s', hs', h⟩ := h
  cases h with
  | one _ h => exact ⟨_, (suffix_cons _ _).trans hs', h⟩
  | star run _ _ h => exact ⟨_, (suffix_append run _).trans hs', h⟩

/-- Where `seg` was compared with `m`, no way to match has passed `seg` earlier than in front of
`s`. At the same place a star of `seg` gives way here as there, and further on it cannot fall back.
-/
theorem Later.of_segment (hm : List.Forall₂ Fits seg m)
    (h : Later Star Fits (seg ++ tail) (m ++ s)) : Later Star Fits tail s := by
  induction hm with
  | nil => exact h
  | cons hfits _ ih =>
    obtain ⟨s', hs', h⟩ := h
    rcases suffix_cons_iff.1 hs' with rfl | hs'
    · exact ih ⟨_, suffix_refl _, (yields_fits_iff hfits).1 h⟩
    · exact ih (Later.of_cons ⟨s', hs', h⟩)

/-- The tokens between two stars may be taken where they match first. -/
theorem later_segment_star_iff (ht : Star t) (ha : ¬Fits t a) (hm : List.Forall₂ Fits seg m) :
    Later Star Fits (seg ++ t :: p) (m ++ a :: s) ↔ Later Star Fits p (a :: s) := by
  constructor
  · exact fun h => (h.of_segment hm).of_cons
  · intro h
    exact ⟨_, suffix_refl _, (yields_segment_iff hm).2 ((yields_star_iff ht ha).2 h)⟩

/-- If the rest does not match here, the star takes one more letter. -/
theorem later_segment_back_iff (hm : List.Forall₂ Fits seg m) (htail : ¬Yields Star Fits tail s)
    {s' : List α} (hb : m ++ s = b :: s') :
    Later Star Fits (seg ++ tail) (b :: s') ↔ Later Star Fits (seg ++ tail) s' := by
  constructor
  · rintro ⟨s₁, hs₁, h⟩
    rcases suffix_cons_iff.1 hs₁ with rfl | hs₁
    · rw [← hb] at h
      exact absurd ((yields_segment_iff hm).1 h) htail
    · exact ⟨s₁, hs₁, h⟩
  · rintro ⟨s₁, hs₁, h⟩
    exact ⟨s₁, hs₁.trans (suffix_cons b s'), h⟩

/-- At the end of the word only stars may be left. -/
theorem later_segment_nil_iff (hm : List.Forall₂ Fits seg m) :
    Later Star Fits (seg ++ tail) (m ++ []) ↔ ∀ t ∈ tail, Star t := by
  have hnil : Yields Star Fits tail [] ↔ ∀ t ∈ tail, Star t := yields_nil_iff
  rw [← hnil]
  constructor
  · intro h
    obtain ⟨s', hs', h⟩ := h.of_segment hm
    rwa [suffix_nil.1 hs'] at h
  · exact fun h => ⟨_, suffix_refl _, (yields_segment_iff hm).2 h⟩

end TinyRedis.Lib.Wildcard

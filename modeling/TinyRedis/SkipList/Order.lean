import Mathlib.Data.Prod.Lex
import TinyRedis.SkipList.Model

/-!
# The order of the pairs

The comparisons of scores come from a linear order of keys, for the scores that compare at all
(`OrderedBy`). A score that does not, such as NaN, is neither below, nor equal to, nor above any
score. `KeyLess` and `KeyEqual` are then the lexicographic order of keys and members.
-/

namespace TinyRedis

variable {σ κ : Type} [Score σ] [LinearOrder κ] {a b : σ × Bytes} {score : σ} {member : Bytes}

/-- Scores compare as their keys do, and scores that are not `ok` compare to nothing. -/
structure OrderedBy (key : σ → κ) (ok : σ → Prop) : Prop where
  lt_iff : ∀ a b, Score.lt a b = true ↔ ok a ∧ ok b ∧ key a < key b
  eq_iff : ∀ a b, Score.eq a b = true ↔ ok a ∧ ok b ∧ key a = key b
  /-- The key of a score says whether it compares. -/
  ok_of_key_eq : ∀ a b, ok a → key a = key b → ok b

namespace SkipList

variable {key : σ → κ} {ok : σ → Prop}

/-- A pair in the order of the list: by score, then by member. -/
def keyOf (key : σ → κ) (e : σ × Bytes) : κ ×ₗ Bytes := toLex (key e.1, e.2)

omit [Score σ] in
/-- The keys are ordered by score, then by member. -/
theorem keyOf_lt_iff :
    keyOf key a < keyOf key b ↔ key a.1 < key b.1 ∨ (key a.1 = key b.1 ∧ a.2 < b.2) := by
  unfold keyOf
  exact Prod.Lex.toLex_lt_toLex

omit [Score σ] [LinearOrder κ] in
/-- Two keys are equal when both parts are. -/
theorem keyOf_eq_iff : keyOf key a = keyOf key b ↔ key a.1 = key b.1 ∧ a.2 = b.2 := by
  unfold keyOf
  rw [EmbeddingLike.apply_eq_iff_eq, Prod.mk.injEq]

/-- `KeyLess` is the order of the pairs, where the scores compare. -/
theorem keyLess_iff_and (hk : OrderedBy key ok) :
    keyLess a.1 a.2 score member = true ↔
      ok a.1 ∧ ok score ∧ keyOf key a < keyOf key (score, member) := by
  have hlt := hk.lt_iff a.1 score
  have heq := hk.eq_iff a.1 score
  rw [keyOf_lt_iff]
  unfold keyLess
  by_cases he : Score.eq a.1 score = true
  · obtain ⟨ha, hs, hkey⟩ := heq.1 he
    simp [he, ha, hs, hkey]
  · have hne : ¬(ok a.1 ∧ ok score ∧ key a.1 = key score) := fun h => he (heq.2 h)
    rw [if_pos (by simpa using he), hlt]
    constructor
    · rintro ⟨ha, hs, hkey⟩
      exact ⟨ha, hs, .inl hkey⟩
    · rintro ⟨ha, hs, hkey | hkey⟩
      · exact ⟨ha, hs, hkey⟩
      · exact absurd ⟨ha, hs, hkey.1⟩ hne

/-- `KeyLess` is the order of the keys. -/
theorem keyLess_iff (hk : OrderedBy key ok) (member : Bytes) (ha : ok a.1) (hs : ok score) :
    keyLess a.1 a.2 score member = true ↔ keyOf key a < keyOf key (score, member) := by
  rw [keyLess_iff_and hk, and_iff_right ha, and_iff_right hs]

/-- `KeyEqual` is equality of the pairs, as the order sees them, where the scores compare. -/
theorem keyEqual_iff_and (hk : OrderedBy key ok) :
    keyEqual a.1 a.2 score member = true ↔
      ok a.1 ∧ ok score ∧ keyOf key a = keyOf key (score, member) := by
  rw [keyOf_eq_iff]
  unfold keyEqual
  rw [Bool.and_eq_true, hk.eq_iff, decide_eq_true_eq]
  tauto

/-- `KeyEqual` is the equality of the keys. -/
theorem keyEqual_iff (hk : OrderedBy key ok) (member : Bytes) (ha : ok a.1) :
    keyEqual a.1 a.2 score member = true ↔ keyOf key a = keyOf key (score, member) := by
  rw [keyEqual_iff_and hk, and_iff_right ha, and_iff_right_iff_imp]
  intro h
  exact hk.ok_of_key_eq _ _ ha (keyOf_eq_iff.1 h).1

/-- The condition of the walks of `Rank` is the order of the pairs. -/
theorem rankTest_iff (hk : OrderedBy key ok) (member : Bytes) (ha : ok a.1) (hs : ok score) :
    (Score.lt a.1 score || (Score.eq a.1 score && decide (a.2 ≤ member))) = true ↔
      keyOf key a ≤ keyOf key (score, member) := by
  unfold keyOf
  rw [Prod.Lex.toLex_le_toLex, Bool.or_eq_true, Bool.and_eq_true, decide_eq_true_eq, hk.lt_iff,
    hk.eq_iff]
  simp [ha, hs]

end SkipList

end TinyRedis

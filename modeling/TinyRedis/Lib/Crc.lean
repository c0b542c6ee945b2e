import Mathlib.Logic.Function.Iterate

/-!
# Cyclic redundancy checks

A shift register of width `w` with a polynomial that has its highest bit set, in the reflected form:
bits enter at the low end. One shift is linear in exclusive or and can be undone, so a difference in
the state is never lost (`run_injective`). As many bits as fit into the register are a word that is
added to the state before it is shifted (`foldl_bitStep`), so no two strings of as many bytes lead
from one state to the same state (`run_window_injective`).
-/

namespace TinyRedis.Lib.Crc

open List

variable {w : ℕ} {poly : BitVec w} {bs bs' : List (BitVec 8)} {c : BitVec w}

/-- One shift of the register. -/
def shift (poly c : BitVec w) : BitVec w :=
  if c.getLsbD 0 then poly ^^^ (c >>> 1) else c >>> 1

/-- A shift is linear. -/
theorem shift_xor (a b : BitVec w) : shift poly (a ^^^ b) = shift poly a ^^^ shift poly b := by
  have hcancel : ∀ x y : BitVec w, poly ^^^ x ^^^ (poly ^^^ y) = x ^^^ y := by
    intro x y
    rw [BitVec.xor_assoc, ← BitVec.xor_assoc x, BitVec.xor_comm x, BitVec.xor_assoc,
      ← BitVec.xor_assoc, BitVec.xor_self, BitVec.zero_xor]
  unfold shift
  rw [BitVec.getLsbD_xor, BitVec.ushiftRight_xor_distrib]
  cases a.getLsbD 0 <;> cases b.getLsbD 0
  · rfl
  · show poly ^^^ (a >>> 1 ^^^ b >>> 1) = a >>> 1 ^^^ (poly ^^^ b >>> 1)
    rw [← BitVec.xor_assoc, BitVec.xor_comm poly, BitVec.xor_assoc]
  · exact (BitVec.xor_assoc _ _ _).symm
  · exact (hcancel _ _).symm

/-- Nothing but zero is shifted to zero: the bit that falls out is seen at the highest place. -/
theorem eq_zero_of_shift (hpoly : poly.msb = true) (h : shift poly c = 0#w) : c = 0#w := by
  have hw : 0 < w := by
    rcases Nat.eq_zero_or_pos w with rfl | hw
    · rw [BitVec.eq_nil poly] at hpoly
      cases hpoly
    · exact hw
  have hlow : c.getLsbD 0 = false := by
    by_contra hc
    rw [Bool.not_eq_false] at hc
    have hmsb := congrArg BitVec.msb h
    rw [shift, if_pos hc, BitVec.msb_xor, hpoly, BitVec.msb_ushiftRight] at hmsb
    simp at hmsb
  rw [shift, hlow] at h
  refine BitVec.eq_of_getLsbD_eq fun i hi => ?_
  rw [BitVec.getLsbD_zero]
  cases i with
  | zero => exact hlow
  | succ i =>
    have hbit := congrArg (fun x : BitVec w => x.getLsbD i) h
    simpa [Nat.add_comm] using hbit

/-- A shift can be undone. -/
theorem shift_injective (hpoly : poly.msb = true) : Function.Injective (shift poly) := by
  intro a b h
  have hzero : shift poly (a ^^^ b) = 0#w := by rw [shift_xor, h, BitVec.xor_self]
  exact BitVec.xor_eq_zero_iff.1 (eq_zero_of_shift hpoly hzero)

/-- Some shifts are linear. -/
theorem iterate_xor (n : ℕ) (a b : BitVec w) :
    (shift poly)^[n] (a ^^^ b) = (shift poly)^[n] a ^^^ (shift poly)^[n] b := by
  induction n generalizing a b with
  | zero => rfl
  | succ n ih => rw [Function.iterate_succ_apply, shift_xor, ih]; rfl

/-- Low zeros are shifted out. -/
theorem iterate_eq_ushiftRight {n : ℕ} (h : ∀ i < n, c.getLsbD i = false) :
    (shift poly)^[n] c = c >>> n := by
  induction n with
  | zero => simp
  | succ n ih =>
    have hlow : (c >>> n).getLsbD 0 = false := by simpa using h n (by omega)
    rw [Function.iterate_succ_apply', ih fun i hi => h i (by omega), shift, hlow,
      BitVec.shiftRight_add]
    rfl

/-- What is above low zeros, and stays in the register, is shifted down to the lowest place. -/
theorem iterate_shiftLeft {n : ℕ} (h : ∀ i, w ≤ i + n → c.getLsbD i = false) :
    (shift poly)^[n] (c <<< n) = c := by
  rw [iterate_eq_ushiftRight fun i hi => by simp [hi]]
  refine BitVec.eq_of_getLsbD_eq fun i hi => ?_
  rw [BitVec.getLsbD_ushiftRight, BitVec.getLsbD_shiftLeft, Nat.add_sub_cancel_left,
    decide_eq_false (by omega : ¬n + i < n)]
  by_cases hlt : n + i < w
  · simp [hlt]
  · simp [hlt, h i (by omega)]

/-! ## Bits -/

/-- A bit enters the register. -/
def bitStep (poly c : BitVec w) (b : Bool) : BitVec w :=
  shift poly (c ^^^ (BitVec.ofBool b).setWidth w)

/-- The bits of a word, the least significant first. -/
def ofBits : List Bool → BitVec w
  | [] => 0#w
  | b :: bs => (BitVec.ofBool b).setWidth w ^^^ ofBits bs <<< 1

/-- The bits of a word. -/
theorem getLsbD_ofBits (bs : List Bool) (i : ℕ) :
    (ofBits bs : BitVec w).getLsbD i = (decide (i < w) && bs.getD i false) := by
  induction bs generalizing i with
  | nil => simp [ofBits]
  | cons b bs ih =>
    cases i with
    | zero => simp [ofBits]
    | succ i =>
      rw [ofBits, BitVec.getLsbD_xor, BitVec.getLsbD_shiftLeft, ih]
      by_cases hi : i + 1 < w
      · simp [hi, show i < w by omega]
      · simp [hi]

/-- The bits that fit into the register are added to the state before it is shifted. -/
theorem foldl_bitStep (c : BitVec w) (bs : List Bool) (h : bs.length ≤ w) :
    bs.foldl (bitStep poly) c = (shift poly)^[bs.length] (c ^^^ ofBits bs) := by
  induction bs generalizing c with
  | nil => simp [ofBits]
  | cons b bs ih =>
    rw [length_cons] at h
    have hrest : shift poly (ofBits bs <<< 1) = ofBits bs := by
      refine iterate_shiftLeft (n := 1) fun i hi => ?_
      rw [getLsbD_ofBits, getD_eq_getElem?_getD, getElem?_eq_none (by omega)]
      exact Bool.and_false _
    calc (b :: bs).foldl (bitStep poly) c
        = bs.foldl (bitStep poly) (bitStep poly c b) := rfl
      _ = (shift poly)^[bs.length] (bitStep poly c b ^^^ ofBits bs) := ih _ (by omega)
      _ = (shift poly)^[bs.length]
          (shift poly (c ^^^ (BitVec.ofBool b).setWidth w ^^^ ofBits bs <<< 1)) := by
        rw [shift_xor, hrest]
        rfl
      _ = (shift poly)^[bs.length + 1] (c ^^^ ofBits (b :: bs)) := by
        rw [Function.iterate_succ_apply, BitVec.xor_assoc]
        rfl

/-- A word has the bits that it was made of. -/
theorem ofBits_injective {bs bs' : List Bool} (hlen : bs.length = bs'.length) (hw : bs.length ≤ w)
    (h : (ofBits bs : BitVec w) = ofBits bs') : bs = bs' := by
  refine ext_getElem hlen fun i hi hi' => ?_
  have hbit := congrArg (fun x : BitVec w => x.getLsbD i) h
  rw [getLsbD_ofBits, getLsbD_ofBits, decide_eq_true (Nat.lt_of_lt_of_le hi hw)] at hbit
  simpa [hi, hi'] using hbit

/-! ## Bytes -/

/-- A byte enters the register. -/
def step (poly c : BitVec w) (b : BitVec 8) : BitVec w := (shift poly)^[8] (c ^^^ b.setWidth w)

/-- The lowest eight places and the rest of the register are shifted one by one: the shifts of the
former can be read from a table. -/
theorem step_eq_table (c : BitVec w) (b : BitVec 8) :
    step poly c b = (shift poly)^[8] ((c.setWidth 8 ^^^ b).setWidth w) ^^^ (c >>> 8) := by
  have hsplit : c ^^^ b.setWidth w = (c.setWidth 8 ^^^ b).setWidth w ^^^ (c >>> 8) <<< 8 := by
    refine BitVec.eq_of_getLsbD_eq fun i hi => ?_
    rcases Nat.lt_or_ge i 8 with hlt | hge
    · simp [hlt, hi]
    · simp [BitVec.getLsbD_of_ge b i hge, Nat.not_lt.2 hge, hi, Nat.add_sub_cancel' hge]
  have hhigh : (shift poly)^[8] ((c >>> 8) <<< 8) = c >>> 8 := by
    refine iterate_shiftLeft fun i hi => ?_
    rw [BitVec.getLsbD_ushiftRight, BitVec.getLsbD_of_ge c _ (by omega)]
  rw [step, hsplit, iterate_xor, hhigh]

/-- The bits of a byte, the least significant first. -/
def bitsOf (b : BitVec 8) : List Bool := (List.range 8).map b.getLsbD

/-- There are eight of them. -/
theorem length_bitsOf (b : BitVec 8) : (bitsOf b).length = 8 := by
  rw [bitsOf, length_map, length_range]

/-- Strings are told apart by their bits. -/
theorem flatMap_bitsOf_injective (h : bs.flatMap bitsOf = bs'.flatMap bitsOf) : bs = bs' := by
  have hne : ∀ b (bs : List (BitVec 8)), (b :: bs).flatMap bitsOf ≠ [] := fun _ _ => nofun
  induction bs generalizing bs' with
  | nil =>
    cases bs' with
    | nil => rfl
    | cons b' bs' => exact absurd h.symm (hne b' bs')
  | cons b bs ih =>
    cases bs' with
    | nil => exact absurd h (hne b bs)
    | cons b' bs' =>
      obtain ⟨hb, hbs⟩ :=
        append_inj h ((length_bitsOf b).trans (length_bitsOf b').symm)
      rw [ih hbs]
      congr 1
      exact BitVec.eq_of_getLsbD_eq fun i hi => map_inj_left.1 hb i (mem_range.2 hi)

/-- A byte enters the register as its bits do. -/
theorem foldl_bitsOf (c : BitVec w) (b : BitVec 8) (hw : 8 ≤ w) :
    (bitsOf b).foldl (bitStep poly) c = step poly c b := by
  have hbits : (ofBits (bitsOf b) : BitVec w) = b.setWidth w := by
    refine BitVec.eq_of_getLsbD_eq fun i hi => ?_
    rw [getLsbD_ofBits, BitVec.getLsbD_setWidth]
    by_cases h8 : i < 8
    · simp [bitsOf, getD_eq_getElem?_getD, h8]
    · simp [bitsOf, getD_eq_getElem?_getD, h8, BitVec.getLsbD_of_ge b i (by omega)]
  have hlen := length_bitsOf b
  rw [foldl_bitStep c _ (by omega), hlen, hbits]
  rfl

/-- Some bytes enter the register. -/
def run (poly : BitVec w) : BitVec w → List (BitVec 8) → BitVec w := List.foldl (step poly)

/-- They enter as their bits do. -/
theorem run_eq_foldl_bitStep (hw : 8 ≤ w) (c : BitVec w) (bs : List (BitVec 8)) :
    run poly c bs = (bs.flatMap bitsOf).foldl (bitStep poly) c := by
  have hstep : (fun c b => (bitsOf b).foldl (bitStep poly) c) = step poly :=
    funext fun c => funext fun b => foldl_bitsOf c b hw
  rw [foldl_flatMap, hstep]
  rfl

/-- A difference in the state stays, whatever enters. -/
theorem run_injective (hpoly : poly.msb = true) (bs : List (BitVec 8)) :
    Function.Injective fun c => run poly c bs := by
  induction bs with
  | nil => exact Function.injective_id
  | cons b bs ih =>
    refine ih.comp fun c c' h => ?_
    exact (BitVec.xor_left_inj _).1 ((shift_injective hpoly).iterate 8 h)

/-- Two strings of the same length that fit into the register lead from one state to two. -/
theorem run_window_injective (hpoly : poly.msb = true) (h8 : 8 ≤ w) (c : BitVec w)
    (hlen : bs.length = bs'.length) (hw : 8 * bs.length ≤ w) (h : run poly c bs = run poly c bs') :
    bs = bs' := by
  have hlength : ∀ bs : List (BitVec 8), (bs.flatMap bitsOf).length = 8 * bs.length := by
    intro bs
    induction bs with
    | nil => rfl
    | cons b bs ih =>
      rw [flatMap_cons, length_append, ih, length_bitsOf, length_cons]
      omega
  have hbits : (bs.flatMap bitsOf).length = (bs'.flatMap bitsOf).length := by
    rw [hlength, hlength, hlen]
  rw [run_eq_foldl_bitStep h8, run_eq_foldl_bitStep h8, foldl_bitStep c _ (by rw [hlength]; omega),
    foldl_bitStep c _ (by rw [hlength]; omega), ← hbits] at h
  exact flatMap_bitsOf_injective (ofBits_injective hbits (by rw [hlength]; omega)
    ((BitVec.xor_right_inj _).1 ((shift_injective hpoly).iterate _ h)))

/-- One place where two strings differ, in a window that fits into the register, is seen at the end,
whatever comes before and after. -/
theorem run_ne_of_window (hpoly : poly.msb = true) (h8 : 8 ≤ w) (c : BitVec w)
    (pre post : List (BitVec 8)) (hlen : bs.length = bs'.length) (hw : 8 * bs.length ≤ w)
    (hne : bs ≠ bs') :
    run poly c (pre ++ bs ++ post) ≠ run poly c (pre ++ bs' ++ post) := by
  intro h
  have hsplit : ∀ xs ys : List (BitVec 8), ∀ c,
      run poly c (xs ++ ys) = run poly (run poly c xs) ys :=
    fun xs ys c => foldl_append
  rw [hsplit, hsplit, hsplit (pre ++ bs'), hsplit pre bs'] at h
  exact hne (run_window_injective hpoly h8 _ hlen hw (run_injective hpoly post h))

end TinyRedis.Lib.Crc

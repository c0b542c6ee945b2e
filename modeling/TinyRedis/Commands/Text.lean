import TinyRedis.Commands.Monad

/-!
# Numbers, score bounds, and patterns in arguments

`ParseIntStrict` and its relatives accept a string only as a whole. `FormatLongDouble` prints into a
buffer of 128 bytes, but goes on from the length that `snprintf` returns, which is that of the whole
text.
-/

namespace TinyRedis.Commands

/-- `std::sort` of strings. -/
def sorted (l : List Bytes) : List Bytes := l.insertionSort (· ≤ ·)

/-- Lists with the same elements are sorted into the same list. -/
theorem sorted_eq_of_perm {l l' : List Bytes} (h : l.Perm l') : sorted l = sorted l' := by
  have hperm : (sorted l).Perm (sorted l') :=
    (List.perm_insertionSort _ l).trans (h.trans (List.perm_insertionSort _ l').symm)
  exact hperm.eq_of_pairwise' (List.pairwise_insertionSort (· ≤ ·) l)
    (List.pairwise_insertionSort (· ≤ ·) l')

/-! ## Numbers -/

/-- `ParseIntStrict`. -/
def parseIntStrict (s : Bytes) : Option ℤ :=
  if s = [] then none
  else
    let p := strtoll s
    if p.erange ∨ p.length ≠ s.length then none else some p.value

/-- `ParseDoubleStrict`. -/
def parseDoubleStrict (fl : Floats) (s : Bytes) : Option Double :=
  if s = [] then none
  else
    let (v, n) := fl.strtod s
    if n ≠ s.length then none else some v

/-- `ParseLongDoubleStrict`. -/
def parseLongDoubleStrict (fl : Floats) (s : Bytes) : Option LongDouble :=
  if s = [] then none
  else
    let (v, n) := fl.strtold s
    if n ≠ s.length then none else some v

/-- `FormatDouble`. -/
def formatDouble (fl : Floats) (d : Double) : Bytes :=
  if d.isNaN then bytes "nan"
  else if d.isInf then if Score.lt Score.zero d then bytes "inf" else bytes "-inf"
  else if Score.eq d Score.zero then bytes "0"
  else
    -- The shortest text that is read back as the same number.
    match [15, 16, 17].find? fun prec => Score.eq (fl.strtod (fl.printG prec d)).1 d with
    | some prec => fl.printG prec d
    | none => fl.printG 17 d

/-- The text without the zeros at its end, and without a point that is then last. -/
def trimZeros (s : Bytes) : Bytes :=
  let r := s.reverse.dropWhile (· == 48)
  match r with
  | 46 :: r => r.reverse
  | _ => r.reverse

/-- `FormatLongDouble`. -/
def formatLongDouble (fl : Floats) (d : LongDouble) : M Bytes :=
  if fl.isNaNLong d then pure (bytes "nan")
  else if fl.isInfLong d then pure (if fl.isPosLong d then bytes "inf" else bytes "-inf")
  else if fl.isZeroLong d then pure (bytes "0")
  else
    let text := fl.printLong d
    let buf := text.take 127
    if text = [] then pure (bytes "0")
    else if 46 ∈ buf then
      -- `buf + l - 1` is past the buffer, or at its last byte, which is NUL.
      if 128 < text.length then fault .outOfRange
      else if text.length = 128 then pure buf
      else
        let s := trimZeros buf
        pure (if s = bytes "-0" then bytes "0" else s)
    else pure (if text = bytes "-0" then bytes "0" else buf)

/-! ## Score bounds -/

/-- `ScoreBound`, of which `ok` is set. -/
structure ScoreBound where
  v : Double
  exclusive : Bool

/-- `ParseScoreBound`, `none` if `ok` is not set. -/
def parseScoreBound (fl : Floats) (s : Bytes) : Option ScoreBound :=
  let (exclusive, t) := match s with
    | 40 :: t => (true, t)
    | _ => (false, s)
  if t = bytes "-inf" ∨ t = bytes "-infinity" then some ⟨Double.negHugeVal, exclusive⟩
  else if t = bytes "+inf" ∨ t = bytes "inf" ∨ t = bytes "infinity" then
    some ⟨Double.hugeVal, exclusive⟩
  else (parseDoubleStrict fl t).map fun d => ⟨d, exclusive⟩

/-- `ToRange`. -/
def toRange (min max : ScoreBound) : ScoreRange Double :=
  ⟨min.v, max.v, min.exclusive, max.exclusive⟩

/-! ## Patterns -/

/-- The state of `GlobMatch`: the positions in the pattern and the string, and those to go back to,
after the last `*`. -/
structure GlobState where
  p : ℕ
  s : ℕ
  star : Option (ℕ × ℕ)

/-- The first loop of `GlobMatch`: the position in the pattern at its end, or `none` for
`return false`. Without fuel it goes on forever. -/
def globLoop (pattern str : Bytes) : ℕ → GlobState → M (Option ℕ)
  | 0, _ => fault .diverges
  | n + 1, g =>
    match str[g.s]? with
    | none => pure (some g.p)
    | some c =>
      if pattern[g.p]? = some 63 ∨ pattern[g.p]? = some c then
        globLoop pattern str n { g with p := g.p + 1, s := g.s + 1 }
      else if pattern[g.p]? = some 42 then
        globLoop pattern str n { g with p := g.p + 1, star := some (g.p, g.s) }
      else
        match g.star with
        | some (starP, starS) =>
          globLoop pattern str n ⟨starP + 1, starS + 1, some (starP, starS + 1)⟩
        | none => pure none

/-- `GlobMatch`. Between two steps back the positions only go up, and there is no more than one step
back for each byte of the string. -/
def globMatch (pattern str : Bytes) : M Bool := do
  let fuel := (str.length + 1) * (pattern.length + str.length + 2)
  match ← globLoop pattern str fuel ⟨0, 0, none⟩ with
  | none => pure false
  | some p => pure (((pattern.drop p).dropWhile (· == 42)).isEmpty)

end TinyRedis.Commands

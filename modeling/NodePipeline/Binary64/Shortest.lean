import NodePipeline.Binary64.Basic

/-!
# Decimal text of binary64 numbers

`shortest` finds the fewest decimal digits that read back as the number, and of
those the nearest to it, a tie going up. Texts are positional, never with an
exponent: `display` shows the shortest digits, and `displayTenths` shows a whole
number exactly, with one zero behind the point.
-/

namespace NodePipeline.Binary64

/-- The quotient `num / den` lies among the reals that round to the number with
significand `m` at scale `q`; both ends belong to them iff `m` is even. -/
def roundsTo (m : Nat) (q : Int) (num den : Nat) : Bool :=
  -- In units of a quarter of the last place.
  let below := if m = 0x10000000000000 ∧ -1074 < q then 1 else 2
  let low := 4 * m - below
  let high := 4 * m + 2
  let (n, d) := scaleRatio num den (q - 2)
  if m % 2 = 0 then decide (low * d ≤ n ∧ n ≤ high * d)
  else decide (low * d < n ∧ n < high * d)

/-- `k * 10 ^ e` as a quotient. -/
def decimalRatio (k : Nat) (e : Int) : Nat × Nat :=
  if 0 ≤ e then (k * Nat.pow 10 e.toNat, 1) else (k, Nat.pow 10 (-e).toNat)

/-- On the grid of multiples of `10 ^ e`: the nearer of the two neighbours of
`num / den` that rounds back to the number, the upper one on a tie. -/
def onGrid (m : Nat) (q : Int) (num den : Nat) (e : Int) : Option Nat :=
  let (n, d) :=
    if 0 ≤ e then (num, den * Nat.pow 10 e.toNat) else (num * Nat.pow 10 (-e).toNat, den)
  let lower := n / d
  let upper := lower + 1
  let good (k : Nat) : Bool := let (kn, kd) := decimalRatio k e; roundsTo m q kn kd
  let upperNearer : Bool := decide (d ≤ 2 * (n % d))
  if good lower && good upper then some (if upperNearer then upper else lower)
  else if good lower then some lower
  else if good upper then some upper
  else none

/-- Tries finer and finer grids. -/
def searchGrids (m : Nat) (q : Int) (num den : Nat) : Nat → Int → Nat × Int
  | 0, e => (0, e)
  | steps + 1, e =>
      match onGrid m q num den e with
      | some k => (k, e)
      | none => searchGrids m q num den steps (e - 1)

/-- Digits `k` and exponent `e` of the shortest decimal `k * 10 ^ e` that reads
back as the magnitude of a finite number. -/
def shortest (x : Binary64) : Nat × Int :=
  if x.isZero then (0, 0)
  else
    let (num, den) := x.toRatio
    -- An exponent at or above that of the leading digit.
    let top : Int := ((Nat.log2 num : Int) - (Nat.log2 den : Int)) * 30103 / 100000 + 2
    searchGrids x.significand x.scale num den 40 top

/-- Writes `k * 10 ^ e` without an exponent; no point if there is no fraction. -/
def positional (k : Nat) (e : Int) : String :=
  let digits := (Nat.toDigits 10 k)
  if 0 ≤ e then String.ofList (digits ++ List.replicate e.toNat '0')
  else
    let places := (-e).toNat
    let padded := List.replicate (places + 1 - digits.length) '0' ++ digits
    let whole := padded.take (padded.length - places)
    String.ofList (whole ++ '.' :: padded.drop (padded.length - places))

/-- Removes the trailing zeros of the digits, raising the exponent. -/
def trimZeros : Nat → Nat → Int → Nat × Int
  | 0, k, e => (k, e)
  | steps + 1, k, e => if k ≠ 0 ∧ k % 10 = 0 then trimZeros steps (k / 10) (e + 1) else (k, e)

def signText (x : Binary64) : String := if x.isNegative then "-" else ""

/-- The shortest digits, positionally; a whole number has no point. -/
def display (x : Binary64) : String :=
  if x.isNaN then "NaN"
  else if x.isInfinite then x.signText ++ "inf"
  else
    let (k, e) := x.shortest
    let (k, e) := trimZeros 20 k e
    x.signText ++ positional k e

/-- The number is finite and has no fraction. -/
def isWhole (x : Binary64) : Bool :=
  x.isFinite && (let (num, den) := x.toRatio; num % den == 0)

/-- A whole number's exact digits with one zero behind the point; any other
number as in `display`. -/
def displayTenths (x : Binary64) : String :=
  if x.isWhole then
    let (num, den) := x.toRatio
    x.signText ++ toString (num / den) ++ ".0"
  else x.display

end NodePipeline.Binary64

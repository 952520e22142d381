/-!
# Binary64 numbers

Floating-point numbers as their sixty-four bits, so that equality is equality
of bits and every NaN is kept. A finite number is `significand * 2 ^ scale`.
`roundRatio` rounds a non-negative quotient to the nearest number, ties to an
even significand; arithmetic and the reading of decimals go through it.
-/

namespace NodePipeline

structure Binary64 where
  bits : UInt64
deriving DecidableEq

namespace Binary64

def zero : Binary64 := ⟨0⟩

instance : Inhabited Binary64 := ⟨zero⟩

def exponentField (x : Binary64) : Nat := x.bits.toNat / 0x10000000000000 % 2048

def fractionField (x : Binary64) : Nat := x.bits.toNat % 0x10000000000000

def isNegative (x : Binary64) : Bool := decide (0x8000000000000000 ≤ x.bits.toNat)

def isFinite (x : Binary64) : Bool := decide (x.exponentField < 2047)

def isNaN (x : Binary64) : Bool := decide (x.exponentField = 2047 ∧ x.fractionField ≠ 0)

def isInfinite (x : Binary64) : Bool := decide (x.exponentField = 2047 ∧ x.fractionField = 0)

def isZero (x : Binary64) : Bool := decide (x.exponentField = 0 ∧ x.fractionField = 0)

def significand (x : Binary64) : Nat :=
  if x.exponentField = 0 then x.fractionField else x.fractionField + 0x10000000000000

def scale (x : Binary64) : Int :=
  if x.exponentField = 0 then -1074 else (x.exponentField : Int) - 1075

/-- The magnitude bits of infinity. -/
def infinityBits : Nat := 2047 * 0x10000000000000

/-- A number from its sign and its magnitude bits. -/
def ofMagnitude (negative : Bool) (magnitude : Nat) : Binary64 :=
  ⟨UInt64.ofNat (if negative then 0x8000000000000000 + magnitude else magnitude)⟩

/-- The NaN that arises from operands that are not NaN. -/
def defaultNaN : Binary64 := ⟨0xfff8000000000000⟩

/-- The nearest natural number to a quotient, a half going to the even neighbour. -/
def roundHalfEven (num den : Nat) : Nat :=
  let q := num / den
  let twice := 2 * (num % den)
  if twice < den then q
  else if den < twice then q + 1
  else q + q % 2

/-- `num / den * 2 ^ (-e)` as a pair of natural numbers. -/
def scaleRatio (num den : Nat) (e : Int) : Nat × Nat :=
  if 0 ≤ e then (num, den * Nat.pow 2 e.toNat) else (num * Nat.pow 2 (-e).toNat, den)

/-- The exponent at which the quotient has a significand of fifty-three bits,
or the least exponent if the quotient is too small for that. -/
def ratioExponent (num den : Nat) : Int :=
  let low : Int := (Nat.log2 num : Int) - (Nat.log2 den : Int) - 53
  let (n, d) := scaleRatio num den low
  max (if d * 0x20000000000000 ≤ n then low + 1 else low) (-1074)

/-- The magnitude bits of the number nearest to `num / den`. -/
def roundRatio (num den : Nat) : Nat :=
  if num = 0 ∨ den = 0 then 0
  else
    let e := ratioExponent num den
    let (n, d) := scaleRatio num den e
    min ((e + 1074).toNat * 0x10000000000000 + roundHalfEven n d) infinityBits

/-- The number nearest to `significand * 2 ^ e`. -/
def ofScaled (negative : Bool) (significand : Nat) (e : Int) : Binary64 :=
  let (num, den) := scaleRatio significand 1 (-e)
  ofMagnitude negative (roundRatio num den)

/-- The number nearest to an integer. -/
def ofInt (i : Int) : Binary64 := ofMagnitude (decide (i < 0)) (roundRatio i.natAbs 1)

/-- The magnitude of a finite number as a quotient. -/
def toRatio (x : Binary64) : Nat × Nat := scaleRatio x.significand 1 (-x.scale)

/-- Equality of numbers: zeros are equal, and a NaN equals nothing. -/
def sameNumber (x y : Binary64) : Bool :=
  !x.isNaN && !y.isNaN && (x == y || (x.isZero && y.isZero))

/-- The number is below or equal to zero; a NaN is not. -/
def isNonPositive (x : Binary64) : Bool := !x.isNaN && (x.isZero || x.isNegative)

end Binary64

end NodePipeline

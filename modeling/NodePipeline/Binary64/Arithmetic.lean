import NodePipeline.Binary64.Basic

/-!
# Binary64 arithmetic

The four operations and negation. Each is the exact result, rounded once. An
operand that is a NaN comes out quiet, the first one first; a NaN that arises
from other operands is `defaultNaN`.
-/

namespace NodePipeline.Binary64

/-- Flips the sign bit, also of a NaN. -/
def neg (x : Binary64) : Binary64 := ⟨x.bits ^^^ 0x8000000000000000⟩

def quiet (x : Binary64) : Binary64 := ⟨x.bits ||| 0x0008000000000000⟩

/-- Hands a NaN operand through; only other operands reach the operation. -/
def withNaN (x y : Binary64) (op : Binary64) : Binary64 :=
  if x.isNaN then x.quiet else if y.isNaN then y.quiet else op

/-- The signed integer that a finite number is at a scale not above its own. -/
def atScale (x : Binary64) (q : Int) : Int :=
  let m : Int := (x.significand * Nat.pow 2 (x.scale - q).toNat : Nat)
  if x.isNegative then -m else m

def addFinite (x y : Binary64) : Binary64 :=
  let q := min x.scale y.scale
  let sum := x.atScale q + y.atScale q
  if sum = 0 then ofMagnitude (x.isNegative && y.isNegative) 0
  else ofScaled (decide (sum < 0)) sum.natAbs q

def add (x y : Binary64) : Binary64 :=
  withNaN x y
    (if x.isInfinite then
      if y.isInfinite && x.isNegative != y.isNegative then defaultNaN else x
    else if y.isInfinite then y
    else addFinite x y)

/-- Adds the negated operand; a NaN operand keeps its own sign. -/
def sub (x y : Binary64) : Binary64 := withNaN x y (add x y.neg)

def mul (x y : Binary64) : Binary64 :=
  let negative := x.isNegative != y.isNegative
  withNaN x y
    (if x.isInfinite || y.isInfinite then
      if x.isZero || y.isZero then defaultNaN else ofMagnitude negative infinityBits
    else ofScaled negative (x.significand * y.significand) (x.scale + y.scale))

def div (x y : Binary64) : Binary64 :=
  let negative := x.isNegative != y.isNegative
  withNaN x y
    (if x.isInfinite then
      if y.isInfinite then defaultNaN else ofMagnitude negative infinityBits
    else if y.isInfinite then ofMagnitude negative 0
    else if y.isZero then
      if x.isZero then defaultNaN else ofMagnitude negative infinityBits
    else
      let (num, den) := scaleRatio x.significand y.significand (y.scale - x.scale)
      ofMagnitude negative (roundRatio num den))

end NodePipeline.Binary64

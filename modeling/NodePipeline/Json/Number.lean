import NodePipeline.Json.Basic
import NodePipeline.Binary64.Decimal
import NodePipeline.Binary64.Arithmetic

/-!
# The value of a JSON number

The digits are taken into a significand as long as it stays below `2 ^ 64`; the
number is the significand, rounded, times or divided by a power of ten, rounded
again. A number that gets infinite on the way has no value.
-/

namespace NodePipeline.JsonNumber

/-- Takes digits into the significand while it fits; the result is the significand
and how many digits it took. -/
def accumulate (significand : Nat) : List Char → Nat × Nat
  | [] => (significand, 0)
  | c :: rest =>
      let next := 10 * significand + (c.toNat - 48)
      if 0x10000000000000000 ≤ next then (significand, 0)
      else
        let (s, taken) := accumulate next rest
        (s, taken + 1)

/-- The number nearest to a power of ten that is in range. -/
def powerOfTen (n : Nat) : Binary64 := Binary64.ofDecimal false 1 n

/-- Divides by `10 ^ 308` until the rest of the exponent is in range, then by
what is left. -/
def scaleDown : Nat → Binary64 → Nat → Binary64
  | 0, x, _ => x
  | steps + 1, x, places =>
      if x.isZero then x
      else if places ≤ 308 then x.div (powerOfTen places)
      else scaleDown steps (x.div (powerOfTen 308)) (places - 308)

/-- The significand times a power of ten. Three divisions bring any significand to zero. -/
def scaled (significand : Nat) (exponent : Int) : Option Binary64 :=
  let x := Binary64.ofInt significand
  if exponent < 0 then some (scaleDown 3 x exponent.natAbs)
  else if x.isZero then some x
  else if 308 < exponent then none
  else
    let product := x.mul (powerOfTen exponent.toNat)
    if product.isInfinite then none else some product

/-- The magnitude of the number. -/
def magnitude (n : JsonNumber) : Option Binary64 :=
  let (significand, taken) := accumulate 0 n.whole
  let dropped := n.whole.length - taken
  let (significand, places) := accumulate significand n.fraction
  let exponent := Binary64.natOfDigits n.exponent
  if 0x80000000 ≤ exponent then
    if significand = 0 || n.exponentNegative then some .zero else none
  else
    scaled significand
      (((dropped : Int) - places) + (if n.exponentNegative then -(exponent : Int) else exponent))

def toBinary64? (n : JsonNumber) : Option Binary64 :=
  n.magnitude.map fun x => if n.negative then x.neg else x

end NodePipeline.JsonNumber

import NodePipeline.Binary64.Basic

/-!
# Reading decimals

The number nearest to `digits * 10 ^ exponent`, and the reader of the texts
that may stand for a number in a setting.
-/

namespace NodePipeline.Binary64

/-- The digits' value, in base ten. -/
def natOfDigits (digits : List Char) : Nat :=
  digits.foldl (fun n c => 10 * n + (c.toNat - 48)) 0

/-- The number nearest to `digits * 10 ^ exponent`. Beyond three hundred and
some places the result is zero or infinity whatever the digits, and no power
is formed. -/
def ofDecimal (negative : Bool) (digits : Nat) (exponent : Int) : Binary64 :=
  let places : Int := exponent + (toString digits).length
  if digits = 0 ∨ places < -400 then ofMagnitude negative 0
  else if 400 < places then ofMagnitude negative infinityBits
  else if 0 ≤ exponent then
    ofMagnitude negative (roundRatio (digits * Nat.pow 10 exponent.toNat) 1)
  else ofMagnitude negative (roundRatio digits (Nat.pow 10 (-exponent).toNat))

/-- Splits off the leading decimal digits. -/
def spanDigits (cs : List Char) : List Char × List Char := cs.span Char.isDigit

def readDigits (cs : List Char) : Option Nat :=
  if cs.isEmpty || !cs.all Char.isDigit then none else some (natOfDigits cs)

/-- An exponent's digits after `e` or `E`, with an optional sign. -/
def readExponent : List Char → Option Int
  | '-' :: cs => (readDigits cs).map fun n => -(n : Int)
  | '+' :: cs => (readDigits cs).map fun n => (n : Int)
  | cs => (readDigits cs).map fun n => (n : Int)

/-- An unsigned decimal: digits around an optional point, at least one digit in
all, then an optional exponent. -/
def readMagnitude (negative : Bool) (cs : List Char) : Option Binary64 :=
  let (whole, rest) := spanDigits cs
  let (fraction, rest) := match rest with
    | '.' :: rest => spanDigits rest
    | rest => ([], rest)
  if whole.isEmpty && fraction.isEmpty then none
  else
    let digits := natOfDigits (whole ++ fraction)
    match rest with
    | [] => some (ofDecimal negative digits (-(fraction.length : Int)))
    | c :: rest =>
        if c = 'e' ∨ c = 'E' then
          (readExponent rest).map fun e => ofDecimal negative digits (e - fraction.length)
        else none

/-- An optional sign, then a decimal or one of the words `inf`, `infinity`, `nan` in any case. -/
def read? (text : String) : Option Binary64 :=
  let (negative, cs) := match text.toList with
    | '-' :: cs => (true, cs)
    | '+' :: cs => (false, cs)
    | cs => (false, cs)
  let word := String.ofList (cs.map Char.toLower)
  if word = "inf" ∨ word = "infinity" then some (ofMagnitude negative infinityBits)
  else if word = "nan" then some (ofMagnitude negative 0x7ff8000000000000)
  else readMagnitude negative cs

end NodePipeline.Binary64

import NodePipeline.Bytes

/-!
# JSON strings

The escapes of strings in JSON. Reading goes through units: a character that
stands for itself or by a short escape, or a four-digit escape, of which two can
make one character.
-/

namespace NodePipeline.Json

/-- Quotes, backslashes and control characters are escaped. -/
def escapeChar (c : Char) : List Char :=
  if c = '"' then ['\\', '"']
  else if c = '\\' then ['\\', '\\']
  else if c = '\n' then ['\\', 'n']
  else if c = '\r' then ['\\', 'r']
  else if c = '\t' then ['\\', 't']
  else if c.toNat = 8 then ['\\', 'b']
  else if c.toNat = 12 then ['\\', 'f']
  else if c.toNat < 32 then
    ['\\', 'u', '0', '0', Bytes.hexDigit (c.toNat / 16), Bytes.hexDigit (c.toNat % 16)]
  else [c]

def quoted (s : String) : List Char := '"' :: s.toList.flatMap escapeChar ++ ['"']

/-! ## Reading -/

inductive StringUnit
  | char (c : Char)
  /-- The number of a four-digit escape. -/
  | code (n : Nat)
deriving DecidableEq

/-- What a backslash and a character stand for. -/
def shortEscape? (c : Char) : Option Char :=
  if c = '"' ∨ c = '\\' ∨ c = '/' then some c
  else if c = 'b' then some (Char.ofNat 8)
  else if c = 'f' then some (Char.ofNat 12)
  else if c = 'n' then some '\n'
  else if c = 'r' then some '\r'
  else if c = 't' then some '\t'
  else none

def hexCode? (a b c d : Char) : Option Nat := do
  let w ← Bytes.hexValue? a
  let x ← Bytes.hexValue? b
  let y ← Bytes.hexValue? c
  let z ← Bytes.hexValue? d
  return ((16 * w + x) * 16 + y) * 16 + z

/-- The units up to the closing quote, and what follows it. A bare control
character is refused. -/
def scanUnits : List Char → Option (List StringUnit × List Char)
  | [] => none
  | '"' :: rest => some ([], rest)
  | '\\' :: 'u' :: a :: b :: c :: d :: rest => do
      let n ← hexCode? a b c d
      let (units, rest) ← scanUnits rest
      return (.code n :: units, rest)
  | '\\' :: e :: rest => do
      let c ← shortEscape? e
      let (units, rest) ← scanUnits rest
      return (.char c :: units, rest)
  | c :: rest =>
      if c = '\\' ∨ c.toNat < 32 then none
      else do
        let (units, rest) ← scanUnits rest
        return (.char c :: units, rest)

def isHighHalf (n : Nat) : Bool := decide (0xd800 ≤ n ∧ n < 0xdc00)

def isLowHalf (n : Nat) : Bool := decide (0xdc00 ≤ n ∧ n < 0xe000)

/-- The characters of a list of units; half a character alone stands for none. -/
def joinUnits : List StringUnit → Option (List Char)
  | [] => some []
  | .char c :: rest => (joinUnits rest).map (c :: ·)
  | .code high :: .code low :: rest =>
      if isHighHalf high then
        if isLowHalf low then
          (joinUnits rest).map (Char.ofNat (0x10000 + (high - 0xd800) * 1024 + (low - 0xdc00)) :: ·)
        else none
      else if isLowHalf high then none
      else (joinUnits (.code low :: rest)).map (Char.ofNat high :: ·)
  | .code n :: rest =>
      if isHighHalf n || isLowHalf n then none
      else (joinUnits rest).map (Char.ofNat n :: ·)

/-- The text up to the closing quote, if it is one, and what follows the quote. -/
def scanString (cs : List Char) : Option (Option String × List Char) := do
  let (units, rest) ← scanUnits cs
  return ((joinUnits units).map String.ofList, rest)

end NodePipeline.Json

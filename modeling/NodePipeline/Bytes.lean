/-!
# Bytes

Byte strings as lists, with the fixed-width spellings of numbers that the
digests and the stored formats are made of.
-/

namespace NodePipeline

abbrev Bytes : Type := List UInt8

namespace Bytes

/-- The UTF-8 bytes of a text. -/
def ofString (s : String) : Bytes := s.toUTF8.data.toList

/-- The text whose UTF-8 bytes these are, if they are well-formed. -/
def toString? (bytes : Bytes) : Option String := String.fromUTF8? ⟨bytes.toArray⟩

/-- The low `width` bytes of a number, the lowest first. -/
def littleEndian : Nat → Nat → Bytes
  | 0, _ => []
  | width + 1, n => UInt8.ofNat n :: littleEndian width (n / 256)

/-- The low `width` bytes of a number, the highest first. -/
def bigEndian (width n : Nat) : Bytes := (littleEndian width n).reverse

/-- The number that a byte string spells with its lowest byte first. -/
def natOfLittleEndian : Bytes → Nat
  | [] => 0
  | b :: rest => b.toNat + 256 * natOfLittleEndian rest

/-- The number that a byte string spells with its highest byte first. -/
def natOfBigEndian (bytes : Bytes) : Nat := natOfLittleEndian bytes.reverse

/-- Reads a number of the given width in two's complement. -/
def signed (width n : Nat) : Int :=
  if 2 * n < Nat.pow 256 width then n else (n : Int) - (Nat.pow 256 width : Nat)

/-- The number in `[0, 256 ^ width)` that stands for an integer in two's complement. -/
def unsigned (width : Nat) (i : Int) : Nat := (i % (Nat.pow 256 width : Nat)).toNat

def hexDigit (n : Nat) : Char := if n < 10 then Char.ofNat (48 + n) else Char.ofNat (87 + n)

/-- Two lowercase hexadecimal digits for each byte. -/
def hex (bytes : Bytes) : String :=
  String.ofList (bytes.flatMap fun b => [hexDigit (b.toNat / 16), hexDigit (b.toNat % 16)])

def hexValue? (c : Char) : Option Nat :=
  if '0' ≤ c ∧ c ≤ '9' then some (c.toNat - 48)
  else if 'a' ≤ c ∧ c ≤ 'f' then some (c.toNat - 87)
  else if 'A' ≤ c ∧ c ≤ 'F' then some (c.toNat - 55)
  else none

def ofHexDigits : List Char → Option Bytes
  | [] => some []
  | [_] => none
  | a :: b :: rest => do
      let high ← hexValue? a
      let low ← hexValue? b
      let tail ← ofHexDigits rest
      return UInt8.ofNat (16 * high + low) :: tail

/-- Reads pairs of hexadecimal digits. -/
def ofHex? (s : String) : Option Bytes := ofHexDigits s.toList

end Bytes

end NodePipeline

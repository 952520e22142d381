import NodePipeline.Bytes

/-!
# Lossy decoding

The text of bytes that should be UTF-8. A sequence that is cut short or not
allowed becomes one replacement character; what comes after it is read anew.
-/

namespace NodePipeline.Text

def replacement : Char := Char.ofNat 0xfffd

/-- The least and the greatest second byte after a first byte, and the length of
the sequence that it begins. -/
def sequenceShape (first : Nat) : Option (Nat × Nat × Nat) :=
  if 0xc2 ≤ first ∧ first ≤ 0xdf then some (0x80, 0xbf, 2)
  else if first = 0xe0 then some (0xa0, 0xbf, 3)
  else if first = 0xed then some (0x80, 0x9f, 3)
  else if 0xe1 ≤ first ∧ first ≤ 0xef then some (0x80, 0xbf, 3)
  else if first = 0xf0 then some (0x90, 0xbf, 4)
  else if 0xf1 ≤ first ∧ first ≤ 0xf3 then some (0x80, 0xbf, 4)
  else if first = 0xf4 then some (0x80, 0x8f, 4)
  else none

def isContinuation (b : UInt8) : Bool := decide (0x80 ≤ b.toNat ∧ b.toNat ≤ 0xbf)

/-- How many of the bytes belong to a sequence that begins with the first byte,
and whether it is whole. -/
def sequenceLength (first : UInt8) (rest : Bytes) : Nat × Bool :=
  if first.toNat < 0x80 then (1, true)
  else match sequenceShape first.toNat, rest with
    | some (low, high, length), second :: more =>
        if low ≤ second.toNat ∧ second.toNat ≤ high then
          let found := 2 + ((more.take (length - 2)).takeWhile isContinuation).length
          (found, decide (found = length))
        else (1, false)
    | _, _ => (1, false)

/-- Each round reads at least one byte. -/
def decodeRounds : Nat → Bytes → List Char
  | 0, _ => []
  | _ + 1, [] => []
  | rounds + 1, first :: rest =>
      let (length, whole) := sequenceLength first rest
      let bytes := (first :: rest).take length
      let chars := match whole, Bytes.toString? bytes with
        | true, some text => text.toList
        | _, _ => [replacement]
      chars ++ decodeRounds rounds ((first :: rest).drop length)

def decodeLossy (bytes : Bytes) : String := String.ofList (decodeRounds bytes.length bytes)

end NodePipeline.Text

import NodePipeline.Value.Basic
import NodePipeline.Primitives

/-!
# Digests of values

`encoding` writes a value as bytes: a tag for its kind, then its contents, with
a length before every text and every sequence. The digest is the hash of these
bytes. A value in which a pipeline occurs has neither.
-/

namespace NodePipeline.Value

variable (store : Table → Bytes)

/-- A length or count as eight bytes. -/
def lengthBytes (n : Nat) : Bytes := Bytes.littleEndian 8 n

/-- A text's bytes behind their number. -/
def textBytes (s : String) : Bytes :=
  let bytes := Bytes.ofString s
  lengthBytes bytes.length ++ bytes

mutual

def encoding : Value → Option Bytes
  | .null => some [0]
  | .bool b => some [1, if b then 1 else 0]
  | .int i => some (2 :: Bytes.littleEndian 8 (Bytes.unsigned 8 i.toInt))
  | .float x => some (3 :: Bytes.littleEndian 8 x.bits.toNat)
  | .str s => some (4 :: textBytes s)
  | .list items =>
      (encodingItems items).map fun bytes => 5 :: (lengthBytes items.length ++ bytes)
  | .dict entries =>
      (encodingEntries entries).map fun bytes => 6 :: (lengthBytes entries.length ++ bytes)
  | .table t => some (7 :: (lengthBytes (store t).length ++ store t))
  | .function params body captured =>
      (encodingEntries captured).map fun bytes =>
        8 :: (params.flatMap textBytes ++ textBytes body ++ bytes)
  | .pipeline _ => none

def encodingItems : List Value → Option Bytes
  | [] => some []
  | item :: rest => do
      let bytes ← encoding item
      let more ← encodingItems rest
      return bytes ++ more

def encodingEntries : List (String × Value) → Option Bytes
  | [] => some []
  | (key, value) :: rest => do
      let bytes ← encoding value
      let more ← encodingEntries rest
      return textBytes key ++ bytes ++ more

end

/-- The hash of the value's encoding. -/
def digest (p : Primitives) (v : Value) : Option String := (v.encoding p.writeTable).map p.hash

end NodePipeline.Value

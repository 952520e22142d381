import NodePipeline.Binary64.Decimal
import NodePipeline.Bytes

/-!
# MessagePack

A byte format for trees of numbers, texts, arrays and maps. Writing takes the
shortest form of every number and length; reading takes every form, and tells
apart what is written in forms of different width and sign. A length that does
not fit into four bytes is cut to them, and what it does not count is written all
the same.
-/

namespace NodePipeline

inductive Msg
  | nil
  | bool (b : Bool)
  /-- A number in an unsigned form of the given number of bytes. -/
  | unsigned (width : Nat) (n : Nat)
  | signed (width : Nat) (i : Int)
  | float (x : Binary64)
  | str (bytes : Bytes)
  | bin (bytes : Bytes)
  | ext
  | arr (items : List Msg)
  | map (entries : List (Msg × Msg))

instance : Inhabited Msg := ⟨.nil⟩

namespace Msg

/-! ## Writing -/

/-- An integer in its shortest form; non-negative ones take the unsigned forms. -/
def ofInt (i : Int) : Msg :=
  if 0 ≤ i then
    if i < 256 then .unsigned 1 i.toNat
    else if i < 65536 then .unsigned 2 i.toNat
    else if i < 4294967296 then .unsigned 4 i.toNat
    else .unsigned 8 i.toNat
  else if -128 ≤ i then .signed 1 i
  else if -32768 ≤ i then .signed 2 i
  else if -2147483648 ≤ i then .signed 4 i
  else .signed 8 i

def ofText (s : String) : Msg := .str (Bytes.ofString s)

/-- The marker of a form that comes in widths of one, two, four and eight bytes. -/
def widthMarker (first width : Nat) : UInt8 :=
  UInt8.ofNat (first + match width with
    | 1 => 0
    | 2 => 1
    | 4 => 2
    | _ => 3)

def writeUnsigned (width n : Nat) : Bytes :=
  if width = 1 ∧ n < 128 then [UInt8.ofNat n]
  else widthMarker 0xcc width :: Bytes.bigEndian width n

def writeSigned (width : Nat) (i : Int) : Bytes :=
  if width = 1 ∧ -32 ≤ i ∧ i < 0 then [UInt8.ofNat (256 + i).toNat]
  else widthMarker 0xd0 width :: Bytes.bigEndian width (Bytes.unsigned width i)

/-- The length of a text. -/
def strHead (n : Nat) : Bytes :=
  if n < 32 then [UInt8.ofNat (0xa0 + n)]
  else if n < 256 then 0xd9 :: Bytes.bigEndian 1 n
  else if n < 65536 then 0xda :: Bytes.bigEndian 2 n
  else 0xdb :: Bytes.bigEndian 4 n

def binHead (n : Nat) : Bytes :=
  if n < 256 then 0xc4 :: Bytes.bigEndian 1 n
  else if n < 65536 then 0xc5 :: Bytes.bigEndian 2 n
  else 0xc6 :: Bytes.bigEndian 4 n

def arrHead (n : Nat) : Bytes :=
  if n < 16 then [UInt8.ofNat (0x90 + n)]
  else if n < 65536 then 0xdc :: Bytes.bigEndian 2 n
  else 0xdd :: Bytes.bigEndian 4 n

def mapHead (n : Nat) : Bytes :=
  if n < 16 then [UInt8.ofNat (0x80 + n)]
  else if n < 65536 then 0xde :: Bytes.bigEndian 2 n
  else 0xdf :: Bytes.bigEndian 4 n

/-- The length that is spelled: the low thirty-two bits of the length. -/
def spelledLength (n : Nat) : Nat := n % 4294967296

mutual

def write : Msg → Bytes
  | .nil => [0xc0]
  | .bool b => [if b then 0xc3 else 0xc2]
  | .unsigned width n => writeUnsigned width n
  | .signed width i => writeSigned width i
  | .float x => 0xcb :: Bytes.bigEndian 8 x.bits.toNat
  | .str bytes => strHead (spelledLength bytes.length) ++ bytes
  | .bin bytes => binHead (spelledLength bytes.length) ++ bytes
  | .ext => [0xd4, 0, 0]
  | .arr items => arrHead (spelledLength items.length) ++ writeItems items
  | .map entries => mapHead (spelledLength entries.length) ++ writeEntries entries

def writeItems : List Msg → Bytes
  | [] => []
  | item :: rest => write item ++ writeItems rest

def writeEntries : List (Msg × Msg) → Bytes
  | [] => []
  | (key, value) :: rest => write key ++ write value ++ writeEntries rest

end

/-! ## Reading -/

/-- What begins at a place: a whole message, or the head of an array or a map. -/
inductive Head
  | whole (m : Msg)
  | arr (count : Nat)
  | map (count : Nat)

/-- A number of the given width, the highest byte first. -/
def takeNat (width : Nat) (bytes : Bytes) : Option (Nat × Bytes) :=
  if bytes.length < width then none
  else some (Bytes.natOfBigEndian (bytes.take width), bytes.drop width)

def takeBytes (n : Nat) (bytes : Bytes) : Option (Bytes × Bytes) :=
  if bytes.length < n then none else some (bytes.take n, bytes.drop n)

/-- Bytes behind their number, which has the given width. -/
def takeCounted (width : Nat) (bytes : Bytes) : Option (Bytes × Bytes) := do
  let (n, rest) ← takeNat width bytes
  takeBytes n rest

/-- The binary64 number that a binary32 number is. -/
def widenFloat (bits : Nat) : Binary64 :=
  let negative : Bool := decide (0x80000000 ≤ bits)
  let exponent : Nat := bits / 0x800000 % 256
  let fraction : Nat := bits % 0x800000
  if exponent = 255 then
    if fraction = 0 then .ofMagnitude negative Binary64.infinityBits
    else
      .ofMagnitude negative
        (Binary64.infinityBits + 0x8000000000000 + fraction % 0x400000 * 0x20000000)
  else if exponent = 0 then .ofScaled negative fraction (-149)
  else .ofScaled negative (fraction + 0x800000) ((exponent : Int) - 150)

def skipExt (width : Nat) (bytes : Bytes) : Option (Head × Bytes) := do
  let (n, rest) ← takeNat width bytes
  let (_, rest) ← takeBytes (n + 1) rest
  return (.whole .ext, rest)

def readUnsigned (width : Nat) (bytes : Bytes) : Option (Head × Bytes) :=
  (takeNat width bytes).map fun (n, rest) => (.whole (.unsigned width n), rest)

def readSigned (width : Nat) (bytes : Bytes) : Option (Head × Bytes) :=
  (takeNat width bytes).map fun (n, rest) => (.whole (.signed width (Bytes.signed width n)), rest)

def readStr (width : Nat) (bytes : Bytes) : Option (Head × Bytes) :=
  (takeCounted width bytes).map fun (s, rest) => (.whole (.str s), rest)

def readBin (width : Nat) (bytes : Bytes) : Option (Head × Bytes) :=
  (takeCounted width bytes).map fun (s, rest) => (.whole (.bin s), rest)

def readArr (width : Nat) (bytes : Bytes) : Option (Head × Bytes) :=
  (takeNat width bytes).map fun (n, rest) => (.arr n, rest)

def readMap (width : Nat) (bytes : Bytes) : Option (Head × Bytes) :=
  (takeNat width bytes).map fun (n, rest) => (.map n, rest)

/-- The head that a marker announces. -/
def readMarked (marker : Nat) (bytes : Bytes) : Option (Head × Bytes) :=
  match marker with
  | 0xc0 => some (.whole .nil, bytes)
  | 0xc2 => some (.whole (.bool false), bytes)
  | 0xc3 => some (.whole (.bool true), bytes)
  | 0xc4 => readBin 1 bytes
  | 0xc5 => readBin 2 bytes
  | 0xc6 => readBin 4 bytes
  | 0xc7 => skipExt 1 bytes
  | 0xc8 => skipExt 2 bytes
  | 0xc9 => skipExt 4 bytes
  | 0xca => (takeNat 4 bytes).map fun (n, rest) => (.whole (.float (widenFloat n)), rest)
  | 0xcb => (takeNat 8 bytes).map fun (n, rest) => (.whole (.float ⟨UInt64.ofNat n⟩), rest)
  | 0xcc => readUnsigned 1 bytes
  | 0xcd => readUnsigned 2 bytes
  | 0xce => readUnsigned 4 bytes
  | 0xcf => readUnsigned 8 bytes
  | 0xd0 => readSigned 1 bytes
  | 0xd1 => readSigned 2 bytes
  | 0xd2 => readSigned 4 bytes
  | 0xd3 => readSigned 8 bytes
  | 0xd4 => (takeBytes 2 bytes).map fun (_, rest) => (.whole .ext, rest)
  | 0xd5 => (takeBytes 3 bytes).map fun (_, rest) => (.whole .ext, rest)
  | 0xd6 => (takeBytes 5 bytes).map fun (_, rest) => (.whole .ext, rest)
  | 0xd7 => (takeBytes 9 bytes).map fun (_, rest) => (.whole .ext, rest)
  | 0xd8 => (takeBytes 17 bytes).map fun (_, rest) => (.whole .ext, rest)
  | 0xd9 => readStr 1 bytes
  | 0xda => readStr 2 bytes
  | 0xdb => readStr 4 bytes
  | 0xdc => readArr 2 bytes
  | 0xdd => readArr 4 bytes
  | 0xde => readMap 2 bytes
  | 0xdf => readMap 4 bytes
  | _ => none

/-- The first byte holds a small number, a short length, or a marker. -/
def readHead : Bytes → Option (Head × Bytes)
  | [] => none
  | first :: rest =>
      let b := first.toNat
      if b < 0x80 then some (.whole (.unsigned 1 b), rest)
      else if b < 0x90 then some (.map (b - 0x80), rest)
      else if b < 0xa0 then some (.arr (b - 0x90), rest)
      else if b < 0xc0 then
        (takeBytes (b - 0xa0) rest).map fun (s, rest) => (.whole (.str s), rest)
      else if b < 0xe0 then readMarked b rest
      else some (.whole (.signed 1 ((b : Int) - 256)), rest)

/-- As many items as counted. -/
def readMany {α : Type} (item : Bytes → Option (α × Bytes)) :
    Nat → Bytes → Option (List α × Bytes)
  | 0, bytes => some ([], bytes)
  | count + 1, bytes => do
      let (first, rest) ← item bytes
      let (more, rest) ← readMany item count rest
      return (first :: more, rest)

def readPair (item : Bytes → Option (Msg × Bytes)) (bytes : Bytes) :
    Option ((Msg × Msg) × Bytes) := do
  let (key, rest) ← item bytes
  let (value, rest) ← item rest
  return ((key, value), rest)

/-- Reads a message in which arrays and maps nest at most `depth` deep. -/
def read : Nat → Bytes → Option (Msg × Bytes)
  | 0, bytes =>
      match readHead bytes with
      | some (.whole m, rest) => some (m, rest)
      | _ => none
  | depth + 1, bytes =>
      match readHead bytes with
      | none => none
      | some (.whole m, rest) => some (m, rest)
      | some (.arr count, rest) =>
          (readMany (read depth) count rest).map fun (items, rest) => (.arr items, rest)
      | some (.map count, rest) =>
          (readMany (readPair (read depth)) count rest).map fun (es, rest) => (.map es, rest)

end Msg

end NodePipeline

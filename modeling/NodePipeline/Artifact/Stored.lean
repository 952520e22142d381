import NodePipeline.Artifact.MessagePack
import NodePipeline.Error
import NodePipeline.Primitives

/-!
# Stored values

What a value is stored as: a message with the kind of the value under `t` and
its contents under `v`, inside an envelope with the version of the format.
Tables are stored as their bytes; functions and pipelines cannot be stored.
-/

namespace NodePipeline

inductive Stored
  | null
  | bool (b : Bool)
  | int (i : Int64)
  | float (x : Binary64)
  | str (s : String)
  | list (items : List Stored)
  | dict (entries : List (String × Stored))
  | table (bytes : Bytes)

instance : Inhabited Stored := ⟨.null⟩

namespace Stored

/-! ## From values -/

/-- The error for a value that cannot be stored, at a path of steps from the
whole value. -/
def unsupported (kind : Kind) (location : String) : ArtifactError :=
  .unsupported kind (if location.isEmpty then none else some location)

mutual

/-- The stored form of a value at a location, or the first value inside it that
cannot be stored. -/
def ofValue (store : Table → Bytes) (location : String) : Value → Except ArtifactError Stored
  | .null => .ok .null
  | .bool b => .ok (.bool b)
  | .int i => .ok (.int i)
  | .float x => .ok (.float x)
  | .str s => .ok (.str s)
  | .list items => (ofItems store location 0 items).map .list
  | .dict entries => (ofEntries store location entries).map .dict
  | .table t => .ok (.table (store t))
  | .function .. => .error (unsupported .function location)
  | .pipeline _ => .error (unsupported .pipeline location)

def ofItems (store : Table → Bytes) (location : String) (index : Nat) :
    List Value → Except ArtifactError (List Stored)
  | [] => .ok []
  | item :: rest => do
      let first ← ofValue store (location ++ "[" ++ toString index ++ "]") item
      let more ← ofItems store location (index + 1) rest
      return first :: more

def ofEntries (store : Table → Bytes) (location : String) :
    List (String × Value) → Except ArtifactError (List (String × Stored))
  | [] => .ok []
  | (key, value) :: rest => do
      let first ← ofValue store (location ++ "." ++ key) value
      let more ← ofEntries store location rest
      return (key, first) :: more

end

/-! ## Back to values -/

def tableFault : TableFault → Corruption
  | .stream detail => .invalidStream detail
  | .batch detail => .invalidBatch detail
  | .batches count => .batchCount count

mutual

def toValue (load : Bytes → Except TableFault Table) : Stored → Except Corruption Value
  | .null => .ok .null
  | .bool b => .ok (.bool b)
  | .int i => .ok (.int i)
  | .float x => .ok (.float x)
  | .str s => .ok (.str s)
  | .list items => (toItems load items).map .list
  | .dict entries => (toEntries load entries).map .dict
  | .table bytes =>
      match load bytes with
      | .ok t => .ok (.table t)
      | .error fault => .error (tableFault fault)

def toItems (load : Bytes → Except TableFault Table) :
    List Stored → Except Corruption (List Value)
  | [] => .ok []
  | item :: rest => do
      let first ← toValue load item
      let more ← toItems load rest
      return first :: more

def toEntries (load : Bytes → Except TableFault Table) :
    List (String × Stored) → Except Corruption (List (String × Value))
  | [] => .ok []
  | (key, item) :: rest => do
      let first ← toValue load item
      let more ← toEntries load rest
      return (key, first) :: more

end

/-! ## Tags -/

/-- The kinds of stored value. -/
inductive Tag
  | null | bool | int | float | str | list | dict | table
deriving DecidableEq

def Tag.all : List Tag := [.null, .bool, .int, .float, .str, .list, .dict, .table]

def Tag.name : Tag → String
  | .null => "Null"
  | .bool => "Bool"
  | .int => "Int"
  | .float => "Float"
  | .str => "Str"
  | .list => "List"
  | .dict => "Dict"
  | .table => "Table"

/-! ## To messages -/

def tagged (tag : Tag) (contents : Msg) : Msg :=
  .map [(.ofText "t", .ofText tag.name), (.ofText "v", contents)]

mutual

def toMsg : Stored → Msg
  | .null => .map [(.ofText "t", .ofText Tag.null.name)]
  | .bool b => tagged .bool (.bool b)
  | .int i => tagged .int (.ofInt i.toInt)
  | .float x => tagged .float (.float x)
  | .str s => tagged .str (.ofText s)
  | .list items => tagged .list (.arr (itemMsgs items))
  | .dict entries => tagged .dict (.map (entryMsgs entries))
  | .table bytes => tagged .table (.arr (bytes.map fun b => .ofInt b.toNat))

def itemMsgs : List Stored → List Msg
  | [] => []
  | item :: rest => toMsg item :: itemMsgs rest

def entryMsgs : List (String × Stored) → List (Msg × Msg)
  | [] => []
  | (key, item) :: rest => (.ofText key, toMsg item) :: entryMsgs rest

end

def formatVersion : Nat := 1

def envelope (s : Stored) : Msg :=
  .map [(.ofText "format_version", .ofInt formatVersion), (.ofText "value", s.toMsg)]

/-! ## From messages

Contents that come before their tag are held back until the tag is known. In
what is held back, and in all below it, the narrow forms count: a number that
stands for a name has one or eight bytes, and a table's bytes are an array. -/

def intOf? : Msg → Option Int
  | .unsigned _ n => some n
  | .signed _ i => some i
  | _ => none

def int64Of? (m : Msg) : Option Int64 := do
  let i ← intOf? m
  if -0x8000000000000000 ≤ i ∧ i < 0x8000000000000000 then some (Int64.ofInt i) else none

/-- A float, also from an integer, which is rounded. -/
def floatOf? : Msg → Option Binary64
  | .float x => some x
  | m => (intOf? m).map Binary64.ofInt

def textOf? : Msg → Option String
  | .str bytes => Bytes.toString? bytes
  | .bin bytes => Bytes.toString? bytes
  | _ => none

def byteOf? (m : Msg) : Option UInt8 := do
  let i ← intOf? m
  if 0 ≤ i ∧ i < 256 then some (UInt8.ofNat i.toNat) else none

def tableBytesOf? (held : Bool) : Msg → Option Bytes
  | .arr items => items.mapM byteOf?
  | .bin bytes => if held then none else some bytes
  | _ => none

/-- A name among the given ones, spelled out or as its place; `some none` for any other. -/
def nameOf? (held : Bool) (names : List String) : Msg → Option (Option Nat)
  | .str bytes => some (names.findIdx? fun name => Bytes.ofString name == bytes)
  | .bin bytes => some (names.findIdx? fun name => Bytes.ofString name == bytes)
  | .unsigned width n =>
      if held && width != 1 && width != 8 then none
      else some (if n < names.length then some n else none)
  | _ => none

def tagOf? (held : Bool) (m : Msg) : Option Tag := do
  let place ← nameOf? held (Tag.all.map Tag.name) m
  Tag.all[← place]?

/-- The tag in a map. It may also be the one key of a map, with nothing under it;
what is held back takes no other stand-in for the name. -/
def mapTagOf? (held : Bool) : Msg → Option Tag
  | .map [(key, .nil)] => tagOf? held key
  | .map [(key, .map [])] => if held then tagOf? held key else none
  | .map _ => none
  | .str bytes => tagOf? held (.str bytes)
  | m => if held then none else tagOf? held m

/-- The entries of a map under the given names, each with its place among the
names and in the order of the map; other entries are skipped. -/
def fieldsOf? (held : Bool) (names : List String) : List (Msg × Msg) → Option (List (Nat × Msg))
  | [] => some []
  | (key, value) :: rest => do
      let place ← nameOf? held names key
      let more ← fieldsOf? held names rest
      return match place with
        | some i => (i, value) :: more
        | none => more

/-- The parts of a stored value. -/
structure Parts where
  tag : Tag
  /-- Nothing stands for nil. -/
  contents : Msg
  held : Bool

/-- A value is a map with a tag and contents, or an array of both. -/
def partsOf? (held : Bool) : Msg → Option Parts
  | .map entries => do
      match ← fieldsOf? held ["t", "v"] entries with
      | [(0, tag)] => do
          let tag ← mapTagOf? held tag
          if tag = .null then return ⟨tag, .nil, held⟩ else none
      | [(0, tag), (1, contents)] => return ⟨← mapTagOf? held tag, contents, held⟩
      | [(1, contents), (0, tag)] => return ⟨← mapTagOf? held tag, contents, true⟩
      | _ => none
  | .arr [tag, contents] => do return ⟨← tagOf? held tag, contents, held⟩
  | _ => none

/-- The stored value that a message is, to a bound on its depth. -/
def ofMsg : Nat → Bool → Msg → Option Stored
  | 0, _, _ => none
  | fuel + 1, held, m => do
      let parts ← partsOf? held m
      match parts.tag, parts.contents with
      | .null, .nil => return .null
      | .bool, .bool b => return .bool b
      | .int, c => return .int (← int64Of? c)
      | .float, c => return .float (← floatOf? c)
      | .str, c => return .str (← textOf? c)
      | .list, .arr items => return .list (← items.mapM (ofMsg fuel parts.held))
      | .list, .bin [] => if parts.held then none else return .list []
      | .dict, .map entries =>
          let entries ← entries.mapM fun (key, item) => do
            return (← textOf? key, ← ofMsg fuel parts.held item)
          return .dict (Entries.ofList entries)
      | .table, c => return .table (← tableBytesOf? parts.held c)
      | _, _ => none

/-- The version is a number of thirty-two bits. -/
def versionOf? (m : Msg) : Option Nat := do
  let i ← intOf? m
  if 0 ≤ i ∧ i < 0x100000000 then some i.toNat else none

/-- A version and the message of a value: as a map in any order, or an array of both. -/
def openEnvelope? : Msg → Option (Nat × Msg)
  | .map entries => do
      match ← fieldsOf? false ["format_version", "value"] entries with
      | [(0, version), (1, value)] => return (← versionOf? version, value)
      | [(1, value), (0, version)] => return (← versionOf? version, value)
      | _ => none
  | .arr [version, value] => do return (← versionOf? version, value)
  | _ => none

/-- Arrays and maps of a message may nest this deep. -/
def depthLimit : Nat := 1023

/-- The version and the stored value in an envelope; bytes behind it are ignored. -/
def read? (bytes : Bytes) : Option (Nat × Stored) := do
  let (m, _) ← Msg.read depthLimit bytes
  let (version, value) ← openEnvelope? m
  return (version, ← ofMsg depthLimit false value)

end Stored

end NodePipeline

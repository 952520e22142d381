import NodePipeline.Json.Number

/-!
# Records in JSON

A record is an object whose known names occur at most once, other names being
ignored, or an array of the fields in their order, of which the last ones may be
missing.
-/

namespace NodePipeline.Json

/-- The only member of that name; an error if there are more. -/
def member? (members : List (String × Json)) (name : String) : Option (Option Json) :=
  match members.filter (·.1 == name) with
  | [] => some none
  | [m] => some (some m.2)
  | _ => none

/-- What a document has for each field of a record. -/
def fields (names : List String) : Json → Option (List (Option Json))
  | .obj members => names.mapM (member? members)
  | .arr items =>
      if items.length ≤ names.length then
        some (items.map some ++ List.replicate (names.length - items.length) none)
      else none
  | _ => none

def asText : Json → Option String
  | .str s => some s
  | _ => none

def asBool : Json → Option Bool
  | .bool b => some b
  | _ => none

def asNumber : Json → Option Binary64
  | .num n => n.toBinary64?
  | _ => none

def asTexts : Json → Option (List String)
  | .arr items => items.mapM asText
  | _ => none

/-- Reads null as the absence of a value. -/
def asNullable {α : Type} (read : Json → Option α) : Json → Option (Option α)
  | .null => some none
  | j => (read j).map some

/-- A field that has a default. -/
def fieldOr {α : Type} (read : Json → Option α) (default : α) : Option Json → Option α
  | none => some default
  | some j => read j

end NodePipeline.Json

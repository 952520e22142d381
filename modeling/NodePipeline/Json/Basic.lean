/-!
# JSON documents

Objects keep their members in the order of the text, repeated names included,
and numbers keep their digits: what they stand for is decided where a document
is read as something.
-/

namespace NodePipeline

/-- A number as it is spelled. The fraction and the exponent are empty if the
number has none. -/
structure JsonNumber where
  negative : Bool
  whole : List Char
  fraction : List Char
  exponentNegative : Bool
  exponent : List Char
deriving DecidableEq

inductive Json
  | null
  | bool (b : Bool)
  | num (n : JsonNumber)
  | str (s : String)
  /-- A string with an escape that is no character. -/
  | brokenString
  | arr (items : List Json)
  | obj (members : List (String × Json))
  /-- An object with such a string as a name. -/
  | brokenObject

instance : Inhabited Json := ⟨.null⟩

namespace Json

def strings (texts : List String) : Json := .arr (texts.map .str)

/-- An object whose members are all strings. -/
def ofTexts (members : List (String × String)) : Json :=
  .obj (members.map fun m => (m.1, .str m.2))

end Json

end NodePipeline

import NodePipeline.Json.Basic
import NodePipeline.Json.Text

/-!
# Writing JSON

`Json.pretty` writes a document with one member or item a line, each level two
blanks further in. Empty arrays and objects stay on one line.
-/

namespace NodePipeline.Json

def numberText (n : JsonNumber) : List Char :=
  (if n.negative then ['-'] else []) ++ n.whole
    ++ (if n.fraction.isEmpty then [] else '.' :: n.fraction)
    ++ if n.exponent.isEmpty then []
      else 'e' :: (if n.exponentNegative then ['-'] else []) ++ n.exponent

/-- A new line at a depth. -/
def newLine (depth : Nat) : List Char := '\n' :: List.replicate (2 * depth) ' '

/-- Entries on lines of their own between two brackets. -/
def block (opening closing : Char) (depth : Nat) (entries : List (List Char)) : List Char :=
  if entries.isEmpty then [opening, closing]
  else opening :: ([','].intercalate (entries.map fun e => newLine (depth + 1) ++ e))
    ++ newLine depth ++ [closing]

mutual

/-- Strings that are no texts have no spelling of their own; they are written empty. -/
def prettyChars (depth : Nat) : Json → List Char
  | .null => ['n', 'u', 'l', 'l']
  | .bool true => ['t', 'r', 'u', 'e']
  | .bool false => ['f', 'a', 'l', 's', 'e']
  | .num n => numberText n
  | .str s => quoted s
  | .brokenString => quoted ""
  | .arr items => block '[' ']' depth (prettyItems (depth + 1) items)
  | .obj members => block '{' '}' depth (prettyMembers (depth + 1) members)
  | .brokenObject => block '{' '}' depth []

def prettyItems (depth : Nat) : List Json → List (List Char)
  | [] => []
  | item :: rest => prettyChars depth item :: prettyItems depth rest

def prettyMembers (depth : Nat) : List (String × Json) → List (List Char)
  | [] => []
  | (name, value) :: rest =>
      (quoted name ++ [':', ' '] ++ prettyChars depth value) :: prettyMembers depth rest

end

def pretty (document : Json) : String := String.ofList (prettyChars 0 document)

end NodePipeline.Json

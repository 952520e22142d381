import NodePipeline.Json.Basic
import NodePipeline.Json.Text
import NodePipeline.Binary64.Decimal

/-!
# Reading JSON

`Json.parse?` reads a whole text as one document with blanks around it.
-/

namespace NodePipeline.Json

def isSpace (c : Char) : Bool := c == ' ' || c == '\n' || c == '\t' || c == '\r'

def skipSpace (cs : List Char) : List Char := cs.dropWhile isSpace

/-! ## Numbers -/

/-- An optional exponent, of one or more digits. -/
def scanExponent (cs : List Char) : Option (Bool × List Char × List Char) :=
  match cs with
  | [] => some (false, [], [])
  | e :: rest =>
      if e = 'e' ∨ e = 'E' then
        let (negative, rest) := match rest with
          | '-' :: rest => (true, rest)
          | '+' :: rest => (false, rest)
          | rest => (false, rest)
        let (digits, rest) := Binary64.spanDigits rest
        if digits.isEmpty then none else some (negative, digits, rest)
      else some (false, [], e :: rest)

/-- An optional point with one or more digits. -/
def scanFraction (cs : List Char) : Option (List Char × List Char) :=
  match cs with
  | '.' :: rest =>
      let (digits, rest) := Binary64.spanDigits rest
      if digits.isEmpty then none else some (digits, rest)
  | cs => some ([], cs)

/-- A whole part has one digit or does not begin with a zero. -/
def scanNumber (cs : List Char) : Option (JsonNumber × List Char) := do
  let (negative, cs) := match cs with
    | '-' :: cs => (true, cs)
    | cs => (false, cs)
  let (whole, cs) := Binary64.spanDigits cs
  if whole.isEmpty || (whole.head? == some '0' && whole != ['0']) then none
  else
    let (fraction, cs) ← scanFraction cs
    let (exponentNegative, exponent, cs) ← scanExponent cs
    return (⟨negative, whole, fraction, exponentNegative, exponent⟩, cs)

/-! ## Documents -/

/-- An object of members, some of whose names may be no texts. -/
def ofMembers (members : List (Option String × Json)) : Json :=
  match members.mapM fun m => m.1.map (·, m.2) with
  | some members => .obj members
  | none => .brokenObject

/-- A name and the colon after it. -/
def scanName (cs : List Char) : Option (Option String × List Char) :=
  match skipSpace cs with
  | '"' :: rest => do
      let (name, rest) ← scanString rest
      match skipSpace rest with
      | ':' :: rest => some (name, rest)
      | _ => none
  | _ => none

mutual

/-- A value, and what follows it. Every step that takes no character is followed
by one that does, so twice the length of the text is fuel enough. -/
def parseValue : Nat → List Char → Option (Json × List Char)
  | 0, _ => none
  | fuel + 1, cs =>
      match skipSpace cs with
      | '"' :: rest => do
          let (text, rest) ← scanString rest
          return ((text.map Json.str).getD .brokenString, rest)
      | '[' :: rest =>
          match skipSpace rest with
          | ']' :: rest => some (.arr [], rest)
          | rest => (parseItems fuel rest).map fun (items, rest) => (.arr items, rest)
      | '{' :: rest =>
          match skipSpace rest with
          | '}' :: rest => some (.obj [], rest)
          | rest => (parseMembers fuel rest).map fun (members, rest) => (ofMembers members, rest)
      | 'n' :: 'u' :: 'l' :: 'l' :: rest => some (.null, rest)
      | 't' :: 'r' :: 'u' :: 'e' :: rest => some (.bool true, rest)
      | 'f' :: 'a' :: 'l' :: 's' :: 'e' :: rest => some (.bool false, rest)
      | rest => (scanNumber rest).map fun (n, rest) => (.num n, rest)

/-- One or more values with commas between them, up to the closing bracket. -/
def parseItems : Nat → List Char → Option (List Json × List Char)
  | 0, _ => none
  | fuel + 1, cs => do
      let (item, rest) ← parseValue fuel cs
      match skipSpace rest with
      | ']' :: rest => return ([item], rest)
      | ',' :: rest =>
          let (items, rest) ← parseItems fuel rest
          return (item :: items, rest)
      | _ => none

/-- One or more members with commas between them, up to the closing brace. -/
def parseMembers : Nat → List Char → Option (List (Option String × Json) × List Char)
  | 0, _ => none
  | fuel + 1, cs => do
      let (name, rest) ← scanName cs
      let (value, rest) ← parseValue fuel rest
      match skipSpace rest with
      | '}' :: rest => return ([(name, value)], rest)
      | ',' :: rest =>
          let (members, rest) ← parseMembers fuel rest
          return ((name, value) :: members, rest)
      | _ => none

end

def parse? (text : String) : Option Json := do
  let cs := text.toList
  let (document, rest) ← parseValue (2 * cs.length + 2) cs
  if (skipSpace rest).isEmpty then some document else none

end NodePipeline.Json

import NodePipeline.Pattern.Basic
import NodePipeline.Pattern.Fault
import NodePipeline.Text.Characters
import NodePipeline.Bytes

/-!
# Escapes and classes of patterns

What a backslash stands for, and sets of characters in brackets: characters,
ranges, named and nested classes, and the intersection `&&`, difference `--` and
symmetric difference `~~` of what stands before and after.
-/

namespace NodePipeline.Pattern

/-- Which letters of flags are set. -/
structure Flags where
  ignoreCase : Bool
  multiLine : Bool
  dotAll : Bool
  unicode : Bool
  verbose : Bool
  crlf : Bool

def Flags.default : Flags := ⟨false, false, false, true, false, false⟩

/-- What may turn out not to be a pattern. -/
abbrev Fallible (α : Type) : Type := Except PatternFault α

/-! ## Escapes -/

inductive Escape
  | char (c : Char)
  | set (s : CharSet)
  | place (p : Place)

def isMeta (c : Char) : Bool := "\\.+*?()|[]\x7b\x7d^$#&-~".toList.contains c

/-- Characters that a backslash may stand before without a meaning of its own. -/
def isEscapable (c : Char) : Bool :=
  isMeta c || (decide (c.toNat < 128) && !c.isAlphanum && c != '<' && c != '>')

def asciiWord : CharSet := .ranges [(48, 57), (65, 90), (95, 95), (97, 122)]

def asciiSpace : CharSet := .ranges [(9, 13), (32, 32)]

/-- The class of a letter, in lower case. -/
def classOf (flags : Flags) (c : Char) : CharSet :=
  if c = 'd' then if flags.unicode then .table Text.digitRanges else .ranges [(48, 57)]
  else if c = 's' then if flags.unicode then .table Text.blankRanges else asciiSpace
  else if flags.unicode then .table Text.wordRanges else asciiWord

def complementOf (flags : Flags) (s : CharSet) : Except PatternFault CharSet :=
  if flags.unicode then .ok (.complement s) else .error .notText

/-- The value of hexadecimal digits. -/
def hexNumber (digits : List Char) : Option Nat :=
  if digits.isEmpty then none
  else digits.foldlM (fun n c => (Bytes.hexValue? c).map (16 * n + ·)) 0

def charOfHex (digits : List Char) : Except PatternFault Char :=
  match hexNumber digits with
  | some n => if n.isValidChar then .ok (Char.ofNat n) else .error .codePoint
  | none => .error .codePoint

/-- A code point in braces, or of a fixed number of digits. -/
def scanHex (width : Nat) (cs : List Char) : Fallible (Escape × List Char) :=
  match cs with
  | '{' :: rest =>
      let digits := rest.takeWhile (· != '}')
      match rest.drop digits.length with
      | [] => .error .escapeUnfinished
      | _ :: rest => do return (.char (← charOfHex digits), rest)
  | cs =>
      if cs.length < width then .error .escapeUnfinished
      else do return (.char (← charOfHex (cs.take width)), cs.drop width)

def isBoundaryNameChar (c : Char) : Bool := c.isAlpha || c == '-'

/-- A word boundary, with the name of a kind in braces after it; braces that do
not begin like a name are left for a count. -/
def scanBoundary (cs : List Char) : Fallible (Escape × List Char) :=
  match cs with
  | '{' :: rest =>
      match rest with
      | [] => .error .countUnclosed
      | c :: _ =>
          if isBoundaryNameChar c then
            let name := rest.takeWhile isBoundaryNameChar
            match rest.drop name.length with
            | '}' :: rest =>
                match String.ofList name with
                | "start" => .ok (.place .wordStart, rest)
                | "end" => .ok (.place .wordEnd, rest)
                | "start-half" => .ok (.place .wordStartHalf, rest)
                | "end-half" => .ok (.place .wordEndHalf, rest)
                | _ => .error .wordBoundaryName
            | _ => .error .wordBoundaryName
          else .ok (.place .wordBoundary, cs)
  | cs => .ok (.place .wordBoundary, cs)

/-- What follows a backslash. -/
def scanEscape (flags : Flags) (cs : List Char) : Fallible (Escape × List Char) :=
  match cs with
  | [] => .error .escapeUnfinished
  | c :: rest =>
      if c.isDigit then .error .backreference
      else if c = 'x' then scanHex 2 rest
      else if c = 'u' then scanHex 4 rest
      else if c = 'U' then scanHex 8 rest
      else if c = 'p' ∨ c = 'P' then .error .propertyUnknown
      else if c = 'd' ∨ c = 's' ∨ c = 'w' then .ok (.set (classOf flags c), rest)
      else if c = 'D' ∨ c = 'S' ∨ c = 'W' then do
        return (.set (← complementOf flags (classOf flags c.toLower)), rest)
      else if c = 'a' then .ok (.char (Char.ofNat 7), rest)
      else if c = 'f' then .ok (.char (Char.ofNat 12), rest)
      else if c = 't' then .ok (.char '\t', rest)
      else if c = 'n' then .ok (.char '\n', rest)
      else if c = 'r' then .ok (.char '\r', rest)
      else if c = 'v' then .ok (.char (Char.ofNat 11), rest)
      else if c = 'A' then .ok (.place .textStart, rest)
      else if c = 'z' then .ok (.place .textEnd, rest)
      else if c = 'b' then scanBoundary rest
      else if c = 'B' then .ok (.place .notWordBoundary, rest)
      else if c = '<' then .ok (.place .wordStart, rest)
      else if c = '>' then .ok (.place .wordEnd, rest)
      else if isEscapable c then .ok (.char c, rest)
      else .error .escapeUnknown

/-! ## Classes -/

/-- The classes of ASCII that have names. -/
def namedClass? (name : String) : Option CharSet :=
  match name with
  | "alnum" => some (.ranges [(48, 57), (65, 90), (97, 122)])
  | "alpha" => some (.ranges [(65, 90), (97, 122)])
  | "ascii" => some (.ranges [(0, 127)])
  | "blank" => some (.ranges [(9, 9), (32, 32)])
  | "cntrl" => some (.ranges [(0, 31), (127, 127)])
  | "digit" => some (.ranges [(48, 57)])
  | "graph" => some (.ranges [(33, 126)])
  | "lower" => some (.ranges [(97, 122)])
  | "print" => some (.ranges [(32, 126)])
  | "punct" => some (.ranges [(33, 47), (58, 64), (91, 96), (123, 126)])
  | "space" => some asciiSpace
  | "upper" => some (.ranges [(65, 90)])
  | "word" => some asciiWord
  | "xdigit" => some (.ranges [(48, 57), (65, 70), (97, 102)])
  | _ => none

/-- A named class, after its opening bracket: `:name:]`, or `:^name:]` for all else. -/
def scanNamed? (cs : List Char) : Option (CharSet × List Char) :=
  match cs with
  | ':' :: rest =>
      let (negated, rest) := match rest with
        | '^' :: rest => (true, rest)
        | rest => (false, rest)
      let name := rest.takeWhile (· != ':')
      match rest.drop name.length with
      | ':' :: ']' :: rest =>
          (namedClass? (String.ofList name)).map fun s =>
            (if negated then .complement s else s, rest)
      | _ => none
  | _ => none

def scanClassItem (flags : Flags) (cs : List Char) : Fallible (Escape × List Char) :=
  match cs with
  | [] => .error .classUnclosed
  | '\\' :: rest => scanEscape flags rest
  | c :: rest => .ok (.char c, rest)

/-- The set of an item that stands for itself in a class. -/
def Escape.toSet : Escape → Except PatternFault CharSet
  | .char c => .ok (.single c)
  | .set s => .ok s
  | .place _ => .error .classEscape

def skipVerbose (flags : Flags) (cs : List Char) : List Char :=
  if flags.verbose then Text.trimLeft cs else cs

/-- An item, or a range of two. A hyphen before the closing bracket, or before
another one, does not make a range. -/
def scanRange (flags : Flags) (cs : List Char) : Fallible (CharSet × List Char) := do
  let (first, rest) ← scanClassItem flags cs
  match skipVerbose flags rest with
  | [] => throw .classUnclosed
  | '-' :: after =>
      match skipVerbose flags after with
      | [] => throw .classUnclosed
      | c :: more =>
          if c = ']' ∨ c = '-' then return (← first.toSet, '-' :: after)
          else
            let (last, rest) ← scanClassItem flags (c :: more)
            match first, last with
            | .char a, .char b =>
                if a ≤ b then return (.ranges [(a.toNat, b.toNat)], rest)
                else throw .rangeReversed
            | _, _ => throw .rangeEnd
  | rest => return (← first.toSet, rest)

inductive SetOperation
  | intersection | difference | symmetricDifference
deriving DecidableEq

def SetOperation.apply (op : SetOperation) (a b : CharSet) : CharSet :=
  match op with
  | .intersection => .inter a b
  | .difference => .inter a (.complement b)
  | .symmetricDifference => .union (.inter a (.complement b)) (.inter b (.complement a))

def folded (flags : Flags) (s : CharSet) : CharSet := if flags.ignoreCase then .anyCase s else s

/-- The set before an operation that waits for its other side. -/
def combine (flags : Flags) (pending : Option (CharSet × SetOperation)) (s : CharSet) : CharSet :=
  match pending with
  | some (left, op) => op.apply left (folded flags s)
  | none => folded flags s

/-- The characters at the beginning of a class that have a meaning of their own
further on: hyphens, and a closing bracket if there are none. -/
def scanLeading (cs : List Char) : CharSet × List Char :=
  let hyphens := cs.takeWhile (· == '-')
  match hyphens, cs.drop hyphens.length with
  | [], ']' :: rest => (.single ']', rest)
  | [], rest => (.empty, rest)
  | _ :: _, rest => (.single '-', rest)

mutual

/-- A class, after its opening bracket. -/
def scanClass (flags : Flags) : Nat → List Char → Fallible (CharSet × List Char)
  | 0, _ => .error .tooLarge
  | fuel + 1, cs => do
      let (negated, rest) := match skipVerbose flags cs with
        | '^' :: rest => (true, rest)
        | rest => (false, rest)
      let (leading, rest) := scanLeading (skipVerbose flags rest)
      let (s, rest) ← scanClassBody flags fuel none leading rest
      if negated then return (← complementOf flags s, rest) else return (s, rest)

/-- The items up to the closing bracket, added to those read since the last operation. -/
def scanClassBody (flags : Flags) :
    Nat → Option (CharSet × SetOperation) → CharSet → List Char → Fallible (CharSet × List Char)
  | 0, _, _, _ => .error .tooLarge
  | fuel + 1, pending, items, cs =>
      match skipVerbose flags cs with
      | [] => .error .classUnclosed
      | ']' :: rest => .ok (combine flags pending items, rest)
      | '[' :: rest =>
          match scanNamed? rest with
          | some (s, rest) => scanClassBody flags fuel pending (.union items s) rest
          | none => do
              let (s, rest) ← scanClass flags fuel rest
              scanClassBody flags fuel pending (.union items s) rest
      | '&' :: '&' :: rest =>
          scanClassBody flags fuel (some (combine flags pending items, .intersection)) .empty rest
      | '-' :: '-' :: rest =>
          scanClassBody flags fuel (some (combine flags pending items, .difference)) .empty rest
      | '~' :: '~' :: rest =>
          scanClassBody flags fuel (some (combine flags pending items, .symmetricDifference))
            .empty rest
      | rest => do
          let (s, rest) ← scanRange flags rest
          scanClassBody flags fuel pending (.union items s) rest

end

end NodePipeline.Pattern

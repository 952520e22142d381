import NodePipeline.Pattern.Escape
import NodePipeline.Binary64.Decimal

/-!
# Reading patterns

Branches with bars between them, of sequences of items, each of which may be
repeated. Flags set within a group hold to its end.
-/

namespace NodePipeline.Pattern

structure ParserState where
  rest : List Char
  flags : Flags
  /-- The names of the groups so far. -/
  names : List String

/-! ## Flags and groups -/

def Flags.set (flags : Flags) (letter : Char) (on : Bool) : Option Flags :=
  if letter = 'i' then some { flags with ignoreCase := on }
  else if letter = 'm' then some { flags with multiLine := on }
  else if letter = 's' then some { flags with dotAll := on }
  else if letter = 'u' then some { flags with unicode := on }
  else if letter = 'x' then some { flags with verbose := on }
  else if letter = 'R' then some { flags with crlf := on }
  else if letter = 'U' then some flags
  else none

/-- Letters of flags up to a colon or a closing parenthesis. Those after a hyphen
are switched off; nothing occurs twice. -/
def scanFlags (flags : Flags) (seen : List Char) :
    List Char → Fallible ((Flags × List Char) × List Char)
  | [] => .error .flagsUnfinished
  | c :: rest =>
      if c = ':' ∨ c = ')' then
        if seen.head? = some '-' then .error .flagsUnfinished
        else .ok ((flags, seen), c :: rest)
      else if c ∈ seen then .error .flagRepeated
      else if c = '-' then scanFlags flags ('-' :: seen) rest
      else match flags.set c (decide ('-' ∉ seen)) with
        | some flags => scanFlags flags (c :: seen) rest
        | none => .error .flagUnknown

def isNameStart (c : Char) : Bool := c == '_' || (Text.isWordChar c && !c.isDigit)

def isNamePart (c : Char) : Bool := Text.isWordChar c || c == '.' || c == '[' || c == ']'

/-- The name of a group up to its closing angle bracket. -/
def scanGroupName (cs : List Char) : Fallible (String × List Char) :=
  let name := cs.takeWhile (· != '>')
  match cs.drop name.length with
  | [] => .error .groupName
  | _ :: rest =>
      match name with
      | [] => .error .groupName
      | c :: more =>
          if isNameStart c && more.all isNamePart then .ok (String.ofList name, rest)
          else .error .groupName

/-! ## Repetitions -/

/-- A number with blanks around it. -/
def scanCount (cs : List Char) : Fallible (Option Nat × List Char) :=
  let cs := Text.trimLeft cs
  let (digits, rest) := Binary64.spanDigits cs
  let rest := Text.trimLeft rest
  if digits.isEmpty then .ok (none, rest)
  else
    let n := Binary64.natOfDigits digits
    if 0x100000000 ≤ n then .error .countTooLarge else .ok (some n, rest)

/-- A count, after its opening brace: `m}`, `m,}` or `m,n}`. -/
def scanCounts (cs : List Char) : Fallible ((Nat × Option Nat) × List Char) := do
  let (least, rest) ← scanCount cs
  match least, rest with
  | none, [] => throw .countUnclosed
  | none, _ => throw .countMissing
  | some n, '}' :: rest => return ((n, some n), rest)
  | some n, ',' :: '}' :: rest => return ((n, none), rest)
  | some n, ',' :: rest =>
      match ← scanCount rest with
      | (some m, '}' :: rest) => if n ≤ m then return ((n, some m), rest) else throw .countsReversed
      | (none, _ :: _) => throw .countMissing
      | _ => throw .countUnclosed
  | some _, _ => throw .countUnclosed

/-- A question mark after a repetition only tells which of several matches to prefer. -/
def dropLazy (cs : List Char) : List Char :=
  match cs with
  | '?' :: rest => rest
  | cs => cs

/-- Repeats the last item; settings of flags cannot be repeated. -/
def repeatLast (least : Nat) (most : Option Nat) :
    List (Option Pattern) → Except PatternFault (List (Option Pattern))
  | some p :: items => .ok (some (.repeated p least most) :: items)
  | _ => .error .nothingToRepeat

/-! ## Sequences and branches -/

/-- The sequence of items that are listed from the last to the first. -/
def sequence (items : List (Option Pattern)) : Pattern :=
  items.foldl (fun after item => match item with
    | some p => .seq p after
    | none => after) .empty

/-- Blanks and comments mean nothing when the flag says so. -/
def skipComments (flags : Flags) : Nat → List Char → List Char
  | 0, cs => cs
  | fuel + 1, cs =>
      if flags.verbose then
        match Text.trimLeft cs with
        | '#' :: rest => skipComments flags fuel (rest.dropWhile (· != '\n'))
        | cs => cs
      else cs

def anyChar (flags : Flags) : Except PatternFault CharSet :=
  if flags.unicode then
    .ok (.complement (.ranges
      (if flags.dotAll then [] else if flags.crlf then [(10, 10), (13, 13)] else [(10, 10)])))
  else .error .notText

def lineStart (flags : Flags) : Place :=
  if flags.multiLine then if flags.crlf then .crlfStart else .lineStart else .textStart

def lineEnd (flags : Flags) : Place :=
  if flags.multiLine then if flags.crlf then .crlfEnd else .lineEnd else .textEnd

def Escape.toPattern (flags : Flags) : Escape → Except PatternFault Pattern
  | .char c =>
      if flags.unicode || decide (c.toNat < 128) then .ok (.one (folded flags (.single c)))
      else .error .notText
  | .set s => .ok (.one s)
  | .place p => .ok (.place p)

/-- How a group begins, after its parenthesis: flags alone, or the state that its
content is read in. -/
inductive GroupStart
  | settings (flags : Flags)
  | group (flags : Flags) (names : List String)

def scanGroupStart (st : ParserState) (cs : List Char) : Fallible (GroupStart × List Char) :=
  match cs with
  | '?' :: '=' :: _ => .error .lookAround
  | '?' :: '!' :: _ => .error .lookAround
  | '?' :: '<' :: '=' :: _ => .error .lookAround
  | '?' :: '<' :: '!' :: _ => .error .lookAround
  | '?' :: 'P' :: '<' :: rest => do
      let (name, rest) ← scanGroupName rest
      if name ∈ st.names then throw .groupNameRepeated
      else return (.group st.flags (name :: st.names), rest)
  | '?' :: '<' :: rest => do
      let (name, rest) ← scanGroupName rest
      if name ∈ st.names then throw .groupNameRepeated
      else return (.group st.flags (name :: st.names), rest)
  | '?' :: rest => do
      let ((flags, seen), rest) ← scanFlags st.flags [] rest
      match rest with
      | ':' :: rest => return (.group flags st.names, rest)
      | _ :: rest => if seen.isEmpty then throw .nothingToRepeat else return (.settings flags, rest)
      | [] => throw .groupUnclosed
  | cs => .ok (.group st.flags st.names, cs)

mutual

/-- Branches up to the end of the group, or of the text. -/
def parseBranches (nested : Bool) : Nat → ParserState → Fallible (Pattern × ParserState)
  | 0, _ => .error .tooLarge
  | fuel + 1, st => do
      let (p, st) ← parseSequence fuel [] st
      match st.rest with
      | '|' :: rest =>
          let (q, st) ← parseBranches nested fuel { st with rest := rest }
          return (.either p q, st)
      | [] => if nested then throw .groupUnclosed else return (p, st)
      | _ :: rest => if nested then return (p, { st with rest := rest }) else throw .groupUnopened

/-- Items up to a bar, a closing parenthesis or the end. -/
def parseSequence : Nat → List (Option Pattern) → ParserState → Fallible (Pattern × ParserState)
  | 0, _, _ => .error .tooLarge
  | fuel + 1, items, st =>
      let cs := skipComments st.flags (st.rest.length + 1) st.rest
      match cs with
      | [] => .ok (sequence items, { st with rest := [] })
      | c :: rest =>
          if c = '|' ∨ c = ')' then .ok (sequence items, { st with rest := cs })
          else if c = '(' then do
            match ← scanGroupStart st rest with
            | (.settings flags, rest) =>
                parseSequence fuel (none :: items) { st with rest := rest, flags := flags }
            | (.group flags names, rest) =>
                let (p, inner) ← parseBranches true fuel ⟨rest, flags, names⟩
                parseSequence fuel (some p :: items) { inner with flags := st.flags }
          else if c = '[' then do
            let (s, rest) ← scanClass st.flags (rest.length + 1) rest
            parseSequence fuel (some (.one s) :: items) { st with rest := rest }
          else if c = '*' then do
            let items ← repeatLast 0 none items
            parseSequence fuel items { st with rest := dropLazy rest }
          else if c = '+' then do
            let items ← repeatLast 1 none items
            parseSequence fuel items { st with rest := dropLazy rest }
          else if c = '?' then do
            let items ← repeatLast 0 (some 1) items
            parseSequence fuel items { st with rest := dropLazy rest }
          else if c = '{' then do
            let ((least, most), rest) ← scanCounts rest
            let items ← repeatLast least most items
            parseSequence fuel items { st with rest := dropLazy rest }
          else if c = '\\' then do
            let (escape, rest) ← scanEscape st.flags rest
            parseSequence fuel (some (← escape.toPattern st.flags) :: items)
              { st with rest := rest }
          else if c = '.' then do
            parseSequence fuel (some (.one (← anyChar st.flags)) :: items)
              { st with rest := rest }
          else if c = '^' then
            parseSequence fuel (some (.place (lineStart st.flags)) :: items)
              { st with rest := rest }
          else if c = '$' then
            parseSequence fuel (some (.place (lineEnd st.flags)) :: items)
              { st with rest := rest }
          else do
            parseSequence fuel (some (← (Escape.char c).toPattern st.flags) :: items)
              { st with rest := rest }

end

/-- Patterns beyond this size are refused. -/
def sizeLimit : Nat := 327680

def parse (text : String) : Except PatternFault Pattern := do
  let cs := text.toList
  let (p, _) ← parseBranches false (2 * cs.length + 2) ⟨cs, .default, []⟩
  if p.size ≤ sizeLimit then return p else throw .tooLarge

end NodePipeline.Pattern

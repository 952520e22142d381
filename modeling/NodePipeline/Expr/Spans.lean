import NodePipeline.Expr.Token

/-!
# Scanning in place

`tokens` takes a text apart from its front. The scanner here moves an index over the bytes of
the source and never copies what is left: it looks at single bytes, cuts out the text of a token
once both its ends are known, and marks a token by the span of bytes that it takes. A byte that
is not there, or a slice that is not one of whole characters, stops the scanner. Its loops run
until they find their end themselves; the bound on their steps only makes them functions.
-/

namespace NodePipeline.Expr

/-- Why reading stops. -/
inductive Halt
  | fault (fault : SyntaxFault)
  | invalidNumber (text : String)
  /-- A byte, a token or a slice of the source was asked for that does not exist. -/
  | outOfRange
deriving DecidableEq

/-- Reading comes to a result, stops, or has not ended within its bound. -/
abbrev Reading : Type → Type := ExceptT Halt Option

namespace Reading

variable {α : Type}

def unfinished : Reading α := ExceptT.mk none

/-- A result, or the fault of the text. -/
def orFault : Except SyntaxFault α → Reading α
  | .ok a => pure a
  | .error fault => throw (.fault fault)

/-- The reading ends in this way under every bound that is large enough. -/
def Ends (reading : Nat → Reading α) (outcome : Except Halt α) : Prop :=
  ∃ least, ∀ fuel, least ≤ fuel → (reading fuel).run = some outcome

end Reading

/-- A lexeme, the index of its first byte, and the index of the byte behind it. -/
structure Span where
  lexeme : Lexeme
  start : Nat
  stop : Nat
deriving DecidableEq

namespace Source

/-! ## Access to a source -/

/-- The byte at an index, as the character of this code. -/
def byteAt (source : String) (i : Nat) : Reading Char :=
  match (Bytes.ofString source)[i]? with
  | some b => pure (Char.ofNat b.toNat)
  | none => throw .outOfRange

/-- The text between two indices, both of which must stand between characters or at an end. -/
def slice (source : String) (start stop : Nat) : Reading String :=
  if h : start ≤ stop ∧ String.Pos.Raw.IsValid source ⟨start⟩ ∧ String.Pos.Raw.IsValid source ⟨stop⟩
  then pure (source.extract ⟨⟨start⟩, h.2.1⟩ ⟨⟨stop⟩, h.2.2⟩)
  else throw .outOfRange

/-- The first index from `i` on whose byte is of another kind. -/
def skipWhile (source : String) (kind : Char → Bool) : Nat → Nat → Reading Nat
  | 0, _ => .unfinished
  | fuel + 1, i => do
      if i < source.utf8ByteSize then
        if kind (← byteAt source i) then skipWhile source kind fuel (i + 1) else return i
      else return i

/-! ## One token -/

/-- A point and a digit stand at the index. -/
def fractionAt (source : String) (i : Nat) : Reading Bool := do
  if i + 1 < source.utf8ByteSize then
    if (← byteAt source i) = '.' then return (← byteAt source (i + 1)).isDigit else return false
  else return false

def readNumber (source : String) (fuel start : Nat) : Reading (Lexeme × Nat) := do
  let i ← skipWhile source Char.isDigit fuel start
  if ← fractionAt source i then
    let stop ← skipWhile source Char.isDigit fuel (i + 1)
    let text ← slice source start stop
    match Binary64.read? text with
    | some x => return (.float x, stop)
    | none => throw (.invalidNumber text)
  else
    let text ← slice source start i
    let (lexeme, _) ← Reading.orFault (integerLexeme text.toList)
    return (lexeme, i)

def readWord (source : String) (fuel start : Nat) : Reading (Lexeme × Nat) := do
  let stop ← skipWhile source isNamePart fuel start
  let text ← slice source start stop
  return (wordLexeme text.toList, stop)

/-- The characters of a text, each with the number of bytes before it. -/
def charIndices : Nat → List Char → List (Nat × Char)
  | _, [] => []
  | offset, c :: rest => (offset, c) :: charIndices (offset + c.utf8Size) rest

/-- The contents of a string after `text`, and the offset of the byte behind its closing quote. -/
def readQuoted : List Char → List (Nat × Char) → Option (List Char × Nat)
  | _, [] => none
  | text, (offset, '"') :: _ => some (text, offset + 1)
  | text, (_, '\\') :: (_, c) :: rest => readQuoted (text ++ [escapedChar c]) rest
  | _, (_, '\\') :: [] => none
  | text, (_, c) :: rest => readQuoted (text ++ [c]) rest

def readString (source : String) (start : Nat) : Reading (Lexeme × Nat) := do
  let rest ← slice source (start + 1) source.utf8ByteSize
  match readQuoted [] (charIndices 0 rest.toList) with
  | some (text, offset) => return (.str (String.ofList text), start + 1 + offset)
  | none => throw (.fault .unterminatedString)

def readSymbol (source : String) (start : Nat) (c : Char) : Reading (Lexeme × Nat) :=
  let stop := start + 1
  match c with
  | '+' => return (.plus, stop)
  | '-' =>
      if (Bytes.ofString source)[stop]? = some '>'.toUInt8 then return (.arrow, stop + 1)
      else return (.minus, stop)
  | '*' => return (.star, stop)
  | '/' => return (.slash, stop)
  | '(' => return (.openParen, stop)
  | ')' => return (.closeParen, stop)
  | '[' => return (.openBracket, stop)
  | ']' => return (.closeBracket, stop)
  | '{' => return (.openBrace, stop)
  | '}' => return (.closeBrace, stop)
  | ',' => return (.comma, stop)
  | ':' => return (.colon, stop)
  | '=' => return (.equals, stop)
  | '.' => return (.dot, stop)
  | c => throw (.fault (.unexpectedCharacter c))

/-- The lexeme that starts at an index, where the byte is no blank, and the index behind it. -/
def readLexeme (source : String) (fuel start : Nat) (c : Char) : Reading (Lexeme × Nat) :=
  if c.isDigit then readNumber source fuel start
  else if isNameStart c then readWord source fuel start
  else if c = '"' then readString source start
  else readSymbol source start c

/-! ## All tokens -/

/-- The spans that have been found, and those from an index on. -/
def readSpans (source : String) : Nat → List Span → Nat → Reading (List Span)
  | 0, _, _ => .unfinished
  | fuel + 1, found, i => do
      if i < source.utf8ByteSize then
        let c ← byteAt source i
        if isSkipped c then readSpans source fuel found (i + 1)
        else
          let (lexeme, stop) ← readLexeme source fuel i c
          readSpans source fuel (found ++ [⟨lexeme, i, stop⟩]) stop
      else return found

def spans (source : String) (fuel : Nat) : Reading (List Span) := readSpans source fuel [] 0

end Source

end NodePipeline.Expr

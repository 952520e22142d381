import NodePipeline.Binary64.Decimal
import NodePipeline.Bytes

/-!
# Tokens

The lexemes of the expression language and the scanner. A token keeps its text
and the blanks before it, so that the tokens of a source spell the source.
-/

namespace NodePipeline.Expr

inductive Lexeme
  | int (i : Int64)
  | float (x : Binary64)
  | str (s : String)
  | name (s : String)
  | letWord | inWord | fnWord | trueWord | falseWord | nullWord
  | plus | minus | star | slash
  | openParen | closeParen | openBracket | closeBracket | openBrace | closeBrace
  | comma | colon | equals | arrow | dot
deriving DecidableEq

structure Token where
  lexeme : Lexeme
  /-- The blanks between this token and the one before. -/
  gap : List Char
  text : List Char
deriving DecidableEq

/-- Why a text is not an expression. -/
inductive SyntaxFault
  | integerTooLarge (text : String)
  | unterminatedString
  | unexpectedCharacter (c : Char)
  | empty
  | expected (what : String)
  | trailing (text : String)
deriving DecidableEq

def SyntaxFault.message : SyntaxFault → String
  | .integerTooLarge text => "Integer literal '" ++ text ++ "' is too large."
  | .unterminatedString => "Unterminated string literal."
  | .unexpectedCharacter c => "Unexpected character '" ++ String.ofList [c] ++ "'."
  | .empty => "Empty expression."
  | .expected what => "Expected " ++ what ++ "."
  | .trailing text => "Unexpected '" ++ text ++ "' after expression."

/-! ## Scanning one token -/

def isSkipped (c : Char) : Bool :=
  c == ' ' || c == '\t' || c == '\n' || c == '\x0c' || c == '\r'

def isNameStart (c : Char) : Bool := c.isAlpha || c == '_'

def isNamePart (c : Char) : Bool := c.isAlphanum || c == '_'

/-- A name, or the word that it spells. -/
def wordLexeme (text : List Char) : Lexeme :=
  match String.ofList text with
  | "let" => .letWord
  | "in" => .inWord
  | "fn" => .fnWord
  | "true" => .trueWord
  | "false" => .falseWord
  | "null" => .nullWord
  | name => .name name

def integerLexeme (digits : List Char) : Except SyntaxFault (Lexeme × Nat) :=
  let n := Binary64.natOfDigits digits
  if n < 0x8000000000000000 then .ok (.int (Int64.ofInt n), digits.length)
  else .error (.integerTooLarge (String.ofList digits))

/-- Digits are an integer unless a point and another digit follow; then the
digits behind the point belong to the number. -/
def scanNumber (cs : List Char) : Except SyntaxFault (Lexeme × Nat) :=
  let whole := cs.takeWhile Char.isDigit
  match cs.drop whole.length with
  | '.' :: c :: rest =>
      if c.isDigit then
        let fraction := (c :: rest).takeWhile Char.isDigit
        let value :=
          Binary64.ofDecimal false (Binary64.natOfDigits (whole ++ fraction))
            (-(fraction.length : Int))
        .ok (.float value, whole.length + 1 + fraction.length)
      else integerLexeme whole
  | _ => integerLexeme whole

def escapedChar (c : Char) : Char := if c = 'n' then '\n' else if c = 't' then '\t' else c

/-- The contents of a string whose opening quote has been read, and how many
characters they and the closing quote take. -/
def scanString : List Char → Option (List Char × Nat)
  | [] => none
  | '"' :: _ => some ([], 1)
  | '\\' :: c :: rest => (scanString rest).map fun (s, n) => (escapedChar c :: s, n + 2)
  | '\\' :: [] => none
  | c :: rest => (scanString rest).map fun (s, n) => (c :: s, n + 1)

/-- The first byte of a character's UTF-8 form, taken as a code point. -/
def leadingByte (c : Char) : Char :=
  Char.ofNat ((Bytes.ofString (String.ofList [c])).headD 0).toNat

def scanSymbol (c : Char) (rest : List Char) : Except SyntaxFault (Lexeme × Nat) :=
  match c with
  | '+' => .ok (.plus, 1)
  | '-' => if rest.head? = some '>' then .ok (.arrow, 2) else .ok (.minus, 1)
  | '*' => .ok (.star, 1)
  | '/' => .ok (.slash, 1)
  | '(' => .ok (.openParen, 1)
  | ')' => .ok (.closeParen, 1)
  | '[' => .ok (.openBracket, 1)
  | ']' => .ok (.closeBracket, 1)
  | '{' => .ok (.openBrace, 1)
  | '}' => .ok (.closeBrace, 1)
  | ',' => .ok (.comma, 1)
  | ':' => .ok (.colon, 1)
  | '=' => .ok (.equals, 1)
  | '.' => .ok (.dot, 1)
  | c => .error (.unexpectedCharacter (leadingByte c))

/-- The lexeme at the start of a text that does not begin with a blank, and the
number of its characters. -/
def scan (c : Char) (rest : List Char) : Except SyntaxFault (Lexeme × Nat) :=
  if c.isDigit then scanNumber (c :: rest)
  else if isNameStart c then
    let text := (c :: rest).takeWhile isNamePart
    .ok (wordLexeme text, text.length)
  else if c = '"' then
    match scanString rest with
    | some (s, n) => .ok (.str (String.ofList s), n + 1)
    | none => .error .unterminatedString
  else scanSymbol c rest

/-! ## Scanning a source -/

/-- The tokens of a text, of which at most `fuel` are read. -/
def tokensUpTo : Nat → List Char → Except SyntaxFault (List Token)
  | 0, _ => .ok []
  | fuel + 1, cs =>
      let gap := cs.takeWhile isSkipped
      match cs.drop gap.length with
      | [] => .ok []
      | c :: rest => do
          let (lexeme, n) ← scan c rest
          let more ← tokensUpTo fuel ((c :: rest).drop n)
          return ⟨lexeme, gap, (c :: rest).take n⟩ :: more

/-- The tokens of a source; a token takes at least one character. -/
def tokens (cs : List Char) : Except SyntaxFault (List Token) := tokensUpTo (cs.length + 1) cs

/-- The source text that tokens were read from, without the blanks at its ends. -/
def Token.spelling : List Token → List Char
  | [] => []
  | first :: rest => first.text ++ rest.flatMap fun t => t.gap ++ t.text

end NodePipeline.Expr

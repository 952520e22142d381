import NodePipeline.Expr.Basic
import NodePipeline.Expr.Token

/-!
# Parsing expressions

Recursive descent over tokens, a function for each level of the grammar:

    expr    ::= let name = expr in expr | fn(names) -> expr | sum
    sum     ::= product, then any + product and - product
    product ::= unary, then any * unary and / unary
    unary   ::= - unary | postfix
    postfix ::= primary, then any (exprs) and .name
    primary ::= literal | name | ( expr ) | [ exprs ] | { entries }

Every function takes a bound on its depth and gives back the tokens it has not
read. A token takes fewer than ten levels, so `parse` never meets the bound.
-/

namespace NodePipeline.Expr

/-- Reads the given lexeme. -/
def expect (lexeme : Lexeme) (what : String) : List Token → Except SyntaxFault (List Token)
  | t :: rest => if t.lexeme = lexeme then .ok rest else .error (.expected what)
  | [] => .error (.expected what)

def parseName : List Token → Except SyntaxFault (String × List Token)
  | ⟨.name name, _, _⟩ :: rest => .ok (name, rest)
  | _ => .error (.expected "an identifier")

/-- The names after the first of a parameter list, and the closing parenthesis. -/
def parseMoreParams : List Token → Except SyntaxFault (List String × List Token)
  | ⟨.closeParen, _, _⟩ :: rest => .ok ([], rest)
  | ⟨.comma, _, _⟩ :: ⟨.name name, _, _⟩ :: rest => do
      let (names, rest) ← parseMoreParams rest
      return (name :: names, rest)
  | ⟨.comma, _, _⟩ :: _ => .error (.expected "an identifier")
  | _ => .error (.expected "',' between parameters")

/-- A parameter list whose opening parenthesis has been read. -/
def parseParams : List Token → Except SyntaxFault (List String × List Token)
  | ⟨.closeParen, _, _⟩ :: rest => .ok ([], rest)
  | ts => do
      let (name, rest) ← parseName ts
      let (names, rest) ← parseMoreParams rest
      return (name :: names, rest)

/-- The key of a dictionary entry. -/
def parseKey : List Token → Except SyntaxFault (String × List Token)
  | ⟨.name key, _, _⟩ :: rest => .ok (key, rest)
  | ⟨.str key, _, _⟩ :: rest => .ok (key, rest)
  | _ => .error (.expected "a dictionary key")

/-- The source text of the tokens that were read between two points. -/
def sourceBetween (start rest : List Token) : String :=
  String.ofList (Token.spelling (start.take (start.length - rest.length)))

mutual

def parseExpr : Nat → List Token → Except SyntaxFault (Expr × List Token)
  | 0, _ => .error (.expected "an expression")
  | fuel + 1, ⟨.letWord, _, _⟩ :: rest => do
      let (name, rest) ← parseName rest
      let rest ← expect .equals "'=' in let binding" rest
      let (value, rest) ← parseExpr fuel rest
      let rest ← expect .inWord "'in' after let binding" rest
      let (body, rest) ← parseExpr fuel rest
      return (.bind name value body, rest)
  | fuel + 1, ⟨.fnWord, _, _⟩ :: rest => do
      let rest ← expect .openParen "'(' after fn" rest
      let (params, rest) ← parseParams rest
      let start ← expect .arrow "'->' after parameters" rest
      let (body, rest) ← parseExpr fuel start
      return (.lambda params body (sourceBetween start rest), rest)
  | fuel + 1, ts => parseSum fuel ts

def parseSum : Nat → List Token → Except SyntaxFault (Expr × List Token)
  | 0, _ => .error (.expected "an expression")
  | fuel + 1, ts => do
      let (first, rest) ← parseProduct fuel ts
      parseSumRest fuel first rest

/-- The terms after `left`, which groups them to the left. -/
def parseSumRest : Nat → Expr → List Token → Except SyntaxFault (Expr × List Token)
  | 0, _, _ => .error (.expected "an expression")
  | fuel + 1, left, ⟨.plus, _, _⟩ :: rest => do
      let (right, rest) ← parseProduct fuel rest
      parseSumRest fuel (.binary .add left right) rest
  | fuel + 1, left, ⟨.minus, _, _⟩ :: rest => do
      let (right, rest) ← parseProduct fuel rest
      parseSumRest fuel (.binary .sub left right) rest
  | _ + 1, left, ts => .ok (left, ts)

def parseProduct : Nat → List Token → Except SyntaxFault (Expr × List Token)
  | 0, _ => .error (.expected "an expression")
  | fuel + 1, ts => do
      let (first, rest) ← parseUnary fuel ts
      parseProductRest fuel first rest

/-- The factors after `left`, which groups them to the left. -/
def parseProductRest : Nat → Expr → List Token → Except SyntaxFault (Expr × List Token)
  | 0, _, _ => .error (.expected "an expression")
  | fuel + 1, left, ⟨.star, _, _⟩ :: rest => do
      let (right, rest) ← parseUnary fuel rest
      parseProductRest fuel (.binary .mul left right) rest
  | fuel + 1, left, ⟨.slash, _, _⟩ :: rest => do
      let (right, rest) ← parseUnary fuel rest
      parseProductRest fuel (.binary .div left right) rest
  | _ + 1, left, ts => .ok (left, ts)

def parseUnary : Nat → List Token → Except SyntaxFault (Expr × List Token)
  | 0, _ => .error (.expected "an expression")
  | fuel + 1, ⟨.minus, _, _⟩ :: rest => do
      let (e, rest) ← parseUnary fuel rest
      return (.neg e, rest)
  | fuel + 1, ts => do
      let (first, rest) ← parsePrimary fuel ts
      parsePostfixRest fuel first rest

/-- The calls and field accesses after `target`. -/
def parsePostfixRest : Nat → Expr → List Token → Except SyntaxFault (Expr × List Token)
  | 0, _, _ => .error (.expected "an expression")
  | fuel + 1, target, ⟨.openParen, _, _⟩ :: rest => do
      let (args, rest) ← parseItems fuel .closeParen rest
      parsePostfixRest fuel (.call target args) rest
  | fuel + 1, target, ⟨.dot, _, _⟩ :: rest => do
      let (name, rest) ← parseName rest
      parsePostfixRest fuel (.field target name) rest
  | _ + 1, target, ts => .ok (target, ts)

def parsePrimary : Nat → List Token → Except SyntaxFault (Expr × List Token)
  | 0, _ => .error (.expected "an expression")
  | _ + 1, [] => .error (.expected "an expression")
  | fuel + 1, t :: rest =>
      match t.lexeme with
      | .int i => .ok (.literal (.int i), rest)
      | .float x => .ok (.literal (.float x), rest)
      | .str s => .ok (.literal (.str s), rest)
      | .trueWord => .ok (.literal (.bool true), rest)
      | .falseWord => .ok (.literal (.bool false), rest)
      | .nullWord => .ok (.literal .null, rest)
      | .name name => .ok (.var name, rest)
      | .openParen => do
          let (e, rest) ← parseExpr fuel rest
          let rest ← expect .closeParen "')'" rest
          return (e, rest)
      | .openBracket => do
          let (items, rest) ← parseItems fuel .closeBracket rest
          return (.list items, rest)
      | .openBrace => do
          let (entries, rest) ← parseEntries fuel rest
          return (.dict entries, rest)
      | .letWord | .inWord | .fnWord | .plus | .minus | .star | .slash | .closeParen
      | .closeBracket | .closeBrace | .comma | .colon | .equals | .arrow | .dot =>
          .error (.expected "an expression")

/-- Items between commas up to the closing lexeme; the opening one has been read. -/
def parseItems : Nat → Lexeme → List Token → Except SyntaxFault (List Expr × List Token)
  | 0, _, _ => .error (.expected "an expression")
  | fuel + 1, close, ts =>
      match expect close "" ts with
      | .ok rest => .ok ([], rest)
      | .error _ => parseSomeItems fuel close ts

/-- One or more items and the closing lexeme. -/
def parseSomeItems : Nat → Lexeme → List Token → Except SyntaxFault (List Expr × List Token)
  | 0, _, _ => .error (.expected "an expression")
  | fuel + 1, close, ts => do
      let (first, rest) ← parseExpr fuel ts
      match expect close "" rest with
      | .ok rest => .ok ([first], rest)
      | .error _ => do
          let rest ← expect .comma "',' between items" rest
          let (items, rest) ← parseSomeItems fuel close rest
          return (first :: items, rest)

/-- Entries between commas up to the closing brace; the opening one has been read. -/
def parseEntries : Nat → List Token → Except SyntaxFault (List (String × Expr) × List Token)
  | 0, _ => .error (.expected "an expression")
  | _ + 1, ⟨.closeBrace, _, _⟩ :: rest => .ok ([], rest)
  | fuel + 1, ts => parseSomeEntries fuel ts

/-- One or more entries and the closing brace. -/
def parseSomeEntries : Nat → List Token → Except SyntaxFault (List (String × Expr) × List Token)
  | 0, _ => .error (.expected "an expression")
  | fuel + 1, ts => do
      let (key, rest) ← parseKey ts
      let rest ← expect .colon "':' after dictionary key" rest
      let (value, rest) ← parseExpr fuel rest
      match expect .closeBrace "" rest with
      | .ok rest => .ok ([(key, value)], rest)
      | .error _ => do
          let rest ← expect .comma "',' between entries" rest
          let (entries, rest) ← parseSomeEntries fuel rest
          return ((key, value) :: entries, rest)

end

/-- The expression that all the tokens together make. -/
def parseTokens (ts : List Token) : Except SyntaxFault Expr :=
  if ts.isEmpty then .error .empty
  else do
    match ← parseExpr (10 * (ts.length + 1)) ts with
    | (e, []) => return e
    | (_, extra :: _) => .error (.trailing (String.ofList extra.text))

def parse (source : String) : Except SyntaxFault Expr := do
  parseTokens (← tokens source.toList)

end NodePipeline.Expr

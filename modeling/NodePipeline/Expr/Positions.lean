import NodePipeline.Expr.Parser
import NodePipeline.Expr.Spans
import NodePipeline.Text.Characters

/-!
# Parsing in place

The levels of `parseExpr` hand on the tokens that are left. The parser here keeps all the spans
of a source and an index to the next one. It cuts the text of a function out of the source, from
the start of the token at which the body begins to the end of the last token read. A parse that
meets the bound on the depth has not ended, and is not at fault.
-/

namespace NodePipeline.Expr

/-- A source and the spans of its tokens. -/
structure Input where
  source : String
  spans : List Span

namespace Input

def lexemeAt (input : Input) (pos : Nat) : Option Lexeme := input.spans[pos]?.map (·.lexeme)

/-- The span of the token that was read last. -/
def spanBefore (input : Input) (pos : Nat) : Reading Span :=
  match pos with
  | 0 => throw .outOfRange
  | last + 1 =>
      match input.spans[last]? with
      | some span => pure span
      | none => throw .outOfRange

/-- The index at which the text of the next token starts, or the end of the source. -/
def startAt (input : Input) (pos : Nat) : Nat :=
  match input.spans[pos]? with
  | some span => span.start
  | none => input.source.utf8ByteSize

/-- Reads the given lexeme. -/
def expect (input : Input) (lexeme : Lexeme) (what : String) (pos : Nat) : Reading Nat :=
  if input.lexemeAt pos = some lexeme then pure (pos + 1)
  else throw (.fault (.expected what))

def name (input : Input) (pos : Nat) : Reading (String × Nat) :=
  match input.lexemeAt pos with
  | some (.name name) => pure (name, pos + 1)
  | _ => throw (.fault (.expected "an identifier"))

/-- The key of a dictionary entry. -/
def key (input : Input) (pos : Nat) : Reading (String × Nat) :=
  match input.lexemeAt pos with
  | some (.name key) => pure (key, pos + 1)
  | some (.str key) => pure (key, pos + 1)
  | _ => throw (.fault (.expected "a dictionary key"))

/-- One or more parameters and the closing parenthesis. -/
def someParams (input : Input) : Nat → Nat → Reading (List String × Nat)
  | 0, _ => .unfinished
  | fuel + 1, pos => do
      let (name, pos) ← input.name pos
      if input.lexemeAt pos = some .closeParen then return ([name], pos + 1)
      else
        let pos ← input.expect .comma "',' between parameters" pos
        let (names, pos) ← input.someParams fuel pos
        return (name :: names, pos)

/-- A parameter list whose opening parenthesis has been read. -/
def params (input : Input) (fuel pos : Nat) : Reading (List String × Nat) :=
  if input.lexemeAt pos = some .closeParen then return ([], pos + 1)
  else input.someParams fuel pos

mutual

def expr (input : Input) : Nat → Nat → Reading (Expr × Nat)
  | 0, _ => .unfinished
  | fuel + 1, pos => do
      match input.lexemeAt pos with
      | some .letWord =>
          let (name, pos) ← input.name (pos + 1)
          let pos ← input.expect .equals "'=' in let binding" pos
          let (value, pos) ← input.expr fuel pos
          let pos ← input.expect .inWord "'in' after let binding" pos
          let (body, pos) ← input.expr fuel pos
          return (.bind name value body, pos)
      | some .fnWord =>
          let pos ← input.expect .openParen "'(' after fn" (pos + 1)
          let (params, pos) ← input.params fuel pos
          let pos ← input.expect .arrow "'->' after parameters" pos
          let start := input.startAt pos
          let (body, pos) ← input.expr fuel pos
          let last ← input.spanBefore pos
          let text ← Source.slice input.source start last.stop
          return (.lambda params body (Text.trim text), pos)
      | _ => input.sum fuel pos

def sum (input : Input) : Nat → Nat → Reading (Expr × Nat)
  | 0, _ => .unfinished
  | fuel + 1, pos => do
      let (first, pos) ← input.product fuel pos
      input.sumRest fuel first pos

/-- The terms after `left`, which groups them to the left. -/
def sumRest (input : Input) : Nat → Expr → Nat → Reading (Expr × Nat)
  | 0, _, _ => .unfinished
  | fuel + 1, left, pos => do
      match input.lexemeAt pos with
      | some .plus =>
          let (right, pos) ← input.product fuel (pos + 1)
          input.sumRest fuel (.binary .add left right) pos
      | some .minus =>
          let (right, pos) ← input.product fuel (pos + 1)
          input.sumRest fuel (.binary .sub left right) pos
      | _ => return (left, pos)

def product (input : Input) : Nat → Nat → Reading (Expr × Nat)
  | 0, _ => .unfinished
  | fuel + 1, pos => do
      let (first, pos) ← input.unary fuel pos
      input.productRest fuel first pos

/-- The factors after `left`, which groups them to the left. -/
def productRest (input : Input) : Nat → Expr → Nat → Reading (Expr × Nat)
  | 0, _, _ => .unfinished
  | fuel + 1, left, pos => do
      match input.lexemeAt pos with
      | some .star =>
          let (right, pos) ← input.unary fuel (pos + 1)
          input.productRest fuel (.binary .mul left right) pos
      | some .slash =>
          let (right, pos) ← input.unary fuel (pos + 1)
          input.productRest fuel (.binary .div left right) pos
      | _ => return (left, pos)

def unary (input : Input) : Nat → Nat → Reading (Expr × Nat)
  | 0, _ => .unfinished
  | fuel + 1, pos => do
      if input.lexemeAt pos = some .minus then
        let (e, pos) ← input.unary fuel (pos + 1)
        return (.neg e, pos)
      else
        let (first, pos) ← input.primary fuel pos
        input.postfixRest fuel first pos

/-- The calls and field accesses after `target`. -/
def postfixRest (input : Input) : Nat → Expr → Nat → Reading (Expr × Nat)
  | 0, _, _ => .unfinished
  | fuel + 1, target, pos => do
      match input.lexemeAt pos with
      | some .openParen =>
          let (args, pos) ← input.items fuel .closeParen (pos + 1)
          input.postfixRest fuel (.call target args) pos
      | some .dot =>
          let (name, pos) ← input.name (pos + 1)
          input.postfixRest fuel (.field target name) pos
      | _ => return (target, pos)

def primary (input : Input) : Nat → Nat → Reading (Expr × Nat)
  | 0, _ => .unfinished
  | fuel + 1, pos => do
      match input.lexemeAt pos with
      | none => throw (.fault (.expected "an expression"))
      | some lexeme =>
          match lexeme with
          | .int i => return (.literal (.int i), pos + 1)
          | .float x => return (.literal (.float x), pos + 1)
          | .str s => return (.literal (.str s), pos + 1)
          | .trueWord => return (.literal (.bool true), pos + 1)
          | .falseWord => return (.literal (.bool false), pos + 1)
          | .nullWord => return (.literal .null, pos + 1)
          | .name name => return (.var name, pos + 1)
          | .openParen =>
              let (e, pos) ← input.expr fuel (pos + 1)
              let pos ← input.expect .closeParen "')'" pos
              return (e, pos)
          | .openBracket =>
              let (items, pos) ← input.items fuel .closeBracket (pos + 1)
              return (.list items, pos)
          | .openBrace =>
              let (entries, pos) ← input.entries fuel (pos + 1)
              return (.dict entries, pos)
          | .letWord | .inWord | .fnWord | .plus | .minus | .star | .slash | .closeParen
          | .closeBracket | .closeBrace | .comma | .colon | .equals | .arrow | .dot =>
              throw (.fault (.expected "an expression"))

/-- Items between commas up to the closing lexeme; the opening one has been read. -/
def items (input : Input) : Nat → Lexeme → Nat → Reading (List Expr × Nat)
  | 0, _, _ => .unfinished
  | fuel + 1, close, pos =>
      if input.lexemeAt pos = some close then return ([], pos + 1)
      else input.someItems fuel close pos

/-- One or more items and the closing lexeme. -/
def someItems (input : Input) : Nat → Lexeme → Nat → Reading (List Expr × Nat)
  | 0, _, _ => .unfinished
  | fuel + 1, close, pos => do
      let (first, pos) ← input.expr fuel pos
      if input.lexemeAt pos = some close then return ([first], pos + 1)
      else
        let pos ← input.expect .comma "',' between items" pos
        let (items, pos) ← input.someItems fuel close pos
        return (first :: items, pos)

/-- Entries between commas up to the closing brace; the opening one has been read. -/
def entries (input : Input) : Nat → Nat → Reading (List (String × Expr) × Nat)
  | 0, _ => .unfinished
  | fuel + 1, pos =>
      if input.lexemeAt pos = some .closeBrace then return ([], pos + 1)
      else input.someEntries fuel pos

/-- One or more entries and the closing brace. -/
def someEntries (input : Input) : Nat → Nat → Reading (List (String × Expr) × Nat)
  | 0, _ => .unfinished
  | fuel + 1, pos => do
      let (key, pos) ← input.key pos
      let pos ← input.expect .colon "':' after dictionary key" pos
      let (value, pos) ← input.expr fuel pos
      if input.lexemeAt pos = some .closeBrace then return ([(key, value)], pos + 1)
      else
        let pos ← input.expect .comma "',' between entries" pos
        let (entries, pos) ← input.someEntries fuel pos
        return ((key, value) :: entries, pos)

end

end Input

/-- The expression that a source is, read in place. -/
def Source.parse (source : String) (fuel : Nat) : Reading Expr := do
  let spans ← Source.spans source fuel
  if spans.isEmpty then throw (.fault .empty)
  else
    let (e, pos) ← Input.expr ⟨source, spans⟩ fuel 0
    match spans[pos]? with
    | some extra =>
        let text ← Source.slice source extra.start extra.stop
        throw (.fault (.trailing text))
    | none => return e

end NodePipeline.Expr

import NodePipeline.Text.Characters

/-!
# Words of shell commands

A script is a sequence of words, redirections and symbols. Quotes take blanks and
symbols their meaning, double quotes not that of the dollar sign.
-/

namespace NodePipeline.Shell

/-- A part of a word: a text, or what a text is put in the place of. What stands
outside quotes is split into words at its blanks. -/
inductive WordPart
  | text (s : List Char)
  | variable (name : String) (quoted : Bool)
  /-- The output of a script. -/
  | output (script : List Char) (quoted : Bool)
  | arithmetic (expression : List Char) (quoted : Bool)
deriving DecidableEq

/-- Where a stream is sent to or taken from. -/
inductive Redirect
  /-- To where another stream goes. -/
  | stream (n source : Nat)
  | write (n : Nat) (append : Bool) (path : List WordPart)
  | read (path : List WordPart)
deriving DecidableEq

inductive Symbol
  | next | andThen | orElse | pipe | openParen | closeParen
deriving DecidableEq

inductive ShellToken
  /-- A word as it is spelled, and its parts. -/
  | word (spelling : List Char) (parts : List WordPart)
  | redirect (r : Redirect)
  | symbol (s : Symbol)
deriving DecidableEq

def isBareBlank (c : Char) : Bool := c == ' ' || c == '\t'

/-- Characters that end a word outside quotes. -/
def endsWord (c : Char) : Bool := isBareBlank c || "\n;&|<>()".toList.contains c

def singleQuote : Char := Char.ofNat 39

def backQuote : Char := Char.ofNat 96

def isNamePart (c : Char) : Bool := c.isAlphanum || c == '_'

/-- What stands before the parenthesis that closes as many as are open, and behind
it. Parentheses in quotes do not count. -/
def scanParens (depth : Nat) (quote : Option Char) : List Char → Option (List Char × List Char)
  | [] => none
  | c :: rest =>
      let keep := fun ((inner, rest) : List Char × List Char) => (c :: inner, rest)
      match quote with
      | some q => (scanParens depth (if c = q then none else quote) rest).map keep
      | none =>
          if c = singleQuote ∨ c = '"' then (scanParens depth (some c) rest).map keep
          else if c = '(' then (scanParens (depth + 1) none rest).map keep
          else if c = ')' then
            match depth with
            | 0 => some ([], rest)
            | depth + 1 => (scanParens depth none rest).map keep
          else (scanParens depth none rest).map keep

/-- The part that a text in parentheses behind a dollar sign stands for. -/
def parenPart (quoted : Bool) (inner : List Char) : WordPart :=
  match inner with
  | '(' :: rest =>
      if rest.getLast? = some ')' then .arithmetic rest.dropLast quoted
      else .output inner quoted
  | _ => .output inner quoted

/-- The part that begins with a dollar sign, and what follows it: one special
character or digit, a name, or anything in braces or parentheses. A dollar sign
before anything else stands for itself. -/
def scanDollar (quoted : Bool) (cs : List Char) : WordPart × List Char :=
  match cs with
  | [] => (.text ['$'], [])
  | c :: rest =>
      if c = '{' then
        let name := rest.takeWhile (· != '}')
        match rest.drop name.length with
        | _ :: rest => (.variable (String.ofList name) quoted, rest)
        | [] => (.text ['$'], cs)
      else if c = '(' then
        match scanParens 0 none rest with
        | some (inner, rest) => (parenPart quoted inner, rest)
        | none => (.text ['$'], cs)
      else if c.isDigit || "$?#@*!".toList.contains c then
        (.variable (String.singleton c) quoted, rest)
      else if isNamePart c then
        let name := cs.takeWhile isNamePart
        (.variable (String.ofList name) quoted, cs.drop name.length)
      else (.text ['$'], cs)

/-- The output of the script up to the next back quote, and what follows that. -/
def scanBackQuoted (quoted : Bool) (cs : List Char) : Option (WordPart × List Char) :=
  let inner := cs.takeWhile (· != backQuote)
  match cs.drop inner.length with
  | _ :: rest => some (.output inner quoted, rest)
  | [] => none

/-- The parts between double quotes, and what follows the closing one. -/
def scanDouble : Nat → List Char → Option (List WordPart × List Char)
  | 0, _ => none
  | _ + 1, [] => none
  | fuel + 1, c :: rest =>
      if c = '"' then some ([], rest)
      else if c = '\\' then
        match rest with
        | [] => none
        | d :: rest =>
            let special := "$\"\\".toList.contains d || d == backQuote
            (scanDouble fuel rest).map fun (parts, rest) =>
              (.text (if special then [d] else [c, d]) :: parts, rest)
      else if c = '$' then
        let (part, rest) := scanDollar true rest
        (scanDouble fuel rest).map fun (parts, rest) => (part :: parts, rest)
      else if c = backQuote then do
        let (part, rest) ← scanBackQuoted true rest
        let (parts, rest) ← scanDouble fuel rest
        return (part :: parts, rest)
      else (scanDouble fuel rest).map fun (parts, rest) => (.text [c] :: parts, rest)

/-- The parts of a word, and what follows it. An unfinished quote is refused. -/
def scanWord : Nat → List Char → Option (List WordPart × List Char)
  | 0, _ => none
  | _ + 1, [] => some ([], [])
  | fuel + 1, c :: rest =>
      if endsWord c then some ([], c :: rest)
      else if c = singleQuote then
        let inner := rest.takeWhile (· != singleQuote)
        match rest.drop inner.length with
        | _ :: rest =>
            (scanWord fuel rest).map fun (parts, rest) => (.text inner :: parts, rest)
        | [] => none
      else if c = '"' then do
        let (inner, rest) ← scanDouble fuel rest
        let (parts, rest) ← scanWord fuel rest
        return ((if inner.isEmpty then [.text []] else inner) ++ parts, rest)
      else if c = '\\' then
        match rest with
        | [] => some ([.text [c]], [])
        | d :: rest => (scanWord fuel rest).map fun (parts, rest) => (.text [d] :: parts, rest)
      else if c = '$' then
        let (part, rest) := scanDollar false rest
        (scanWord fuel rest).map fun (parts, rest) => (part :: parts, rest)
      else if c = backQuote then do
        let (part, rest) ← scanBackQuoted false rest
        let (parts, rest) ← scanWord fuel rest
        return (part :: parts, rest)
      else (scanWord fuel rest).map fun (parts, rest) => (.text [c] :: parts, rest)

/-- The redirection of a stream behind its sign, and what follows it. -/
def scanOutput (fuel stream : Nat) (cs : List Char) : Option (Redirect × List Char) :=
  match cs with
  | '&' :: c :: rest => if c.isDigit then some (.stream stream (c.toNat - 48), rest) else none
  | cs => do
      let (append, cs) := match cs with
        | '>' :: rest => (true, rest)
        | cs => (false, cs)
      let (parts, rest) ← scanWord fuel (cs.dropWhile isBareBlank)
      if parts.isEmpty then none else return (.write stream append parts, rest)

def scanInput (fuel : Nat) (cs : List Char) : Option (Redirect × List Char) := do
  let (parts, rest) ← scanWord fuel (cs.dropWhile isBareBlank)
  if parts.isEmpty then none else return (.read parts, rest)

def scanSpelled (fuel : Nat) (cs : List Char) : Option (ShellToken × List Char) := do
  let (parts, rest) ← scanWord fuel cs
  if parts.isEmpty then none
  else return (.word (cs.take (cs.length - rest.length)) parts, rest)

/-- The token at the beginning of a text, and what follows it. -/
def scanToken (fuel : Nat) (c : Char) (rest : List Char) : Option (ShellToken × List Char) :=
  match c, rest with
  | '&', '&' :: rest => some (.symbol .andThen, rest)
  | '|', '|' :: rest => some (.symbol .orElse, rest)
  | '|', rest => some (.symbol .pipe, rest)
  | ';', rest => some (.symbol .next, rest)
  | '&', rest => some (.symbol .next, rest)
  | '\n', rest => some (.symbol .next, rest)
  | '(', rest => some (.symbol .openParen, rest)
  | ')', rest => some (.symbol .closeParen, rest)
  | '>', rest => (scanOutput fuel 1 rest).map fun (r, rest) => (.redirect r, rest)
  | '<', rest => (scanInput fuel rest).map fun (r, rest) => (.redirect r, rest)
  | _, '>' :: more =>
      if c.isDigit then
        (scanOutput fuel (c.toNat - 48) more).map fun (r, rest) => (.redirect r, rest)
      else scanSpelled fuel (c :: rest)
  | _, _ => scanSpelled fuel (c :: rest)

/-- A script as tokens; none if it is not well-formed. -/
def tokens : Nat → List Char → Option (List ShellToken)
  | 0, _ => none
  | _ + 1, [] => some []
  | fuel + 1, c :: rest =>
      if isBareBlank c then tokens fuel rest
      else if c = '#' then tokens fuel (rest.dropWhile (· != '\n'))
      else do
        let (token, rest) ← scanToken fuel c rest
        return token :: (← tokens fuel rest)

/-! ## Splitting -/

/-- Adds a text to the last of the words that are being put together. -/
def addText (words : List (List Char)) (text : List Char) : List (List Char) :=
  match words with
  | [] => [text]
  | w :: rest => (w ++ text) :: rest

/-- The words of a text that is split at its blanks. -/
def splitBlanks (text : List Char) : List (List Char) :=
  ((text.splitOnP fun c => isBareBlank c || c == '\n').filter (!·.isEmpty))

/-- Adds a text that is split at its blanks; the words are put together from the
last to the first. Only a word without any quotes or other text can stay empty. -/
def addSplit (words : List (List Char)) (text : List Char) : List (List Char) :=
  match splitBlanks text with
  | [] => words
  | first :: more => more.reverse ++ addText words first

end NodePipeline.Shell

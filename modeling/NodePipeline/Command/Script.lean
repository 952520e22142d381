import NodePipeline.Command.Word

/-!
# Scripts

Simple commands, and how a shell puts them together: in sequences, pipes and
groups, under conditions and in loops.
-/

namespace NodePipeline.Shell

inductive Script
  | nothing
  | simple (words : List (List Char × List WordPart)) (redirects : List Redirect)
  | next (first second : Script)
  | andThen (first second : Script)
  | orElse (first second : Script)
  | not (s : Script)
  | pipe (first second : Script)
  /-- Commands with redirections of their own, perhaps in a shell of their own. -/
  | group (apart : Bool) (s : Script) (redirects : List Redirect)
  | choose (condition yes no : Script)
  /-- Runs the body as long as the condition succeeds, or as long as it fails. -/
  | loop (whileTrue : Bool) (condition body : Script)
  | each (name : String) (words : List (List WordPart)) (body : Script)

instance : Inhabited Script := ⟨.nothing⟩

/-- The words that end a sequence of commands. -/
def closingWords : List String := ["then", "else", "elif", "fi", "do", "done", "\x7d"]

def spells (word : String) (spelling : List Char) : Bool := spelling == word.toList

/-- Whether no command begins here. -/
def atEnd : List ShellToken → Bool
  | [] => true
  | .symbol .closeParen :: _ => true
  | .word spelling _ :: _ => closingWords.any fun word => spells word spelling
  | _ => false

def skipNext : List ShellToken → List ShellToken
  | .symbol .next :: rest => skipNext rest
  | ts => ts

/-- The tokens behind the given word. -/
def expectWord (word : String) : List ShellToken → Option (List ShellToken)
  | .word spelling _ :: rest => if spells word spelling then some rest else none
  | _ => none

def takeRedirects : List ShellToken → List Redirect × List ShellToken
  | .redirect r :: rest =>
      let (redirects, rest) := takeRedirects rest
      (r :: redirects, rest)
  | ts => ([], ts)

/-- The words and redirections of a simple command. -/
def takeSimple : List ShellToken →
    (List (List Char × List WordPart) × List Redirect) × List ShellToken
  | .word spelling parts :: rest =>
      let ((words, redirects), rest) := takeSimple rest
      (((spelling, parts) :: words, redirects), rest)
  | .redirect r :: rest =>
      let ((words, redirects), rest) := takeSimple rest
      ((words, r :: redirects), rest)
  | ts => (([], []), ts)

def takeWords : List ShellToken → List (List WordPart) × List ShellToken
  | .word _ parts :: rest =>
      let (words, rest) := takeWords rest
      (parts :: words, rest)
  | ts => ([], ts)

/-- A script and the tokens behind it. -/
abbrev Parsed : Type := Option (Script × List ShellToken)

/-- Puts a group around what has been read if redirections follow it. -/
def withRedirects (s : Script) (ts : List ShellToken) : Script × List ShellToken :=
  match takeRedirects ts with
  | ([], ts) => (s, ts)
  | (redirects, ts) => (.group false s redirects, ts)

mutual

/-- Commands one after the other, up to where none begins. -/
def parseSequence : Nat → List ShellToken → Parsed
  | 0, _ => none
  | fuel + 1, ts =>
      let ts := skipNext ts
      if atEnd ts then some (.nothing, ts)
      else do
        let (first, ts) ← parsePipeline fuel ts
        let (first, ts) ← parseConditional fuel first ts
        match ts with
        | .symbol .next :: _ =>
            let (more, ts) ← parseSequence fuel ts
            return (match more with
              | .nothing => first
              | more => .next first more, ts)
        | ts => return (first, ts)

/-- Goes on behind a command with those that depend on its status. -/
def parseConditional : Nat → Script → List ShellToken → Parsed
  | 0, _, _ => none
  | fuel + 1, first, ts =>
      match ts with
      | .symbol .andThen :: rest => do
          let (second, ts) ← parsePipeline fuel (skipNext rest)
          parseConditional fuel (.andThen first second) ts
      | .symbol .orElse :: rest => do
          let (second, ts) ← parsePipeline fuel (skipNext rest)
          parseConditional fuel (.orElse first second) ts
      | ts => some (first, ts)

def parsePipeline : Nat → List ShellToken → Parsed
  | 0, _ => none
  | fuel + 1, ts =>
      match expectWord "!" ts with
      | some rest => do
          let (s, ts) ← parsePipeline fuel rest
          return (.not s, ts)
      | none => do
          let (first, ts) ← parseCommand fuel ts
          match ts with
          | .symbol .pipe :: rest =>
              let (second, ts) ← parsePipeline fuel (skipNext rest)
              return (.pipe first second, ts)
          | ts => return (first, ts)

def parseCommand : Nat → List ShellToken → Parsed
  | 0, _ => none
  | fuel + 1, ts =>
      match ts with
      | .symbol .openParen :: rest => do
          let (s, ts) ← parseSequence fuel rest
          match ts with
          | .symbol .closeParen :: rest =>
              let (redirects, rest) := takeRedirects rest
              return (.group true s redirects, rest)
          | _ => none
      | .symbol _ :: _ => none
      | [] => none
      | .redirect _ :: _ =>
          let ((words, redirects), rest) := takeSimple ts
          some (.simple words redirects, rest)
      | .word spelling _ :: rest =>
          if spells "\x7b" spelling then do
            let (s, ts) ← parseSequence fuel rest
            return withRedirects s (← expectWord "\x7d" ts)
          else if spells "if" spelling then do
            let (s, ts) ← parseChoice fuel rest
            return withRedirects s ts
          else if spells "while" spelling then do
            let (s, ts) ← parseLoop fuel true rest
            return withRedirects s ts
          else if spells "until" spelling then do
            let (s, ts) ← parseLoop fuel false rest
            return withRedirects s ts
          else if spells "for" spelling then do
            let (s, ts) ← parseEach fuel rest
            return withRedirects s ts
          else
            let ((words, redirects), rest) := takeSimple ts
            some (.simple words redirects, rest)

/-- A condition and its branches, behind the word that begins them. -/
def parseChoice : Nat → List ShellToken → Parsed
  | 0, _ => none
  | fuel + 1, ts => do
      let (condition, ts) ← parseSequence fuel ts
      let (yes, ts) ← parseSequence fuel (← expectWord "then" ts)
      match expectWord "elif" ts with
      | some rest =>
          let (no, ts) ← parseChoice fuel rest
          return (.choose condition yes no, ts)
      | none =>
          match expectWord "else" ts with
          | some rest =>
              let (no, ts) ← parseSequence fuel rest
              return (.choose condition yes no, ← expectWord "fi" ts)
          | none => return (.choose condition yes .nothing, ← expectWord "fi" ts)

def parseBody : Nat → List ShellToken → Parsed
  | 0, _ => none
  | fuel + 1, ts => do
      let (body, ts) ← parseSequence fuel (← expectWord "do" (skipNext ts))
      return (body, ← expectWord "done" ts)

def parseLoop : Nat → Bool → List ShellToken → Parsed
  | 0, _, _ => none
  | fuel + 1, whileTrue, ts => do
      let (condition, ts) ← parseSequence fuel ts
      let (body, ts) ← parseBody fuel ts
      return (.loop whileTrue condition body, ts)

/-- A loop over words; without any it goes over the arguments. -/
def parseEach : Nat → List ShellToken → Parsed
  | 0, _ => none
  | fuel + 1, ts =>
      match ts with
      | .word name _ :: rest => do
          let (words, rest) := match expectWord "in" rest with
            | some rest => takeWords rest
            | none => ([[.variable "@" true]], rest)
          let (body, ts) ← parseBody fuel rest
          return (.each (String.ofList name) words body, ts)
      | _ => none

end

/-! ## Whole scripts -/

/-- Why a text is not a script. -/
inductive ScriptFault
  | quoteUnclosed
  | unexpected (spelling : String)
  | unfinished
deriving DecidableEq

def ScriptFault.message : ScriptFault → String
  | .quoteUnclosed => "Syntax error: Unterminated quoted string"
  | .unexpected spelling => "Syntax error: \"" ++ spelling ++ "\" unexpected"
  | .unfinished => "Syntax error: end of file unexpected"

def ShellToken.spelling : ShellToken → String
  | .word spelling _ => String.ofList spelling
  | .redirect _ => "redirection"
  | .symbol .next => ";"
  | .symbol .andThen => "&&"
  | .symbol .orElse => "||"
  | .symbol .pipe => "|"
  | .symbol .openParen => "("
  | .symbol .closeParen => ")"

/-- The script that a text is. -/
def parseScript (source : List Char) : Except ScriptFault Script :=
  match tokens (2 * source.length + 2) source with
  | none => .error .quoteUnclosed
  | some ts =>
      match parseSequence (8 * ts.length + 8) ts with
      | some (s, []) => .ok s
      | some (_, t :: _) => .error (.unexpected t.spelling)
      | none => .error .unfinished

end NodePipeline.Shell

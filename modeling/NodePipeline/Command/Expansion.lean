import NodePipeline.Command.State
import NodePipeline.Command.Word

/-!
# Expansion of words

What words become when a command is run: the values of variables and of
arithmetic, and the output of scripts, are put in and split at their blanks.
Redirections then say where streams go.
-/

namespace NodePipeline.Shell

/-- The process that runs a script. -/
def ownProcess : String := "2"

/-! ## Variables -/

/-- What a script runs with: the name that it goes by, its arguments, and how a
script in a word is run. -/
structure Context where
  name : String
  args : List String
  runInner : List Char → ShellState → ShellState

def Context.value (ctx : Context) (st : ShellState) (name : String) : String :=
  if name = "$" then ownProcess
  else if name = "?" then toString st.status
  else if name = "#" then toString ctx.args.length
  else if name = "@" ∨ name = "*" then " ".intercalate ctx.args
  else if name = "0" then ctx.name
  else match name.toNat? with
    | some n => ctx.args.getD (n - 1) ""
    | none => ((st.bindings.find? (·.1 == name)).map Prod.snd).getD ""

/-- What a name in a word stands for. It may have a text behind it that takes the
place of an empty value. -/
def Context.lookup (ctx : Context) (st : ShellState) (name : String) : String :=
  match name.splitOn ":-" with
  | [name, instead] =>
      let value := ctx.value st name
      if value.isEmpty then instead else value
  | _ => ctx.value st name

/-! ## Arithmetic -/

/-- The value of a number, a name, or a term in parentheses or behind a sign. -/
def scanFactor (value : String → Int) (sum : List Char → Int × List Char) :
    List Char → Int × List Char
  | [] => (0, [])
  | c :: rest =>
      if isBareBlank c || c == '$' then scanFactor value sum rest
      else if c = '-' then
        let (n, rest) := scanFactor value sum rest
        (-n, rest)
      else if c = '(' then
        let (n, rest) := sum rest
        (n, (rest.dropWhile isBareBlank).drop 1)
      else
        let word := (c :: rest).takeWhile isNamePart
        let text := String.ofList word
        ((text.toInt?).getD (value text), (c :: rest).drop word.length)

def applySign (c : Char) (a b : Int) : Int :=
  if c = '+' then a + b
  else if c = '-' then a - b
  else if c = '*' then a * b
  else if c = '/' then a.tdiv b
  else a.tmod b

/-- Goes on behind a value with the signs of one rank and their right sides. -/
def scanChain (signs : List Char) (operand : List Char → Int × List Char) :
    Nat → Int → List Char → Int × List Char
  | 0, n, cs => (n, cs)
  | fuel + 1, n, cs =>
      match cs.dropWhile isBareBlank with
      | c :: rest =>
          if signs.contains c then
            let (m, rest) := operand rest
            scanChain signs operand fuel (applySign c n m) rest
          else (n, c :: rest)
      | [] => (n, [])

/-- The value of a sum of products. -/
def scanSum (value : String → Int) : Nat → List Char → Int × List Char
  | 0, cs => (0, cs)
  | fuel + 1, cs =>
      let factor := scanFactor value (scanSum value fuel)
      let product (cs : List Char) : Int × List Char :=
        let (n, rest) := factor cs
        scanChain ['*', '/', '%'] factor fuel n rest
      let (n, rest) := product cs
      scanChain ['+', '-'] product fuel n rest

/-! ## Words -/

/-- The text of a command's output, without the line feeds at its end. -/
def outputText (bytes : Bytes) : List Char :=
  let kept := (bytes.reverse.dropWhile (· == 10)).reverse
  ((Bytes.toString? kept).getD "").toList

/-- What a part of a word becomes. -/
inductive Expanded
  | whole (text : List Char)
  | split (text : List Char)
  /-- Words of their own, of which the first and the last join what is beside them. -/
  | several (words : List (List Char))

def Expanded.ofText (quoted : Bool) (text : List Char) : Expanded :=
  if quoted then .whole text else .split text

def Expanded.text : Expanded → List Char
  | .whole text => text
  | .split text => text
  | .several words => [' '].intercalate words

/-- Adds what a part becomes to the words, which are put together from the last to
the first. -/
def Expanded.addTo (words : List (List Char)) : Expanded → List (List Char)
  | .whole text => addText words text
  | .split text => addSplit words text
  | .several [] => words
  | .several (first :: more) => more.reverse ++ addText words first

/-- What a part of a word becomes. -/
def Context.expandPart (ctx : Context) (st : ShellState) : WordPart → ShellState × Expanded
  | .text s => (st, .whole s)
  | .variable name quoted =>
      if quoted && name == "@" then (st, .several (ctx.args.map String.toList))
      else (st, .ofText quoted (ctx.lookup st name).toList)
  | .output script quoted =>
      let (st, bytes) := st.capture (ctx.runInner script)
      (st, .ofText quoted (outputText bytes))
  | .arithmetic expression quoted =>
      let value (name : String) : Int := ((ctx.lookup st name).toInt?).getD 0
      let n := (scanSum value (expression.length + 1) expression).1
      (st, .ofText quoted (toString n).toList)

def Context.expandWord (ctx : Context) (st : ShellState) (parts : List WordPart) :
    ShellState × List String :=
  let (st, words) := parts.foldl
    (fun (st, words) part =>
      let (st, expanded) := ctx.expandPart st part
      (st, expanded.addTo words))
    (st, [])
  (st, words.reverse.map String.ofList)

def Context.expandWords (ctx : Context) (st : ShellState) (words : List (List WordPart)) :
    ShellState × List String :=
  words.foldl
    (fun (st, words) parts =>
      let (st, more) := ctx.expandWord st parts
      (st, words ++ more))
    (st, [])

/-- The one text that a word becomes where words are not split. -/
def Context.expandText (ctx : Context) (st : ShellState) (parts : List WordPart) :
    ShellState × String :=
  let (st, text) := parts.foldl
    (fun (st, text) part =>
      let (st, expanded) := ctx.expandPart st part
      (st, text ++ expanded.text))
    (st, ([] : List Char))
  (st, String.ofList text)

/-! ## Redirections -/

def ShellState.target (st : ShellState) (stream : Nat) : Target :=
  if stream = 1 then st.stdout else if stream = 2 then st.stderr else .nowhere

def ShellState.send (st : ShellState) (stream : Nat) (target : Target) : ShellState :=
  if stream = 1 then { st with stdout := target }
  else if stream = 2 then { st with stderr := target }
  else st

/-- Makes a file to write to, which is emptied unless it is added to. -/
def ShellState.openFile (st : ShellState) (append : Bool) (path : String) :
    Except DiskFault (ShellState × Target) :=
  if path = "/dev/null" then .ok (st, .nowhere)
  else do
    let disk ← if append && st.disk.isFile path then pure st.disk else st.disk.write path []
    return ({ st with disk }, .file path)

/-- Makes one redirection. -/
def Context.redirect (ctx : Context) (st : ShellState) : Redirect → ShellState × Option String
  | .stream n source => (st.send n (st.target source), none)
  | .write n append path =>
      let (st, path) := ctx.expandText st path
      match st.openFile append path with
      | .ok (st, target) => (st.send n target, none)
      | .error _ =>
          (st, some (ctx.name ++ ": 1: cannot create " ++ path ++ ": Directory nonexistent\n"))
  | .read path =>
      let (st, path) := ctx.expandText st path
      if path = "/dev/null" then ({ st with stdin := [] }, none)
      else match st.disk.read path with
        | .ok bytes => ({ st with stdin := bytes }, none)
        | .error _ => (st, some (ctx.name ++ ": 1: cannot open " ++ path ++ ": No such file\n"))

/-- Makes redirections in their order, up to one that fails. -/
def Context.redirectAll (ctx : Context) (st : ShellState) (redirects : List Redirect) :
    ShellState × Option String :=
  redirects.foldl
    (fun (st, failure) r => match failure with
      | some message => (st, some message)
      | none => ctx.redirect st r)
    (st, none)

/-- Runs with redirections, which end with what is run. -/
def Context.redirected (ctx : Context) (st : ShellState) (redirects : List Redirect)
    (run : ShellState → ShellState) : ShellState :=
  let readsElsewhere := redirects.any fun
    | .read _ => true
    | _ => false
  let back (after : ShellState) : ShellState :=
    { after with
      stdin := if readsElsewhere then st.stdin else after.stdin
      stdout := st.stdout, stderr := st.stderr }
  match ctx.redirectAll st redirects with
  | (after, some message) => (back after).complain 2 message
  | (after, none) => back (run after)

end NodePipeline.Shell

import NodePipeline.Command.Expansion
import NodePipeline.Command.Script

/-!
# A small shell

A launcher of a few commands, so that builds can be tried without running
programs: `sh -c` with scripts of utilities, and the utilities themselves.
-/

namespace NodePipeline.Shell

/-! ## Built-in commands -/

/-- The number of a signal, given by number or name. -/
def signalNumber? (text : String) : Option Nat :=
  match text.toNat? with
  | some n => some n
  | none =>
      let name := if text.startsWith "SIG" then String.ofList (text.toList.drop 3) else text
      (signalNames.find? (·.2 == name)).map Prod.fst

def kill (args : List String) : Effect :=
  let (signal, targets) := match args with
    | "-s" :: name :: targets => (signalNumber? name, targets)
    | first :: targets =>
        if first.startsWith "-" && first != "--" then
          (signalNumber? (String.ofList (first.toList.drop 1)), targets)
        else (some 15, first :: targets)
    | [] => (none, [])
  match signal with
  | none => .failing 2 "kill: invalid signal\n"
  | some 0 => .ofStatus 0
  | some n =>
      if ownProcess ∈ targets then ⟨[], [], 0, 0, some (.signal n), none⟩
      else .failing 1 "kill: No such process\n"

def codeOf (text : Option String) (last : Nat) : Nat := ((text.bind String.toNat?).getD last) % 256

/-- Runs a command of that name, if there is one. -/
def command? (st : ShellState) (name : String) (args : List String) : Option Effect :=
  if name = "echo" then some (echo args)
  else if name = ":" then some (.ofStatus 0)
  else if name = "kill" then some (kill args)
  else if name = "exit" then
    some ⟨[], [], 0, 0, some (.code (codeOf args.head? st.status)), none⟩
  else (utility? name).map fun utility => utility ⟨st.disk, st.stdin⟩ args

/-! ## Running -/

/-- The name of an assignment and the parts of its value, if the word is one. -/
def assignment? (word : List Char × List WordPart) : Option (String × List WordPart) :=
  let name := word.1.takeWhile isNamePart
  match name, word.1.drop name.length with
  | c :: _, '=' :: _ =>
      if c.isDigit then none else some (String.ofList name, word.2.drop (name.length + 1))
  | _, _ => none

def Context.assign (ctx : Context) (st : ShellState) (name : String) (value : List WordPart) :
    ShellState :=
  let (st, text) := ctx.expandText st value
  { st with bindings := (name, text) :: st.bindings }

/-- The assignments that a command begins with, and its other words. -/
def splitAssignments : List (List Char × List WordPart) →
    List (String × List WordPart) × List (List WordPart)
  | [] => ([], [])
  | word :: rest =>
      match assignment? word with
      | some a =>
          let (assignments, words) := splitAssignments rest
          (a :: assignments, words)
      | none => ([], (word :: rest).map Prod.snd)

def isOutput : WordPart → Bool
  | .output _ _ => true
  | _ => false

/-- Makes assignments; the status is that of the last script in them, if there is one. -/
def Context.assignAll (ctx : Context) (st : ShellState)
    (assignments : List (String × List WordPart)) : ShellState :=
  let after := assignments.foldl (fun st (name, value) => ctx.assign st name value) st
  if assignments.any fun (_, value) => value.any isOutput then after else { after with status := 0 }

/-- Takes a line from the input. Names get its words, the last one all that are left. -/
def ShellState.readLine (st : ShellState) (names : List String) : ShellState :=
  let line := st.stdin.takeWhile (· != 10)
  let rest := st.stdin.drop line.length
  let words := splitBlanks ((Bytes.toString? line).getD "").toList
  let values := names.zipIdx.map fun (name, i) =>
    let text := if i + 1 = names.length then [' '].intercalate (words.drop i)
      else words.getD i []
    (name, String.ofList text)
  { st with
    stdin := rest.drop 1, bindings := values.reverse ++ st.bindings,
    status := if rest.isEmpty then 1 else 0 }

def Context.runNamed (ctx : Context) (st : ShellState) (name : String) (args : List String) :
    ShellState :=
  match command? st name args with
  | some effect => st.apply effect
  | none => st.complain 127 (ctx.name ++ ": 1: " ++ name ++ ": not found\n")

/-- Runs the words of a simple command. -/
def Context.runWords (ctx : Context) (st : ShellState) (words : List String) : ShellState :=
  match words with
  | [] => { st with status := 0 }
  | "read" :: names => st.readLine names
  | "break" :: _ => { st with status := 0, jump := some .out }
  | "continue" :: _ => { st with status := 0, jump := some .on }
  | "exec" :: name :: args =>
      let st := ctx.runNamed st name args
      { st with ending := some (st.ending.getD (.code st.status)) }
  | name :: args => ctx.runNamed st name args

def Context.runSimple (ctx : Context) (st : ShellState)
    (words : List (List Char × List WordPart)) (redirects : List Redirect) : ShellState :=
  let (assignments, rest) := splitAssignments words
  let (st, words) := ctx.expandWords st rest
  if words.isEmpty && !assignments.isEmpty then
    ctx.redirected st redirects fun st => ctx.assignAll st assignments
  else if words = ["exec"] then
    match ctx.redirectAll st redirects with
    | (after, some message) => { (after.complain 2 message) with ending := some (.code 2) }
    | (after, none) => { after with status := 0 }
  else ctx.redirected st redirects fun st => ctx.runWords st words

/-- How often a loop goes round before it counts as one without an end. -/
def roundLimit : Nat := 100000

/-- The time that counts as endless, in milliseconds. -/
def endless : Nat := 1000000000

/-- A loop after a round of its body, and whether it goes on. -/
def ShellState.afterRound (st : ShellState) : ShellState × Bool :=
  if st.ending.isSome then (st, false)
  else match st.jump with
    | some .out => ({ st with jump := none }, false)
    | _ => ({ st with jump := none }, true)

/-- Runs a body as long as the condition goes on. -/
def loopRounds (goesOn : ShellState → ShellState × Bool) (body : ShellState → ShellState) :
    Nat → ShellState → ShellState
  | 0, st => { st with millis := st.millis + endless, ending := some (.code 0) }
  | rounds + 1, st =>
      let last := st.status
      let (st, more) := goesOn st
      if st.stops then st.afterRound.1
      else if more then
        match (body st).afterRound with
        | (st, true) => loopRounds goesOn body rounds st
        | (st, false) => st
      else { st with status := last }

/-- Runs a body for each of the values. -/
def loopValues (name : String) (body : ShellState → ShellState) :
    List String → ShellState → ShellState
  | [], st => st
  | value :: rest, st =>
      match (body { st with bindings := (name, value) :: st.bindings }).afterRound with
      | (st, true) => loopValues name body rest st
      | (st, false) => st

/-- Runs a script, unless the shell has ended. -/
def Context.run (ctx : Context) : Script → ShellState → ShellState
  | .nothing, st => st
  | .simple words redirects, st => if st.stops then st else ctx.runSimple st words redirects
  | .next first second, st => ctx.run second (ctx.run first st)
  | .andThen first second, st =>
      let st := ctx.run first st
      if st.status = 0 then ctx.run second st else st
  | .orElse first second, st =>
      let st := ctx.run first st
      if st.status = 0 then st else ctx.run second st
  | .not s, st =>
      let st := ctx.run s st
      { st with status := if st.status = 0 then 1 else 0 }
  | .pipe first second, st =>
      if st.stops then st
      else
        let (st, bytes) := st.capture (ctx.run first)
        if st.ending.isSome then st
        else st.afterInner (ctx.run second { st with stdin := bytes })
  | .group apart s redirects, st =>
      if st.stops then st
      else ctx.redirected st redirects fun st =>
        if apart then st.afterInner (ctx.run s st) else ctx.run s st
  | .choose condition yes no, st =>
      let st := ctx.run condition st
      if st.stops then st
      else if st.status = 0 then ctx.run yes { st with status := 0 }
      else ctx.run no { st with status := 0 }
  | .loop whileTrue condition body, st =>
      if st.stops then st
      else
        let goesOn (st : ShellState) : ShellState × Bool :=
          let st := ctx.run condition st
          (st, (st.status == 0) == whileTrue)
        loopRounds goesOn (ctx.run body) roundLimit { st with status := 0 }
  | .each name words body, st =>
      if st.stops then st
      else
        let (st, values) := ctx.expandWords st words
        loopValues name (ctx.run body) values { st with status := 0 }

/-- Runs the text of a script in which scripts nest in words so deep. -/
def runText (name : String) (args : List String) : Nat → List Char → ShellState → ShellState
  | 0, _, st => st
  | depth + 1, source, st =>
      match parseScript source with
      | .ok s => Context.run ⟨name, args, runText name args depth⟩ s st
      | .error fault =>
          let st := st.complain 2 (name ++ ": 1: " ++ fault.message ++ "\n")
          { st with ending := some (.code 2) }

def ShellState.start (disk : Disk) : ShellState :=
  ⟨disk, [], [(0, []), (1, [])], .sink 0, .sink 1, 0, 0, [], none, none⟩

def ShellState.result (st : ShellState) : CommandResult :=
  ⟨st.ending.getD (.code st.status), st.sinkContents 0, st.sinkContents 1, st.millis, st.disk⟩

/-- Runs a script under a name with arguments. -/
def runScript (disk : Disk) (source name : String) (args : List String) : CommandResult :=
  (runText name args (source.length + 1) source.toList (.start disk)).result

/-! ## Programs -/

def Effect.result (disk : Disk) (e : Effect) : CommandResult :=
  ⟨e.ending.getD (.code e.status), e.stdout, e.stderr, e.millis, e.disk.getD disk⟩

/-- The name of a program in one of the usual directories. -/
def programName (program : String) : String :=
  if program.startsWith "/bin/" then String.ofList (program.toList.drop 5)
  else if program.startsWith "/usr/bin/" then String.ofList (program.toList.drop 9)
  else program

def hasNull (text : String) : Bool := text.toList.any fun c => c.toNat == 0

/-- Starts a program that is known here. Arguments cannot hold a null character. -/
def launch : Launcher := fun disk program args =>
  let name := programName program
  if args.any hasNull then none
  else if name = "sh" then
    match args with
    | "-c" :: source :: zero :: args => some (runScript disk source zero args)
    | "-c" :: source :: [] => some (runScript disk source "sh" [])
    | _ =>
        some ⟨.code 2, [], Bytes.ofString "sh: 0: cannot open script\n", 0, disk⟩
  else if name = "echo" then some ((plainEcho args).result disk)
  else (utility? name).map fun utility => (utility ⟨disk, []⟩ args).result disk

end NodePipeline.Shell

import NodePipeline.Disk.Basic
import NodePipeline.Binary64.Decimal
import NodePipeline.Disk.Step

/-!
# Commands and utilities

What is seen of a program that has run: its status, its output, how long it took,
and the files as it left them. A launcher is what programs are started with.
Utilities are the small programs that scripts are made of: they write texts, look
at files and change them. Nothing else is run; the time that they take is a number.
-/

namespace NodePipeline

/-! ## Commands -/

inductive ExitStatus
  | code (n : Nat)
  | signal (n : Nat)
deriving DecidableEq

/-- The names of signals, by number. -/
def signalNames : List (Nat × String) :=
  [(1, "HUP"), (2, "INT"), (3, "QUIT"), (4, "ILL"), (5, "TRAP"), (6, "ABRT"), (7, "BUS"),
   (8, "FPE"), (9, "KILL"), (10, "USR1"), (11, "SEGV"), (12, "USR2"), (13, "PIPE"), (14, "ALRM"),
   (15, "TERM")]

def ExitStatus.text : ExitStatus → String
  | .code n => "exit status: " ++ toString n
  | .signal n =>
      match signalNames.find? (·.1 == n) with
      | some (_, name) => "signal: " ++ toString n ++ " (SIG" ++ name ++ ")"
      | none => "signal: " ++ toString n

structure CommandResult where
  status : ExitStatus
  stdout : Bytes
  stderr : Bytes
  /-- The time that the program takes. -/
  millis : Nat
  /-- The files afterwards. -/
  disk : Disk

/-- Runs a program with arguments on a disk; none if it cannot be started. -/
abbrev Launcher : Type := Disk → String → List String → Option CommandResult

/-! ## Utilities -/

namespace Shell

/-- What a command does to the shell that runs it. -/
structure Effect where
  stdout : Bytes
  stderr : Bytes
  millis : Nat
  status : Nat
  /-- The status that the shell ends with, if the command ends it. -/
  ending : Option ExitStatus
  /-- The files afterwards, if the command changes any. -/
  disk : Option Disk

namespace Effect

def ofStatus (status : Nat) : Effect := ⟨[], [], 0, status, none, none⟩

def writing (text : Bytes) : Effect := ⟨text, [], 0, 0, none, none⟩

def failing (status : Nat) (message : String) : Effect :=
  ⟨[], Bytes.ofString message, 0, status, none, none⟩

/-- One effect after another; the worse status counts. -/
def followedBy (a b : Effect) : Effect :=
  ⟨a.stdout ++ b.stdout, a.stderr ++ b.stderr, a.millis + b.millis, max a.status b.status,
    a.ending.or b.ending, b.disk.or a.disk⟩

end Effect

/-! ## Texts -/

def isOctal (c : Char) : Bool := decide ('0' ≤ c) && decide (c ≤ '7')

/-- The number that up to so many octal digits spell, and what follows them. -/
def scanOctal (most : Nat) (cs : List Char) : Nat × List Char :=
  let digits := (cs.take most).takeWhile isOctal
  (digits.foldl (fun n c => 8 * n + (c.toNat - 48)) 0, cs.drop digits.length)

/-- The byte of an escape that is one letter. -/
def letterByte? (c : Char) : Option UInt8 :=
  if c = 'n' then some 10
  else if c = 't' then some 9
  else if c = 'r' then some 13
  else if c = 'a' then some 7
  else if c = 'b' then some 8
  else if c = 'v' then some 11
  else if c = 'f' then some 12
  else if c = '\\' then some 92
  else none

def charBytes (c : Char) : Bytes := Bytes.ofString (String.singleton c)

/-- The bytes of a text with escapes, and whether the output goes on after it. A
zero at the beginning of an octal escape is not one of its three digits. -/
def echoBytes : Nat → List Char → Bytes × Bool
  | 0, _ => ([], true)
  | _ + 1, [] => ([], true)
  | fuel + 1, c :: rest =>
      if c = '\\' then
        match rest with
        | [] => ([92], true)
        | d :: rest =>
            if d = 'c' then ([], false)
            else if isOctal d then
              let (n, rest) := scanOctal 3 (if d = '0' then rest else d :: rest)
              let (bytes, more) := echoBytes fuel rest
              (UInt8.ofNat n :: bytes, more)
            else
              let (bytes, more) := echoBytes fuel rest
              match letterByte? d with
              | some b => (b :: bytes, more)
              | none => (92 :: charBytes d ++ bytes, more)
      else
        let (bytes, more) := echoBytes fuel rest
        (charBytes c ++ bytes, more)

/-- The shell's own `echo`, which knows escapes. -/
def echo (args : List String) : Effect :=
  let (bare, args) := match args with
    | "-n" :: args => (true, args)
    | args => (false, args)
  let text := (" ".intercalate args).toList
  let (bytes, more) := echoBytes (text.length + 1) text
  .writing (if bare || !more then bytes else bytes ++ [10])

/-- The program `echo`, which writes its arguments as they are. -/
def plainEcho (args : List String) : Effect :=
  match args with
  | "-n" :: args => .writing (Bytes.ofString (" ".intercalate args))
  | args => .writing (Bytes.ofString (" ".intercalate args ++ "\n"))

/-- How a directive of `printf` lays out an argument. -/
structure Layout where
  left : Bool
  zeros : Bool
  width : Nat
  places : Option Nat

/-- The flags, the width and the places of a directive, and what follows them. -/
def scanLayout (cs : List Char) : Layout × List Char :=
  let flags := cs.takeWhile fun c => "-0+ #".toList.contains c
  let rest := cs.drop flags.length
  let (width, rest) := Binary64.spanDigits rest
  let (places, rest) := match rest with
    | '.' :: rest =>
        let (places, rest) := Binary64.spanDigits rest
        (some (Binary64.natOfDigits places), rest)
    | rest => (none, rest)
  (⟨flags.contains '-', flags.contains '0', Binary64.natOfDigits width, places⟩, rest)

def Layout.fill (l : Layout) (numeric : Bool) (text : Bytes) : Bytes :=
  let missing := l.width - text.length
  if l.left then text ++ List.replicate missing 32
  else if numeric && l.zeros then
    match text with
    | 45 :: digits => 45 :: List.replicate missing 48 ++ digits
    | digits => List.replicate missing 48 ++ digits
  else List.replicate missing 32 ++ text

/-- The text of an argument under a directive, which is a letter. -/
def directive (l : Layout) (letter : Char) (arg : String) : Bytes :=
  let cut (bytes : Bytes) : Bytes := match l.places with
    | some n => bytes.take n
    | none => bytes
  let n := (arg.toInt?).getD 0
  match letter with
  | 's' => l.fill false (cut (Bytes.ofString arg))
  | 'b' => l.fill false (cut (echoBytes (arg.length + 1) arg.toList).1)
  | 'c' => l.fill false ((Bytes.ofString arg).take 1)
  | 'd' | 'i' | 'u' => l.fill true (Bytes.ofString (toString n))
  | 'x' => l.fill true (Bytes.ofString (String.ofList (Nat.toDigits 16 n.toNat)))
  | 'o' => l.fill true (Bytes.ofString (String.ofList (Nat.toDigits 8 n.toNat)))
  | _ => []

/-- One round of `printf` through its format: the output and the arguments left. -/
def formatRound : Nat → List Char → List String → Bytes × List String
  | 0, _, args => ([], args)
  | _ + 1, [], args => ([], args)
  | fuel + 1, c :: rest, args =>
      match c, rest with
      | '\\', d :: more =>
          if isOctal d then
            let (n, more) := scanOctal 3 rest
            let (bytes, args) := formatRound fuel more args
            (UInt8.ofNat n :: bytes, args)
          else
            let (bytes, args) := formatRound fuel more args
            match letterByte? d with
            | some b => (b :: bytes, args)
            | none => (92 :: charBytes d ++ bytes, args)
      | '%', '%' :: more =>
          let (bytes, args) := formatRound fuel more args
          (37 :: bytes, args)
      | '%', more =>
          let (layout, more) := scanLayout more
          match more with
          | [] => ([37], args)
          | letter :: more =>
              let text := directive layout letter (args.headD "")
              let (bytes, args) := formatRound fuel more (args.drop 1)
              (text ++ bytes, args)
      | _, _ =>
          let (bytes, args) := formatRound fuel rest args
          (charBytes c ++ bytes, args)

/-- The format is used again as long as a round takes arguments and some are left. -/
def formatRounds : Nat → List Char → List String → Bytes
  | 0, _, _ => []
  | rounds + 1, format, args =>
      let (bytes, left) := formatRound (format.length + 1) format args
      if left.isEmpty || left.length = args.length then bytes
      else bytes ++ formatRounds rounds format left

def printf (args : List String) : Effect :=
  match args with
  | [] => .failing 2 "printf: usage: printf format [arg ...]\n"
  | format :: args => .writing (formatRounds (args.length + 1) format.toList args)

/-- The numbers from the first to the last, on lines of their own. -/
def numberLines (first step last : Int) : Bytes :=
  let count := if step = 0 then 0 else ((last - first) / step + 1).toNat
  Bytes.ofString (String.join
    ((List.range count).map fun (i : Nat) => toString (first + step * (i : Int)) ++ "\n"))

def seq (args : List String) : Effect :=
  match args.mapM String.toInt? with
  | some [last] => .writing (numberLines 1 1 last)
  | some [first, last] => .writing (numberLines first 1 last)
  | some [first, step, last] => .writing (numberLines first step last)
  | _ => .failing 1 "seq: invalid number\n"

/-! ## Time -/

/-- Seconds, perhaps with a fraction, as milliseconds. -/
def millisOf? (text : String) : Option Nat :=
  let (whole, rest) := Binary64.spanDigits text.toList
  let seconds := Binary64.natOfDigits whole
  match rest with
  | [] => if whole.isEmpty then none else some (1000 * seconds)
  | '.' :: digits =>
      if digits.all Char.isDigit && !(whole.isEmpty && digits.isEmpty) then
        some (1000 * seconds
          + Binary64.natOfDigits ((digits ++ ['0', '0', '0']).take 3))
      else none
  | _ => none

def sleep (args : List String) : Effect :=
  match args.mapM millisOf? with
  | some (m :: more) => ⟨[], [], more.foldl (· + ·) m, 0, none, none⟩
  | _ => .failing 1 "sleep: invalid time interval\n"

/-! ## Files -/

/-- What a command sees besides its arguments. -/
structure Surroundings where
  disk : Disk
  stdin : Bytes

abbrev Utility : Type := Surroundings → List String → Effect

/-- The contents of a file; a hyphen stands for the input. -/
def Surroundings.contents (around : Surroundings) (path : String) : Except DiskFault Bytes :=
  if path = "-" then .ok around.stdin
  else if path = "/dev/null" then .ok []
  else around.disk.read path

/-- The contents of files one after the other, or of the input if there are none. -/
def gather (name : String) (around : Surroundings) (paths : List String) : Effect :=
  if paths.isEmpty then .writing around.stdin
  else paths.foldl
    (fun effect path => effect.followedBy (match around.contents path with
      | .ok bytes => .writing bytes
      | .error fault => .failing 1 (name ++ ": " ++ path ++ ": " ++ fault.text ++ "\n")))
    (.ofStatus 0)

def cat (around : Surroundings) (args : List String) : Effect := gather "cat" around args

/-- The lines of a text, each with the line feed that ends it. -/
def linesOf (bytes : Bytes) : List Bytes :=
  let (lines, last) := bytes.foldl
    (fun ((lines, line) : List Bytes × Bytes) b =>
      if b = 10 then ((b :: line).reverse :: lines, []) else (lines, b :: line))
    ([], [])
  (if last.isEmpty then lines else last.reverse :: lines).reverse

/-- How much of a text is kept: a number of lines or of bytes. -/
inductive Extent
  | lines (n : Nat)
  | bytes (n : Nat)

/-- An extent as options give it, and the other arguments. -/
def extentOf (args : List String) : Option (Extent × List String) :=
  match args with
  | "-n" :: n :: rest => n.toNat?.map fun n => (.lines n, rest)
  | "-c" :: n :: rest => n.toNat?.map fun n => (.bytes n, rest)
  | first :: rest =>
      match first.toList with
      | '-' :: 'n' :: digits => (String.ofList digits).toNat?.map fun n => (.lines n, rest)
      | '-' :: 'c' :: digits => (String.ofList digits).toNat?.map fun n => (.bytes n, rest)
      | '-' :: c :: digits => (String.ofList (c :: digits)).toNat?.map fun n => (.lines n, rest)
      | _ => some (.lines 10, first :: rest)
  | [] => some (.lines 10, [])

def Extent.head : Extent → Bytes → Bytes
  | .lines n, text => ((linesOf text).take n).flatten
  | .bytes n, text => text.take n

def Extent.tail : Extent → Bytes → Bytes
  | .lines n, text =>
      let lines := linesOf text
      (lines.drop (lines.length - n)).flatten
  | .bytes n, text => text.drop (text.length - n)

def cutText (name : String) (cut : Extent → Bytes → Bytes) (around : Surroundings)
    (args : List String) : Effect :=
  match extentOf args with
  | none => .failing 1 (name ++ ": invalid number\n")
  | some (extent, paths) =>
      let all := gather name around paths
      { all with stdout := cut extent all.stdout }

/-- The number of line feeds, bytes or words of the input or of one file. -/
def count (around : Surroundings) (args : List String) : Effect :=
  let measure? : Option (Bytes → Nat) := match args.head? with
    | some "-l" => some fun bytes => (bytes.filter (· == 10)).length
    | some "-c" => some List.length
    | some "-w" => some fun bytes =>
        ((bytes.splitOnP fun b => b == 32 || decide (9 ≤ b ∧ b ≤ 13)).filter
          (!·.isEmpty)).length
    | _ => none
  match measure?, args.drop 1 with
  | some measure, [] => .writing (Bytes.ofString (toString (measure around.stdin) ++ "\n"))
  | some measure, [path] =>
      match around.contents path with
      | .ok bytes => .writing (Bytes.ofString (toString (measure bytes) ++ " " ++ path ++ "\n"))
      | .error fault => .failing 1 ("wc: " ++ path ++ ": " ++ fault.text ++ "\n")
  | _, _ => .failing 1 "wc: invalid option\n"

/-- The names in a directory, those that begin with a dot left out. -/
def ls (around : Surroundings) (args : List String) : Effect :=
  let path := (args.find? fun arg => !arg.startsWith "-").getD "."
  match around.disk.list path with
  | .ok names =>
      let shown := (names.filter fun name => !name.startsWith ".").mergeSort
      .writing (Bytes.ofString (String.join (shown.map (· ++ "\n"))))
  | .error .notDirectory => .writing (Bytes.ofString (path ++ "\n"))
  | .error fault =>
      .failing 2 ("ls: cannot access '" ++ path ++ "': " ++ fault.text ++ "\n")

/-- Carries out steps for each of the paths, and goes on after a failure. -/
def changeEach (complaint : String → String) (steps : String → List FileStep)
    (around : Surroundings) (paths : List String) : Effect :=
  paths.foldl
    (fun effect path =>
      let disk := effect.disk.getD around.disk
      let (disk, fault) := (steps path).foldl
        (fun ((disk, fault) : Disk × Option DiskFault) step => match fault with
          | some fault => (disk, some fault)
          | none => step.perform disk)
        (disk, none)
      let next : Effect := match fault with
        | none => .ofStatus 0
        | some fault => .failing 1 (complaint path ++ ": " ++ fault.text ++ "\n")
      effect.followedBy { next with disk := some disk })
    (.ofStatus 0)

def isOption (arg : String) : Bool := arg.startsWith "-"

def mkdir (around : Surroundings) (args : List String) : Effect :=
  let withParents := args.contains "-p"
  let paths := args.filter (!isOption ·)
  let complaint (path : String) : String := "mkdir: cannot create directory '" ++ path ++ "'"
  if withParents then changeEach complaint (fun path => [.createDirectories path]) around paths
  else paths.foldl
    (fun effect path => effect.followedBy
      (match (effect.disk.getD around.disk).makeDirectory path with
        | .ok disk => { Effect.ofStatus 0 with disk := some disk }
        | .error fault => .failing 1 (complaint path ++ ": " ++ fault.text ++ "\n")))
    (.ofStatus 0)

def touch (around : Surroundings) (args : List String) : Effect :=
  changeEach (fun path => "touch: cannot touch '" ++ path ++ "'")
    (fun path => if (around.disk.look? path).isSome then [] else [.write path []])
    around (args.filter (!isOption ·))

def rm (around : Surroundings) (args : List String) : Effect :=
  let letters := ((args.filter isOption).map fun arg => arg.toList.drop 1).flatten
  let forced := letters.contains 'f'
  let deep := letters.contains 'r' || letters.contains 'R'
  let paths := args.filter fun arg =>
    !isOption arg && !(forced && (around.disk.look? arg).isNone)
  changeEach (fun path => "rm: cannot remove '" ++ path ++ "'")
    (fun path => [if deep && around.disk.isDirectory path then .removeTree path
      else .removeFile path])
    around paths

/-- A path, or one of the same name in the directory that the path leads to. -/
def intoDirectory (d : Disk) (source target : String) : String :=
  if d.isDirectory target then Path.join target ((Path.fileName? source).getD "") else target

def mv (around : Surroundings) (args : List String) : Effect :=
  match args.filter (!isOption ·) with
  | [source, target] =>
      let target := intoDirectory around.disk source target
      changeEach (fun source => "mv: cannot move '" ++ source ++ "' to '" ++ target ++ "'")
        (fun source => [.rename source target]) around [source]
  | _ => .failing 1 "mv: missing file operand\n"

def cp (around : Surroundings) (args : List String) : Effect :=
  match args.filter (!isOption ·) with
  | [source, target] =>
      let target := intoDirectory around.disk source target
      match around.disk.copy source target with
      | .ok disk => { Effect.ofStatus 0 with disk := some disk }
      | .error fault =>
          if (around.disk.look? source).isNone then
            .failing 1 ("cp: cannot stat '" ++ source ++ "': " ++ fault.text ++ "\n")
          else
            .failing 1
              ("cp: cannot create regular file '" ++ target ++ "': " ++ fault.text ++ "\n")
  | _ => .failing 1 "cp: missing file operand\n"

/-! ## Paths and conditions -/

def basename (args : List String) : Effect :=
  match args with
  | [path] => .writing (Bytes.ofString ((Path.fileName? path).getD path ++ "\n"))
  | _ => .failing 1 "basename: missing operand\n"

def dirname (args : List String) : Effect :=
  match args with
  | [path] =>
      let up := (Path.parent? path).getD path
      .writing (Bytes.ofString ((if up.isEmpty then "." else up) ++ "\n"))
  | _ => .failing 1 "dirname: missing operand\n"

def compareInts (a b : String) (holds : Int → Int → Bool) : Option Bool := do
  return holds (← a.toInt?) (← b.toInt?)

/-- Whether a condition holds; none if it is not one. -/
def holds? (d : Disk) : List String → Option Bool
  | [] => some false
  | "!" :: args => (holds? d args).map (!·)
  | [arg] => some (!arg.isEmpty)
  | ["-n", arg] => some (!arg.isEmpty)
  | ["-z", arg] => some arg.isEmpty
  | ["-f", path] => some (d.isFile path)
  | ["-d", path] => some (d.isDirectory path)
  | ["-e", path] => some (d.look? path).isSome
  | ["-r", path] => some (d.look? path).isSome
  | ["-s", path] =>
      match d.look? path with
      | some (.file bytes) => some (!bytes.isEmpty)
      | other => some other.isSome
  | [a, "=", b] => some (a == b)
  | [a, "!=", b] => some (a != b)
  | [a, "-eq", b] => compareInts a b fun a b => a == b
  | [a, "-ne", b] => compareInts a b fun a b => a != b
  | [a, "-lt", b] => compareInts a b fun a b => decide (a < b)
  | [a, "-le", b] => compareInts a b fun a b => decide (a ≤ b)
  | [a, "-gt", b] => compareInts a b fun a b => decide (b < a)
  | [a, "-ge", b] => compareInts a b fun a b => decide (b ≤ a)
  | _ => none

def test (around : Surroundings) (args : List String) : Effect :=
  match holds? around.disk args with
  | some true => .ofStatus 0
  | some false => .ofStatus 1
  | none => .failing 2 "test: unexpected operator\n"

def bracket (around : Surroundings) (args : List String) : Effect :=
  if args.getLast? = some "]" then test around args.dropLast
  else .failing 2 "[: missing ]\n"

/-! ## By name -/

/-- The utility of that name that is both a program and known to the shell. -/
def utility? (name : String) : Option Utility :=
  match name with
  | "true" => some fun _ _ => .ofStatus 0
  | "false" => some fun _ _ => .ofStatus 1
  | "printf" => some fun _ args => printf args
  | "sleep" => some fun _ args => sleep args
  | "seq" => some fun _ args => seq args
  | "basename" => some fun _ args => basename args
  | "dirname" => some fun _ args => dirname args
  | "cat" => some cat
  | "head" => some (cutText "head" Extent.head)
  | "tail" => some (cutText "tail" Extent.tail)
  | "wc" => some count
  | "ls" => some ls
  | "mkdir" => some mkdir
  | "touch" => some touch
  | "rm" => some rm
  | "mv" => some mv
  | "cp" => some cp
  | "test" => some test
  | "[" => some bracket
  | _ => none

end Shell

end NodePipeline

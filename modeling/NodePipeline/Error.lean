import NodePipeline.Evaluator
import NodePipeline.Bindings
import NodePipeline.Json.Basic
import NodePipeline.Text.Quoted
import NodePipeline.Binary64.Shortest

/-!
# Errors

What can go wrong with a pipeline, its artifacts and its builds. Every error has
a class, a message, and where one node is to blame that node's name.
-/

namespace NodePipeline

/-! ## Artifacts -/

/-- What is wrong with the bytes of an artifact. -/
inductive Corruption
  | empty
  | invalidPayload (detail : String)
  | unknownVersion (version : Nat)
  | invalidStream (detail : String)
  | invalidBatch (detail : String)
  | batchCount (count : Nat)
  | stated (reason : String)
deriving DecidableEq

def Corruption.reason : Corruption → String
  | .empty => "artifact is empty"
  | .invalidPayload detail => "invalid MessagePack payload: " ++ detail
  | .unknownVersion version => "unsupported artifact format version " ++ toString version
  | .invalidStream detail => "invalid Arrow IPC stream: " ++ detail
  | .invalidBatch detail => "invalid Arrow batch: " ++ detail
  | .batchCount count => "expected one record batch, found " ++ toString count
  | .stated reason => reason

inductive ArtifactError
  /-- The steps that lead to the value inside the one that was to be stored. -/
  | unsupported (kind : Kind) (location : Option String)
  | missing (path : String)
  | corrupt (path : Option String) (what : Corruption)
  | notEncoded (reason : String)
deriving DecidableEq

namespace ArtifactError

def message : ArtifactError → String
  | .unsupported kind location =>
      "Cannot serialize a value of type " ++ kind.name
        ++ (location.map fun l => " (at " ++ l ++ ")").getD ""
  | .missing path => "Artifact not found at '" ++ path ++ "'"
  | .corrupt path what =>
      "Corrupt artifact" ++ (path.map fun p => " at '" ++ p ++ "'").getD "" ++ ": " ++ what.reason
  | .notEncoded reason => "Failed to encode artifact: " ++ reason

/-- Names the file of a corrupt artifact, unless one is named already. -/
def atPath (path : String) : ArtifactError → ArtifactError
  | .corrupt none what => .corrupt (some path) what
  | e => e

end ArtifactError

/-! ## Declarations -/

/-- A coded explanation of an error. -/
structure ErrorInfo where
  code : String
  summary : String
  fixHint : Option String
  context : Bindings String

def ErrorInfo.toJson (info : ErrorInfo) : Json :=
  .obj ([("code", .str info.code), ("summary", .str info.summary)]
    ++ (info.fixHint.map fun hint => [("fix_hint", Json.str hint)]).getD []
    ++ if info.context.isEmpty then [] else [("context", Json.ofTexts info.context.entries)])

structure ValidationError where
  message : String
  nodes : List String
  info : Option ErrorInfo

/-- Why declarations do not make a pipeline. -/
inductive DeclarationFault
  | noNodes
  | invalidName (name : String)
  | duplicateName (name : String)
deriving DecidableEq

namespace DeclarationFault

def code : DeclarationFault → String
  | .noNodes => "PIPELINE-EMPTY"
  | .invalidName _ => "PIPELINE-INVALID-NAME"
  | .duplicateName _ => "PIPELINE-DUPLICATE"

def toValidationError (fault : DeclarationFault) : ValidationError :=
  match fault with
  | .noNodes =>
      ⟨"Pipeline has no nodes", [],
        some ⟨fault.code, "Cannot build an empty pipeline",
          some "Declare at least one node inside the pipeline block.", .empty⟩⟩
  | .invalidName name =>
      ⟨"Invalid node name '" ++ name ++ "'", [name],
        some ⟨fault.code, "Node names must be identifiers", none, .ofList [("node", name)]⟩⟩
  | .duplicateName name =>
      ⟨"Duplicate node name '" ++ name ++ "' in pipeline", [name],
        some ⟨fault.code, "Node '" ++ name ++ "' is declared more than once",
          some "Rename one of the declarations.", .empty⟩⟩

end DeclarationFault

/-- The explanation of a dependency cycle. -/
def cycleInfo (path : List String) : ErrorInfo :=
  ⟨"PIPELINE-CYCLE", "Pipeline contains a dependency cycle: " ++ " -> ".intercalate path,
    some "Remove one of the references in the cycle to break it.", .empty⟩

/-! ## Refused requests -/

/-- Why a request is not carried out. -/
inductive Refusal
  | emptyBuild
  | unorderable
  /-- A step of a build came before one that it needs. -/
  | inputNotRealised (node input : String)
  /-- A build sees its own nodes only. -/
  | readsOutside (node : String) (names : List String)
  | invalidPattern (pattern detail : String)
  | invalidConfiguration (path detail : String)
  | timeoutNotNumeric (setting text : String)
  | timeoutOutOfRange (setting text : String)
  | stated (message : String)
deriving DecidableEq

def Refusal.message : Refusal → String
  | .emptyBuild => "Cannot compile an empty pipeline"
  | .unorderable => "Pipeline graph cannot be ordered for compilation"
  | .inputNotRealised node input =>
      "Derivation '" ++ node ++ "' realised before its input '" ++ input ++ "'"
  | .readsOutside node names =>
      "Cannot build node '" ++ node ++ "': it reads '" ++ "', '".intercalate names
        ++ "' from outside the pipeline"
  | .invalidPattern pattern detail =>
      "Invalid build log pattern '" ++ pattern ++ "': " ++ detail
  | .invalidConfiguration path detail =>
      "Invalid configuration in '" ++ path ++ "': " ++ detail
  | .timeoutNotNumeric setting text => setting ++ " must be a number, got '" ++ text ++ "'"
  | .timeoutOutOfRange setting text => setting ++ " is out of range, got '" ++ text ++ "'"
  | .stated message => message

/-! ## Pipelines -/

/-- The classes that errors are reported under. -/
inductive ErrorClass
  | value | key | type | file | serialization
deriving DecidableEq

def ErrorClass.name : ErrorClass → String
  | .value => "ValueError"
  | .key => "KeyError"
  | .type => "TypeError"
  | .file => "FileError"
  | .serialization => "SerializationError"

inductive PipelineError
  | invalid (error : ValidationError)
  /-- The nodes along a dependency cycle, from one node back to it. -/
  | cycle (path : List String)
  | nodeFailed (node : String) (cause : EvalError)
  | refused (reason : Refusal)
  | missingNode (node : String)
  | missingArtifact (name : String) (pattern : Option String)
  | notPipeline (function : String) (actual : Kind)
  | buildFailed (tool status diagnostics : String)
  | toolUnavailable (tool detail : String)
  | timedOut (tool : String) (seconds : Binary64)
  | cancelled (reason : String)
  | inaccessible (path detail : String)
  | artifact (error : ArtifactError)

namespace PipelineError

def errorClass : PipelineError → ErrorClass
  | .invalid _ => .value
  | .cycle _ => .value
  | .nodeFailed _ _ => .value
  | .refused _ => .value
  | .missingNode _ => .key
  | .missingArtifact _ _ => .key
  | .notPipeline _ _ => .type
  | .buildFailed _ _ _ => .file
  | .toolUnavailable _ _ => .file
  | .timedOut _ _ => .file
  | .cancelled _ => .file
  | .inaccessible _ _ => .file
  | .artifact _ => .serialization

def message : PipelineError → String
  | .invalid error => error.message
  | .cycle path =>
      "Pipeline has a dependency cycle involving node '" ++ path.headD "" ++ "'"
  | .nodeFailed node cause => "Pipeline node '" ++ node ++ "' failed: " ++ cause.display
  | .refused reason => reason.message
  | .missingNode node => "node '" ++ node ++ "' not found in Pipeline"
  | .missingArtifact name pattern =>
      "node '" ++ name ++ "' not found in any build log"
        ++ (pattern.map fun p => " matching '" ++ p ++ "'").getD ""
  | .notPipeline function actual =>
      "Function `" ++ function ++ "` expects a Pipeline, got " ++ actual.name ++ "."
  | .buildFailed tool status diagnostics =>
      "Build tool '" ++ tool ++ "' failed (" ++ status ++ "):\n" ++ diagnostics
  | .toolUnavailable tool detail => "Could not start build tool '" ++ tool ++ "': " ++ detail
  | .timedOut tool seconds =>
      "Build tool '" ++ tool ++ "' timed out after " ++ seconds.display ++ "s"
  | .cancelled reason => "Build cancelled: " ++ reason
  | .inaccessible path detail => "IO error on '" ++ path ++ "': " ++ detail
  | .artifact error => error.message

/-- The class and the quoted message. -/
def render (e : PipelineError) : String :=
  "Error(" ++ e.errorClass.name ++ ": " ++ Text.quote e.message ++ ")"

/-- The node that the error is about. -/
def node? : PipelineError → Option String
  | .cycle path => some (path.headD "")
  | .nodeFailed node _ => some node
  | .missingNode node => some node
  | .missingArtifact name _ => some name
  | _ => none

/-- What an error reports beside its class, message and node. -/
def details : PipelineError → List (String × Json)
  | .invalid error => (error.info.map fun info => [("error_info", info.toJson)]).getD []
  | .cycle path => [("cycle_path", .strings path)]
  | .nodeFailed _ cause => [("cause", .str cause.display)]
  | .buildFailed _ _ diagnostics => [("diagnostics", .str diagnostics)]
  | _ => []

/-- The error as a record of named parts. -/
def toJson (e : PipelineError) : Json :=
  .obj ([("kind", .str e.errorClass.name), ("message", .str e.message)]
    ++ (e.node?.map fun n => [("node", Json.str n)]).getD []
    ++ e.details)

end PipelineError

end NodePipeline

import NodePipeline.Time.Rfc3339
import NodePipeline.Json.Parser
import NodePipeline.Json.Printer
import NodePipeline.Json.Record
import NodePipeline.Bindings

/-!
# Records of builds

What is kept of a finished build, its form as a JSON document, and the order in
which records are listed.
-/

namespace NodePipeline

/-! ## Build ids -/

/-- An id that sorts by time: the instant to the microsecond, then a suffix. -/
def buildIdAt (t : Instant) (suffix : String) : String :=
  let c := t.civil
  "build_" ++ Rfc3339.yearText c.date.year ++ Rfc3339.padded 2 c.date.month
    ++ Rfc3339.padded 2 c.date.day ++ "T" ++ Rfc3339.padded 2 c.hour ++ Rfc3339.padded 2 c.minute
    ++ Rfc3339.padded 2 c.second ++ "." ++ Rfc3339.padded 6 (c.nanos / 1000) ++ "Z_" ++ suffix

/-- The characters of ids of years with four digits, place by place. -/
def buildIdPlaces : List (Char → Bool) :=
  "build_".toList.map (· == ·) ++ List.replicate 8 Char.isDigit ++ [(· == 'T')]
    ++ List.replicate 6 Char.isDigit ++ [(· == '.')] ++ List.replicate 6 Char.isDigit
    ++ [(· == 'Z'), (· == '_')]
    ++ List.replicate 8 fun c => c.isDigit || (decide ('a' ≤ c) && decide (c ≤ 'f'))

/-- The text looks like the id of a build. -/
def isBuildId (text : String) : Bool :=
  let cs := text.toList
  decide (cs.length = buildIdPlaces.length) && (List.zipWith (· ·) buildIdPlaces cs).all id

/-! ## Records -/

structure BuildEntry where
  buildId : String
  createdAt : Instant
  /-- Where all artifacts of the build lie. -/
  root : String
  /-- The path of each node's artifact. -/
  artifacts : Bindings String

namespace BuildEntry

/-- The record of a build that has just been finished. -/
def new (now : Instant) (suffix root : String) (artifacts : Bindings String) : BuildEntry :=
  ⟨buildIdAt now suffix, now, root, artifacts⟩

def toJson (e : BuildEntry) : Json :=
  .obj [("build_id", .str e.buildId), ("created_at", .str (Rfc3339.write e.createdAt)),
    ("root_output_path", .str e.root), ("artifacts", .ofTexts e.artifacts.entries)]

/-- Texts under names; the last of several members of one name counts. -/
def textsOfJson? : Json → Option (Bindings String)
  | .obj members => do
      return .ofList (← members.mapM fun m => (Json.asText m.2).map (m.1, ·))
  | _ => none

def ofJson? (j : Json) : Option BuildEntry := do
  match ← j.fields ["build_id", "created_at", "root_output_path", "artifacts"] with
  | [some id, some created, some root, some artifacts] =>
      return ⟨← id.asText, ← Rfc3339.read? (← created.asText), ← root.asText,
        ← textsOfJson? artifacts⟩
  | _ => none

def toText (e : BuildEntry) : String := e.toJson.pretty

def ofText? (text : String) : Option BuildEntry := (Json.parse? text).bind ofJson?

/-- Newer records come first; at one instant the greater id does. -/
def listedBefore (a b : BuildEntry) : Bool :=
  b.createdAt.isBefore a.createdAt
    || (a.createdAt == b.createdAt && decide (b.buildId ≤ a.buildId))

end BuildEntry

/-- Records in the order of a listing. -/
def newestFirst (entries : List BuildEntry) : List BuildEntry :=
  entries.mergeSort BuildEntry.listedBefore

end NodePipeline

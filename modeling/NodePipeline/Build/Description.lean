import NodePipeline.Config.Basic
import NodePipeline.Pipeline.Basic
import NodePipeline.Pipeline.Order

/-!
# Build descriptions

A pipeline is compiled to one derivation a node, in dependency order, and to a
description in the language of the build tool that binds a derivation to each
node and gathers their results. A derivation's script reads the results of the
nodes it depends on, computes its own and stores it.
-/

namespace NodePipeline

/-- The name of the file that holds a node's value. -/
def artifactFile : String := "artifact"

/-- The variable that holds the path of a dependency's result. -/
def dependencyVariable (node : String) : String := "PIPEFLOW_DEP_" ++ node

/-- The name that a description binds to the derivation of a node. -/
def derivationName (node : String) : String := "node_" ++ node

def scriptName (node : String) : String := node ++ ".t"

structure Derivation where
  node : String
  /-- The nodes whose results the script reads. -/
  dependencies : List String
  body : Body
  script : String
  /-- The part of the description that binds the derivation. -/
  fragment : String

structure CompiledBuild where
  description : String
  /-- Each after those that it reads from. -/
  derivations : List Derivation

/-! ## Scripts -/

def line (parts : List String) : String := String.join parts ++ "\n"

def script (node : String) (dependencies : List String) (body : Body) : String :=
  line ["-- pipeflow node '", node, "'"]
    ++ String.join (dependencies.map fun dep =>
      line [dep, " = deserialize(env(\"", dependencyVariable dep, "\") + \"/", artifactFile, "\")"])
    ++ line [node, " = ", body.source]
    ++ line ["serialize(", node, ", env(\"out\") + \"/", artifactFile, "\")"]

/-! ## Indented strings -/

def tick : Char := Char.ofNat 39

/-- Two ticks become three. -/
def escapeTicks : List Char → List Char
  | [] => []
  | [a] => [a]
  | a :: b :: rest =>
      if a = tick ∧ b = tick then tick :: tick :: tick :: escapeTicks rest
      else a :: escapeTicks (b :: rest)

/-- A dollar sign before a brace gets two ticks in front of it. -/
def escapeDollars : List Char → List Char
  | [] => []
  | [a] => [a]
  | a :: b :: rest =>
      if a = '$' ∧ b = '{' then tick :: tick :: '$' :: '{' :: escapeDollars rest
      else a :: escapeDollars (b :: rest)

/-- The spelling of a text in an indented string, which ends at two ticks and in
which a dollar sign and a brace open an interpolation. -/
def escapeIndented (text : String) : String :=
  String.ofList (escapeDollars (escapeTicks text.toList))

/-! ## Descriptions -/

def fragment (config : BuildConfig) (node : String) (dependencies : List String) : String :=
  line ["  ", derivationName node, " = pkgs.runCommand \"pipeflow-node-", node, "\" \x7b"]
    ++ (match config.interpreterPackage with
      | some package => line ["    nativeBuildInputs = [ pkgs.", package, " ];"]
      | none => "")
    ++ String.join (dependencies.map fun dep =>
      line ["    ", dependencyVariable dep, " = ", derivationName dep, ";"])
    ++ "  \x7d ''\n    mkdir -p $out\n"
    ++ line ["    ", " ".intercalate (config.interpreter.map escapeIndented),
      " $\x7b./scripts/", scriptName node, "\x7d"]
    ++ "  '';\n"

def description (config : BuildConfig) (derivations : List Derivation) : String :=
  "# Generated by pipeflow. Do not edit.\nlet\n"
    ++ line ["  pkgs = import ", config.nixpkgs, " \x7b\x7d;"]
    ++ "\n"
    ++ String.join (derivations.map fun d => line [d.fragment])
    ++ "in\npkgs.runCommand \"pipeflow-pipeline\" \x7b\x7d ''\n  mkdir -p $out\n"
    ++ String.join (derivations.map fun d =>
      line ["  cp -r $\x7b", derivationName d.node, "\x7d $out/", d.node])
    ++ "''\n"

/-! ## Compilation -/

def derivationOf (config : BuildConfig) (node : Vertex) : Derivation :=
  ⟨node.name, node.dependencies, node.body, script node.name node.dependencies node.body,
    fragment config node.name node.dependencies⟩

def Pipeline.compile (p : Pipeline) (config : BuildConfig) : Except PipelineError CompiledBuild :=
  if p.nodes.isEmpty then .error (.refused .emptyBuild)
  else
    let order := p.skeleton.order
    if order.length ≠ p.nodes.length then .error (.refused .unorderable)
    else
      let derivations := order.map (derivationOf config)
      .ok ⟨description config derivations, derivations⟩

namespace CompiledBuild

def derivation? (c : CompiledBuild) (node : String) : Option Derivation :=
  c.derivations.find? (·.node == node)

def nodes (c : CompiledBuild) : List String := c.derivations.map Derivation.node

end CompiledBuild

end NodePipeline

import NodePipeline.Proofs.Build.Warm
import NodePipeline.Proofs.Value.Encoding

/-!
# What scripts and paths tell

A script names its node in the first line. A line for each dependency follows, which begins
with the name of the dependency, and then a line that begins with the name of the node. No
node depends on itself, so the first line that begins with the node's name is that of its
body, however much the text of the body looks like lines of a script. What follows the body
is determined by the name alone.

The bytes that are hashed for a path hold every text behind its length. Where hashes do not
collide, a path belongs to one script and to one choice of upstream results.
-/

namespace NodePipeline

/-! ## Scripts -/

/-- What stands behind the name in the line of a dependency. -/
def readingTail (dep : String) : List Char :=
  ("= deserialize(env(\"" ++ dependencyVariable dep ++ "\") + \"/" ++ artifactFile ++ "\")\n").toList

/-- What stands behind the name in the line of the body, and the last line. -/
def computingTail (node : String) (body : Body) : List Char :=
  ("= " ++ body.source ++ "\nserialize(" ++ node ++ ", env(\"out\") + \"/" ++ artifactFile
    ++ "\")\n").toList

/-- The lines behind the first one. -/
def scriptLines (node : String) (deps : List String) (body : Body) : List Char :=
  (deps.flatMap fun dep => dep.toList ++ ' ' :: readingTail dep)
    ++ (node.toList ++ ' ' :: computingTail node body)

variable {node node' : String} {deps deps' : List String} {body body' : Body}

theorem toList_script (node : String) (deps : List String) (body : Body) :
    (script node deps body).toList = ("-- pipeflow node ".toList ++ [tick])
      ++ (node.toList ++ tick :: ('\n' :: scriptLines node deps body)) := by
  have hopening : "-- pipeflow node '".toList = "-- pipeflow node ".toList ++ [tick] := by decide
  have hreading : ∀ dep, (line [dep, " = deserialize(env(\"", dependencyVariable dep, "\") + \"/",
      artifactFile, "\")"]).toList = dep.toList ++ ' ' :: readingTail dep := by
    intro dep
    simp [line, readingTail]
  have htail : (line [node, " = ", body.source] ++ line ["serialize(", node, ", env(\"out\") + \"/",
      artifactFile, "\")"]).toList = node.toList ++ ' ' :: computingTail node body := by
    simp [line, computingTail]
  unfold script scriptLines
  rw [String.append_assoc, String.toList_append, htail, String.toList_append, String.toList_join,
    List.flatMap_map]
  simp only [hreading]
  simp [line, hopening, tick]

/-- Lines of one node read alike only if they read the same dependencies. -/
theorem dependencies_of_scriptLines (hnode : isIdentifier node = true)
    (hdeps : ∀ dep ∈ deps, isIdentifier dep = true)
    (hdeps' : ∀ dep ∈ deps', isIdentifier dep = true) (hself : node ∉ deps) (hself' : node ∉ deps')
    (h : scriptLines node deps body = scriptLines node deps' body') : deps = deps' := by
  -- A line begins with a name, which ends at the first blank.
  have hhead : ∀ {name other : String} {xs ys : List Char}, isIdentifier name = true →
      isIdentifier other = true → name.toList ++ ' ' :: xs = other.toList ++ ' ' :: ys →
        name = other ∧ xs = ys := by
    intro name other xs ys hname hother heq
    obtain ⟨hchars, hrest⟩ := append_cons_inj_of_notMem
      (notMem_of_isIdentifier hname (by decide) (by decide))
      (notMem_of_isIdentifier hother (by decide) (by decide)) heq
    exact ⟨String.toList_inj.1 hchars, hrest⟩
  unfold scriptLines at h
  induction deps generalizing deps' with
  | nil =>
      cases deps' with
      | nil => rfl
      | cons dep' rest' =>
          simp only [List.flatMap_nil, List.nil_append, List.flatMap_cons, List.append_assoc,
            List.cons_append] at h
          obtain ⟨rfl, -⟩ := hhead hnode (hdeps' _ List.mem_cons_self) h
          exact absurd List.mem_cons_self hself'
  | cons dep rest ih =>
      cases deps' with
      | nil =>
          simp only [List.flatMap_nil, List.nil_append, List.flatMap_cons, List.append_assoc,
            List.cons_append] at h
          obtain ⟨rfl, -⟩ := hhead (hdeps _ List.mem_cons_self) hnode h
          exact absurd List.mem_cons_self hself
      | cons dep' rest' =>
          obtain ⟨hdep, hrest⟩ := List.forall_mem_cons.1 hdeps
          obtain ⟨hdep', hrest'⟩ := List.forall_mem_cons.1 hdeps'
          simp only [List.flatMap_cons, List.append_assoc, List.cons_append] at h
          obtain ⟨rfl, hlines⟩ := hhead hdep hdep' h
          rw [ih hrest hrest' (List.not_mem_of_not_mem_cons hself)
            (List.not_mem_of_not_mem_cons hself') (List.append_cancel_left hlines)]

/-- A script tells its node and the dependencies of the node. -/
theorem names_of_script (hnode : isIdentifier node = true) (hnode' : isIdentifier node' = true)
    (hdeps : ∀ dep ∈ deps, isIdentifier dep = true)
    (hdeps' : ∀ dep ∈ deps', isIdentifier dep = true) (hself : node ∉ deps)
    (hself' : node' ∉ deps') (h : script node deps body = script node' deps' body') :
    node = node' ∧ deps = deps' := by
  have hchars := congrArg String.toList h
  rw [toList_script, toList_script] at hchars
  obtain ⟨hname, hlines⟩ := append_cons_inj_of_notMem
    (notMem_of_isIdentifier hnode (by decide) (by decide))
    (notMem_of_isIdentifier hnode' (by decide) (by decide)) (List.append_cancel_left hchars)
  obtain rfl := String.toList_inj.1 hname
  exact ⟨rfl, dependencies_of_scriptLines hnode hdeps hdeps' hself hself' (List.cons.inj hlines).2⟩

namespace LocalStore

/-! ## Hashed texts -/

variable {s : LocalStore} {texts texts' : List String}

/-- The bytes that are hashed determine the texts that they hold. -/
theorem inputBytes_inj (hshort : ∀ text ∈ texts, text.utf8ByteSize < 2 ^ 64)
    (hshort' : ∀ text ∈ texts', text.utf8ByteSize < 2 ^ 64)
    (h : inputBytes texts = inputBytes texts') : texts = texts' := by
  have hcons : ∀ text rest, inputBytes (text :: rest) = Value.textBytes text ++ inputBytes rest :=
    fun _ _ => List.flatMap_cons
  have hne : ∀ text rest, inputBytes (text :: rest) ≠ [] := by
    intro text rest hnil
    have hlength := congrArg List.length hnil
    simp [hcons, Value.textBytes, Value.lengthBytes] at hlength
  induction texts generalizing texts' with
  | nil =>
      cases texts' with
      | nil => rfl
      | cons text' rest' => exact absurd h.symm (hne text' rest')
  | cons text rest ih =>
      cases texts' with
      | nil => exact absurd h (hne text rest)
      | cons text' rest' =>
          obtain ⟨htext, hrest⟩ := List.forall_mem_cons.1 hshort
          obtain ⟨htext', hrest'⟩ := List.forall_mem_cons.1 hshort'
          rw [hcons, hcons] at h
          obtain ⟨rfl, hbytes⟩ := Value.textBytes_append htext htext' h
          rw [ih hrest hrest' hbytes]

/-! ## Paths -/

/-- The hash tells the messages apart, in the digits of it that a name keeps. -/
def Separates (s : LocalStore) (m m' : Bytes) : Prop :=
  (s.primitives.hash m).toList.take digestLength = (s.primitives.hash m').toList.take digestLength →
    m = m'

theorem outputPath_inj (hspell : s.primitives.SpellsHashes) {label label' : String}
    (hlabel : IsLabel label) (hlabel' : IsLabel label')
    (hshort : ∀ text ∈ texts, text.utf8ByteSize < 2 ^ 64)
    (hshort' : ∀ text ∈ texts', text.utf8ByteSize < 2 ^ 64)
    (hseparates : s.Separates (inputBytes texts) (inputBytes texts'))
    (h : s.outputPath label texts = s.outputPath label' texts') :
    label = label' ∧ texts = texts' := by
  have hname : s.resultName label texts = s.resultName label' texts' :=
    Path.join_inj (isName_resultName hspell hlabel _) (isName_resultName hspell hlabel' _) h
  obtain ⟨hdigest, rfl⟩ := resultName_inj hspell hname
  have hdigits := congrArg String.toList hdigest
  unfold digest at hdigits
  rw [String.toList_ofList, String.toList_ofList] at hdigits
  exact ⟨rfl, inputBytes_inj hshort hshort' (hseparates hdigits)⟩

variable {d d' : Derivation} {outputs outputs' : Outputs}

/-- Where a derivation has inputs, all its dependencies have results. -/
theorem inputs_eq_ok (h : inputs d outputs = .ok texts) :
    texts = inputsOf outputs d ∧
      ∀ dep ∈ d.dependencies, output? outputs dep = some (pathIn outputs dep) := by
  unfold inputs at h
  obtain ⟨links, hlinks, hpure⟩ := bind_eq_ok.1 h
  have hfound : ∀ dep ∈ d.dependencies, output? outputs dep = some (pathIn outputs dep) := by
    intro dep hdep
    obtain ⟨text, htext⟩ := ok_of_mapM_eq_ok hlinks dep hdep
    unfold pathIn
    cases hout : output? outputs dep with
    | none => rw [hout] at htext; cases htext
    | some path => rfl
  refine ⟨?_, hfound⟩
  rw [mapM_eq_ok_of (g := fun dep => link dep (pathIn outputs dep)) fun dep hdep => by
    rw [hfound dep hdep]] at hlinks
  cases hlinks
  cases hpure
  rfl

/-- The texts that name the result of a derivation, after the results that are there. -/
structure Names (d : Derivation) (outputs : Outputs) (texts : List String) : Prop where
  sound : d.Sound
  inputs_eq : inputs d outputs = .ok texts
  short : ∀ text ∈ texts, text.utf8ByteSize < 2 ^ 64

/-- The derivations are alike, and what they read from is in the same places. -/
structure Alike (d d' : Derivation) (outputs outputs' : Outputs) : Prop where
  node : d.node = d'.node
  dependencies : d.dependencies = d'.dependencies
  body : d.body = d'.body
  script : d.script = d'.script
  upstream : ∀ dep ∈ d.dependencies, output? outputs dep = output? outputs' dep

/-- Derivations have the same path only if they are alike. -/
theorem outputPath_eq_iff (hspell : s.primitives.SpellsHashes)
    (h : Names d outputs texts) (h' : Names d' outputs' texts')
    (hseparates : s.Separates (inputBytes texts) (inputBytes texts')) :
    s.outputPath (nodeLabel d.node) texts = s.outputPath (nodeLabel d'.node) texts' ↔
      Alike d d' outputs outputs' := by
  obtain ⟨rfl, hfound⟩ := inputs_eq_ok h.inputs_eq
  obtain ⟨rfl, hfound'⟩ := inputs_eq_ok h'.inputs_eq
  constructor
  · intro hpath
    obtain ⟨hlabel, htexts⟩ := outputPath_inj hspell (.node h.sound.node) (.node h'.sound.node)
      h.short h'.short hseparates hpath
    have hnode := nodeLabel_inj hlabel
    obtain ⟨hscript, hlinks⟩ := List.cons.inj htexts
    obtain ⟨hdeps, hpaths⟩ := links_inj h.sound.dependencies h'.sound.dependencies hlinks
    have hbody : d.body = d'.body := by
      rw [h.sound.script_eq, h'.sound.script_eq, hnode, hdeps] at hscript
      exact script_inj hscript
    refine ⟨hnode, hdeps, hbody, hscript, fun dep hdep => ?_⟩
    rw [hfound dep hdep, hfound' dep (hdeps ▸ hdep), hpaths dep hdep]
  · intro halike
    have hlinks : ∀ dep ∈ d.dependencies,
        link dep (pathIn outputs dep) = link dep (pathIn outputs' dep) := by
      intro dep hdep
      unfold pathIn
      rw [halike.upstream dep hdep]
    unfold inputsOf
    rw [halike.node, halike.script, List.map_congr_left hlinks, halike.dependencies]

/-! ## Derivations by their scripts and paths -/

/-- **Scripts and paths tell derivations apart.** Nodes that do not depend on themselves have
the same script only if they have the same name, dependencies and body, whatever the texts of
the bodies are. The bytes that are hashed for a path determine the texts that they hold. Two
results have the same path, if the hash tells these bytes apart, exactly if their derivations
are alike and read from the same places. -/
theorem scripts_and_paths_determine :
    (∀ (node node' : String) (deps deps' : List String) (body body' : Body),
      isIdentifier node = true → isIdentifier node' = true →
      (∀ dep ∈ deps, isIdentifier dep = true) → (∀ dep ∈ deps', isIdentifier dep = true) →
      node ∉ deps → node' ∉ deps' → script node deps body = script node' deps' body' →
        node = node' ∧ deps = deps' ∧ body = body') ∧
    (∀ texts texts' : List String, (∀ text ∈ texts, text.utf8ByteSize < 2 ^ 64) →
      (∀ text ∈ texts', text.utf8ByteSize < 2 ^ 64) → inputBytes texts = inputBytes texts' →
        texts = texts') ∧
    ∀ (s : LocalStore) (d d' : Derivation) (outputs outputs' : Outputs)
      (texts texts' : List String), s.primitives.SpellsHashes → Names d outputs texts →
      Names d' outputs' texts' → s.Separates (inputBytes texts) (inputBytes texts') →
        (s.outputPath (nodeLabel d.node) texts = s.outputPath (nodeLabel d'.node) texts' ↔
          Alike d d' outputs outputs') := by
  refine ⟨?_, fun _ _ => inputBytes_inj, fun _ _ _ _ _ _ _ => outputPath_eq_iff⟩
  intro node node' deps deps' body body' hnode hnode' hdeps hdeps' hself hself' h
  obtain ⟨rfl, rfl⟩ := names_of_script hnode hnode' hdeps hdeps' hself hself' h
  exact ⟨rfl, rfl, script_inj h⟩

/-- The script of a node that depended on itself would be that of another body. -/
example : script "b" ["b"] ⟨"1"⟩
    = script "b" [] ⟨"deserialize(env(\"PIPEFLOW_DEP_b\") + \"/artifact\")\nb = 1"⟩ := by
  decide +kernel

/-- A body that goes on with the lines of a node `c` that reads from `b`. -/
def imitatingBody : Body :=
  ⟨"0\nb = deserialize(env(\"PIPEFLOW_DEP_b\") + \"/artifact\")\nc = b"⟩

/-- A node that reads from `b`. -/
def readingNode : Derivation := derivationOf .default ⟨"c", ⟨"b"⟩, ["b"]⟩

theorem names_readingNode {outputs : Outputs} {path : String}
    (houtput : output? outputs "b" = some path) (hshort : (link "b" path).utf8ByteSize < 2 ^ 64) :
    Names readingNode outputs [readingNode.script, link "b" path] where
  sound := ⟨by decide, by decide, rfl⟩
  inputs_eq := by
    have hdeps : readingNode.dependencies = ["b"] := rfl
    simp [inputs, hdeps, houtput, bind, Except.bind, pure, Except.pure]
  short := by
    have hscript : readingNode.script.utf8ByteSize < 2 ^ 64 := by decide +kernel
    exact List.forall_mem_cons.2 ⟨hscript, List.forall_mem_singleton.2 hshort⟩

/-- Lines in a body do not pass for dependencies, texts do not run together, other results that
are there do not matter to a path, and another place of a dependency does. -/
theorem imitated_lines_are_told_apart :
    script "c" ["b"] ⟨"b"⟩ ≠ script "c" [] imitatingBody ∧
    inputBytes ["ab", ""] ≠ inputBytes ["a", "b"] ∧
    Alike readingNode readingNode [("b", "store/x")] [("a", "store/y"), ("b", "store/x")] ∧
    layeredStore.outputPath (nodeLabel "c") [readingNode.script, link "b" "store/x"]
      ≠ layeredStore.outputPath (nodeLabel "c") [readingNode.script, link "b" "store/y"] := by
  obtain ⟨hscripts, hbytes, hpaths⟩ := scripts_and_paths_determine
  have hx : ∀ outputs, output? outputs "b" = some "store/x" →
      Names readingNode outputs [readingNode.script, link "b" "store/x"] :=
    fun outputs h => names_readingNode h (by decide +kernel)
  have hy : Names readingNode [("b", "store/y")] [readingNode.script, link "b" "store/y"] :=
    names_readingNode (by decide) (by decide +kernel)
  refine ⟨fun h => ?_, fun h => ?_, ?_, fun h => ?_⟩
  · have hsame := hscripts "c" "c" ["b"] [] ⟨"b"⟩ imitatingBody (by decide) (by decide) (by decide)
      (by decide) (by decide) (by decide) h
    exact absurd hsame.2.1 (by decide)
  · have hsame := hbytes ["ab", ""] ["a", "b"] (by decide +kernel) (by decide +kernel) h
    exact absurd hsame (by decide)
  · exact (hpaths layeredStore readingNode readingNode _ _ _ _ Primitives.spellsHashes_standard
      (hx _ (by decide)) (hx _ (by decide)) fun _ => rfl).1 rfl
  · have hdigits : layeredStore.digest [readingNode.script, link "b" "store/x"]
        ≠ layeredStore.digest [readingNode.script, link "b" "store/y"] := by
      rw [layeredStore, Primitives.standard_eq_byLists]
      decide +kernel
    have halike := (hpaths layeredStore readingNode readingNode _ _ _ _
      Primitives.spellsHashes_standard (hx [("b", "store/x")] (by decide)) hy
      fun heq => absurd (congrArg String.ofList heq) hdigits).1 h
    exact absurd (halike.upstream "b" (by decide)) (by decide)

end LocalStore

end NodePipeline

import NodePipeline.Build.LocalStore
import NodePipeline.Proofs.Disk.Steps
import NodePipeline.Proofs.Pipeline.Graph
import NodePipeline.Proofs.Primitives

/-!
# Where results lie

The directories of a local store are named after a hash and a label. These names
have no dots, so that directories which are being filled are told apart from them,
and a name determines its label and the hash.
-/

namespace NodePipeline

open Disk

/-! ## Names of nodes -/

theorem isName_of_isIdentifier {name : String} (h : isIdentifier name = true) :
    Path.IsName name where
  nonempty := by
    intro hnil
    simp [isIdentifier, hnil] at h
  noSlash := notMem_of_isIdentifier h (by decide) (by decide)
  notHere := by
    rintro rfl
    exact absurd h (by decide)
  notAbove := by
    rintro rfl
    exact absurd h (by decide)

theorem isName_artifactFile : Path.IsName artifactFile where
  nonempty := by decide
  noSlash := by decide
  notHere := by decide
  notAbove := by decide

namespace LocalStore

/-! ## Labels -/

def rootLabel : String := "pipeflow-pipeline"

/-- What results are labelled with: those of nodes, and the directories that gather them. -/
inductive IsLabel : String → Prop
  | node {name : String} (h : isIdentifier name = true) : IsLabel (nodeLabel name)
  | root : IsLabel rootLabel

variable {label label' : String}

theorem IsLabel.chars (h : IsLabel label) :
    ∀ c ∈ label.toList, c.isAlphanum = true ∨ c = '_' ∨ c = '-' := by
  cases h with
  | root => exact forall_mem_of_all (by decide)
  | node hname =>
      intro c hc
      rw [nodeLabel, String.toList_append, List.mem_append] at hc
      rcases hc with hc | hc
      · have hfixed : ∀ c ∈ "pipeflow-node-".toList, c.isAlphanum = true ∨ c = '_' ∨ c = '-' :=
          forall_mem_of_all (by decide)
        exact hfixed c hc
      · rcases isAlphanum_or_of_isIdentifier hname c hc with halpha | hbar
        · exact Or.inl halpha
        · exact Or.inr (Or.inl hbar)

theorem nodeLabel_inj {name other : String} (h : nodeLabel name = nodeLabel other) :
    name = other := by
  have hchars : "pipeflow-node-".toList ++ name.toList = "pipeflow-node-".toList ++ other.toList := by
    rw [← String.toList_append, ← String.toList_append]
    exact congrArg String.toList h
  exact String.toList_inj.1 (List.append_cancel_left hchars)

theorem nodeLabel_ne_rootLabel (name : String) : nodeLabel name ≠ rootLabel := by
  intro h
  have := congrArg (fun s => s.toList[9]?) h
  simp [nodeLabel, rootLabel] at this

/-! ## Names of results -/

variable {s : LocalStore} {inputs inputs' : List String} {l : Location}

/-- The first digits of the hash of what a result depends on. -/
def digest (s : LocalStore) (inputs : List String) : String :=
  String.ofList ((s.primitives.hash (inputBytes inputs)).toList.take digestLength)

def resultName (s : LocalStore) (label : String) (inputs : List String) : String :=
  s.digest inputs ++ "-" ++ label

/-- The name of a directory while it is filled. -/
def stagingName (s : LocalStore) (label : String) (inputs : List String) : String :=
  s.resultName label inputs ++ "." ++ "tmp"

theorem outputPath_eq (s : LocalStore) (label : String) (inputs : List String) :
    s.outputPath label inputs = Path.join s.directory (s.resultName label inputs) := rfl

theorem length_digest (h : s.primitives.SpellsHashes) (inputs : List String) :
    (s.digest inputs).toList.length = 32 := by
  simp [digest, h.length, digestLength]

/-- A name determines its label and the hash. -/
theorem resultName_inj (h : s.primitives.SpellsHashes)
    (heq : s.resultName label inputs = s.resultName label' inputs') :
    s.digest inputs = s.digest inputs' ∧ label = label' := by
  have hlen : (s.digest inputs).toList.length = (s.digest inputs').toList.length := by
    rw [length_digest h, length_digest h]
  have hchars : (s.digest inputs).toList ++ ('-' :: label.toList)
      = (s.digest inputs').toList ++ ('-' :: label'.toList) := by
    simpa [resultName] using congrArg String.toList heq
  obtain ⟨hdigest, hlabel⟩ := List.append_inj hchars hlen
  exact ⟨String.toList_inj.1 hdigest, String.toList_inj.1 (List.cons.inj hlabel).2⟩

theorem resultName_chars (h : s.primitives.SpellsHashes) (hlabel : IsLabel label)
    (inputs : List String) :
    ∀ c ∈ (s.resultName label inputs).toList, c.isAlphanum = true ∨ c = '_' ∨ c = '-' := by
  intro c hc
  rw [resultName, String.toList_append, String.toList_append, digest, String.toList_ofList,
    List.mem_append, List.mem_append] at hc
  rcases hc with (hc | hc) | hc
  · exact Or.inl (h.alphanum _ c (List.mem_of_mem_take hc))
  · exact Or.inr (Or.inr (List.mem_singleton.1 hc))
  · exact hlabel.chars c hc

theorem notMem_resultName (h : s.primitives.SpellsHashes) (hlabel : IsLabel label)
    (inputs : List String) {c : Char} (hc : c.isAlphanum = false ∧ c ≠ '_' ∧ c ≠ '-') :
    c ∉ (s.resultName label inputs).toList := by
  intro hmem
  rcases resultName_chars h hlabel inputs c hmem with halpha | hbar | hdash
  · rw [hc.1] at halpha
    cases halpha
  · exact hc.2.1 hbar
  · exact hc.2.2 hdash

/-- A name with a dot is not that of a result. -/
theorem resultName_ne_of_dot (h : s.primitives.SpellsHashes) (hlabel : IsLabel label)
    {name : String} (hdot : '.' ∈ name.toList) (inputs : List String) :
    name ≠ s.resultName label inputs := by
  rintro rfl
  exact notMem_resultName h hlabel inputs (by decide) hdot

theorem isName_resultName (h : s.primitives.SpellsHashes) (hlabel : IsLabel label)
    (inputs : List String) : Path.IsName (s.resultName label inputs) where
  nonempty := by simp [resultName]
  noSlash := notMem_resultName h hlabel inputs (by decide)
  notHere := (resultName_ne_of_dot h hlabel (by decide) inputs).symm
  notAbove := (resultName_ne_of_dot h hlabel (by decide) inputs).symm

theorem isName_stagingName (h : s.primitives.SpellsHashes) (hlabel : IsLabel label)
    (inputs : List String) : Path.IsName (s.stagingName label inputs) where
  nonempty := by simp [stagingName]
  noSlash := by
    rw [stagingName, String.toList_append, String.toList_append]
    simp [notMem_resultName h hlabel inputs]
  notHere := by
    intro heq
    have := congrArg (fun name : String => name.toList.length) heq
    simp [stagingName] at this
  notAbove := by
    intro heq
    have := congrArg (fun name : String => name.toList.length) heq
    simp [stagingName] at this

theorem stagingName_chars (h : s.primitives.SpellsHashes) (hlabel : IsLabel label)
    (inputs : List String) : ∀ c ∈ (s.stagingName label inputs).toList,
      c.isAlphanum = true ∨ c = '_' ∨ c = '-' ∨ c = '.' := by
  intro c hc
  rw [stagingName, String.append_assoc, String.toList_append, List.mem_append] at hc
  rcases hc with hc | hc
  · rcases resultName_chars h hlabel inputs c hc with halpha | hbar | hdash
    · exact Or.inl halpha
    · exact Or.inr (Or.inl hbar)
    · exact Or.inr (Or.inr (Or.inl hdash))
  · have hext : ∀ c ∈ ("." ++ "tmp").toList,
        c.isAlphanum = true ∨ c = '_' ∨ c = '-' ∨ c = '.' :=
      forall_mem_of_all (by decide)
    exact hext c hc

theorem length_stagingName (h : s.primitives.SpellsHashes) (label : String)
    (inputs : List String) :
    (s.stagingName label inputs).toList.length = 37 + label.toList.length := by
  simp only [stagingName, resultName, String.toList_append, List.length_append,
    length_digest h]
  have hdash : "-".toList.length = 1 := rfl
  have hdot : ".".toList.length = 1 := rfl
  have hext : "tmp".toList.length = 3 := rfl
  omega

/-- Of the 255 bytes that a name can have, hash and punctuation take 37. -/
theorem isName_stagingName_of_short (h : s.primitives.SpellsHashes) (hlabel : IsLabel label)
    (hshort : label.toList.length ≤ 218) (inputs : List String) :
    isName (s.stagingName label inputs) = true := by
  have hchars := stagingName_chars h hlabel inputs
  have hnarrow : ∀ c ∈ (s.stagingName label inputs).toList, c.utf8Size = 1 := by
    intro c hc
    rcases hchars c hc with halpha | rfl | rfl | rfl
    · exact Bytes.utf8Size_of_isAlphanum halpha
    · decide
    · decide
    · decide
  have hsize := Bytes.utf8ByteSize_ofList_of_narrow hnarrow
  rw [String.ofList_toList, length_stagingName h] at hsize
  unfold isName
  rw [Bool.and_eq_true, decide_eq_true_eq, hsize, Bool.not_eq_true', List.any_eq_false]
  refine ⟨by omega, fun c hc hnull => ?_⟩
  have hzero : c.toNat = 0 := by simpa using hnull
  obtain rfl : c = Char.ofNat 0 := by rw [← hzero, Char.ofNat_toNat]
  exact absurd (hchars _ hc) (by decide)

/-- Directories are filled beside their place. -/
theorem withExtension_outputPath (h : s.primitives.SpellsHashes) (hlabel : IsLabel label)
    (inputs : List String) :
    Path.withExtension (s.outputPath label inputs) "tmp"
      = Path.join s.directory (s.stagingName label inputs) :=
  Path.withExtension_join (isName_resultName h hlabel inputs)
    (notMem_resultName h hlabel inputs (by decide)) (isName_stagingName h hlabel inputs)

/-! ## Locations of results -/

/-- At or below the directory of a result. -/
def InResults (s : LocalStore) (l : Location) : Prop :=
  ∃ label inputs rest, IsLabel label ∧
    l = destination s.directory ++ s.resultName label inputs :: rest

/-- No location on the way of the path is at or below the directory of a result. -/
def Spares (s : LocalStore) (path : String) : Prop := ∀ stop ∈ stopsOf path, ¬s.InResults stop

/-- The way to the directory of the store does not lead below it. -/
def Direct (s : LocalStore) : Prop :=
  ∀ stop ∈ stopsOf s.directory, destination s.directory <+: stop → stop = destination s.directory

/-- The place of a result, or what lies in it. -/
def place (s : LocalStore) (label : String) (inputs : List String) (rest : Location) : Location :=
  destination s.directory ++ s.resultName label inputs :: rest

/-- The place of a directory that is filled, or what lies in it. -/
def stagingPlace (s : LocalStore) (label : String) (inputs : List String) (rest : Location) :
    Location := destination s.directory ++ s.stagingName label inputs :: rest

theorem dot_mem_stagingName (s : LocalStore) (label : String) (inputs : List String) :
    '.' ∈ (s.stagingName label inputs).toList := by
  simp [stagingName]

theorem Direct.not_below (h : s.Direct) (name : String) (rest : Location) :
    destination s.directory ++ name :: rest ∉ stopsOf s.directory := by
  intro hmem
  have := h _ hmem (List.prefix_append _ _)
  simp at this

/-- Names of results are longer than the digits of their hashes. -/
theorem resultName_ne_of_short (h : s.primitives.SpellsHashes) {name : String}
    (hshort : name.toList.length ≤ 32) (label : String) (inputs : List String) :
    name ≠ s.resultName label inputs := by
  rintro rfl
  rw [resultName, String.toList_append, String.toList_append, List.length_append,
    List.length_append, length_digest h] at hshort
  have hdash : "-".toList.length = 1 := rfl
  omega

/-- Nothing below a location outside the results is in them, but for the places of
results themselves. -/
theorem not_inResults_append (h : ¬s.InResults l) {name : String}
    (hname : ∀ label inputs, IsLabel label → name ≠ s.resultName label inputs) :
    ¬s.InResults (l ++ [name]) := by
  rintro ⟨label, inputs, rest, hlabel, heq⟩
  cases rest using List.reverseRecOn with
  | nil =>
      have hlast : l ++ [name] = destination s.directory ++ [s.resultName label inputs] := heq
      have hsame := List.append_inj_right' hlast rfl
      exact hname label inputs hlabel (List.cons.inj hsame).1
  | append_singleton rest last =>
      refine h ⟨label, inputs, rest, hlabel, ?_⟩
      rw [← List.cons_append, ← List.append_assoc] at heq
      exact List.append_inj_left' heq rfl

theorem Spares.destination {path : String} (h : s.Spares path) :
    ¬s.InResults (destination path) :=
  h _ (foldl_mem_stops (List.prefix_refl _) _)

theorem Spares.join {path name : String} (h : s.Spares path) (hname : Path.IsName name)
    (hother : ∀ label inputs, IsLabel label → name ≠ s.resultName label inputs) :
    s.Spares (Path.join path name) := by
  intro stop hstop
  rw [stopsOf_join hname] at hstop
  rcases List.mem_append.1 hstop with hstop | hstop
  · exact h stop hstop
  · rw [List.mem_singleton.1 hstop]
    exact not_inResults_append h.destination hother

end LocalStore

end NodePipeline

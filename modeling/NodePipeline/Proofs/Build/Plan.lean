import NodePipeline.Proofs.Build.Consistent
import NodePipeline.Proofs.Build.Work
import NodePipeline.Proofs.Results

/-!
# Planned results

Where the results of derivations come to lie, and what the hashes in their names are
taken of, follows from the derivations alone.
-/

namespace NodePipeline

/-- The script is that of a node with proper names. -/
structure Derivation.Sound (d : Derivation) : Prop where
  node : isIdentifier d.node = true
  dependencies : ∀ dep ∈ d.dependencies, isIdentifier dep = true
  script_eq : d.script = NodePipeline.script d.node d.dependencies d.body

/-- Each derivation depends on what is done and on those before it. -/
def Supplied : List String → List Derivation → Prop
  | _, [] => True
  | done, d :: rest => (∀ dep ∈ d.dependencies, dep ∈ done) ∧ Supplied (done ++ [d.node]) rest

namespace LocalStore

variable {s : LocalStore} {outputs : Outputs} {d : Derivation}

/-- The path of a node's result, if it is there. -/
def pathIn (outputs : Outputs) (node : String) : String := (output? outputs node).getD ""

def names (outputs : Outputs) : List String := outputs.map Prod.fst

/-- What the result of a derivation depends on, by the paths of those before it. -/
def inputsOf (outputs : Outputs) (d : Derivation) : List String :=
  d.script :: d.dependencies.map fun dep => link dep (pathIn outputs dep)

/-- The output of a derivation. -/
def outputOf (s : LocalStore) (outputs : Outputs) (d : Derivation) : String × String :=
  (d.node, s.outputPath (nodeLabel d.node) (inputsOf outputs d))

/-- The outputs, with those of the derivations to come. -/
def planned (s : LocalStore) : Outputs → List Derivation → Outputs
  | outputs, [] => outputs
  | outputs, d :: rest => planned s (outputs ++ [s.outputOf outputs d]) rest

/-- What the results of the derivations to come depend on. -/
def asked (s : LocalStore) : Outputs → List Derivation → List (List String)
  | _, [] => []
  | outputs, d :: rest => inputsOf outputs d :: asked s (outputs ++ [s.outputOf outputs d]) rest

/-- All that is hashed to name the results of a build. -/
def hashedBy (s : LocalStore) (c : CompiledBuild) : List (List String) :=
  links (s.planned [] c.derivations) :: s.asked [] c.derivations

theorem output?_of_mem_names {node : String} (h : node ∈ names outputs) :
    output? outputs node = some (pathIn outputs node) ∧ (node, pathIn outputs node) ∈ outputs := by
  have hfind : ∃ output, outputs.find? (·.1 == node) = some output := by
    cases hfind : outputs.find? (·.1 == node) with
    | none => exact absurd h (find?_key_eq_none.1 hfind)
    | some output => exact ⟨output, rfl⟩
  obtain ⟨⟨name, path⟩, hfind⟩ := hfind
  obtain ⟨hmem, rfl⟩ := mem_of_find?_key hfind
  have hout : output? outputs name = some path := by rw [output?, hfind]; rfl
  have hpath : pathIn outputs name = path := by rw [pathIn, hout]; rfl
  rw [hpath]
  exact ⟨hout, hmem⟩

/-- Where all dependencies are there, the inputs are found. -/
theorem inputs_eq (h : ∀ dep ∈ d.dependencies, dep ∈ names outputs) :
    inputs d outputs = .ok (inputsOf outputs d) := by
  unfold inputs
  rw [mapM_eq_ok_of (g := fun dep => link dep (pathIn outputs dep)) fun dep hdep => by
    rw [(output?_of_mem_names (h dep hdep)).1]]
  rfl

theorem names_append (outputs more : Outputs) :
    names (outputs ++ more) = names outputs ++ names more := List.map_append

theorem names_planned (outputs : Outputs) (ds : List Derivation) :
    names (s.planned outputs ds) = names outputs ++ ds.map Derivation.node := by
  induction ds generalizing outputs with
  | nil => simp [planned]
  | cons d rest ih =>
      rw [planned, ih, names_append, List.map_cons, List.append_assoc]
      rfl

/-! ## Paths in a plan -/

theorem pathIn_append_left {more : Outputs} {node : String} (h : node ∈ names outputs) :
    pathIn (outputs ++ more) node = pathIn outputs node := by
  obtain ⟨hout, -⟩ := output?_of_mem_names h
  unfold pathIn output? at *
  rw [List.find?_append]
  cases hfind : outputs.find? (·.1 == node) with
  | none => simp [hfind] at hout
  | some output => rfl

/-- The path of a result that is there does not change as others are added. -/
theorem pathIn_planned_of_mem {ds : List Derivation} {node : String} (h : node ∈ names outputs) :
    pathIn (s.planned outputs ds) node = pathIn outputs node := by
  induction ds generalizing outputs with
  | nil => rfl
  | cons d rest ih =>
      have hmore : node ∈ names (outputs ++ [s.outputOf outputs d]) := by
        rw [names_append]
        exact List.mem_append_left _ h
      rw [planned, ih hmore, pathIn_append_left h]

theorem inputsOf_planned {ds : List Derivation} (h : ∀ dep ∈ d.dependencies, dep ∈ names outputs) :
    inputsOf (s.planned outputs ds) d = inputsOf outputs d := by
  unfold inputsOf
  rw [List.map_congr_left fun dep hdep => by rw [pathIn_planned_of_mem (h dep hdep)]]

/-- In a whole plan the path of every result is made of the paths of its dependencies. -/
theorem pathIn_planned {ds : List Derivation} (hsupplied : Supplied (names outputs) ds)
    (hnodup : (names outputs ++ ds.map Derivation.node).Nodup) :
    ∀ d ∈ ds, pathIn (s.planned outputs ds) d.node
        = s.outputPath (nodeLabel d.node) (inputsOf (s.planned outputs ds) d) ∧
      inputsOf (s.planned outputs ds) d ∈ s.asked outputs ds := by
  induction ds generalizing outputs with
  | nil => simp
  | cons d rest ih =>
      obtain ⟨hdeps, hrest⟩ := hsupplied
      have hnames : names (outputs ++ [s.outputOf outputs d]) = names outputs ++ [d.node] :=
        names_append _ _
      intro other hother
      rcases List.mem_cons.1 hother with rfl | hother
      · have hnew : other.node ∉ names outputs := by
          intro hmem
          exact (List.nodup_append.1 hnodup).2.2 _ hmem _ List.mem_cons_self rfl
        have hlast : pathIn (outputs ++ [s.outputOf outputs other]) other.node
            = (s.outputOf outputs other).2 := by
          have hnone : outputs.find? (·.1 == other.node) = none := find?_key_eq_none.2 hnew
          unfold pathIn output?
          rw [List.find?_append, hnone]
          simp [outputOf]
        rw [inputsOf_planned hdeps]
        refine ⟨?_, List.mem_cons_self⟩
        rw [planned, pathIn_planned_of_mem (by rw [hnames]; simp), hlast]
        rfl
      · have hnodup' : (names (outputs ++ [s.outputOf outputs d])
            ++ rest.map Derivation.node).Nodup := by
          rw [hnames, List.append_assoc]
          exact hnodup
        obtain ⟨hpath, hasked⟩ := ih (hnames ▸ hrest) hnodup' other hother
        exact ⟨hpath, List.mem_cons_of_mem _ hasked⟩

/-- What a node contributes to the name of the directory that gathers the results. -/
def rootLink (outputs : Outputs) (node : String) : String :=
  match output? outputs node with
  | some path => link node path
  | none => ""

/-- The directory that gathers the results is named by the links to all of them. -/
theorem rootInputs_eq {ds : List Derivation} (hnames : names outputs = ds.map Derivation.node)
    (hnodup : (names outputs).Nodup) :
    ds.map (fun d => rootLink outputs d.node) = links outputs := by
  have hleft : ds.map (fun d => rootLink outputs d.node) = (names outputs).map (rootLink outputs) := by
    rw [hnames, List.map_map]
    rfl
  rw [hleft, links, names, List.map_map]
  refine List.map_congr_left fun output houtput => ?_
  have hfind := find?_key_of_mem hnodup houtput
  rw [Function.comp, rootLink, output?, hfind]
  rfl

end LocalStore

end NodePipeline

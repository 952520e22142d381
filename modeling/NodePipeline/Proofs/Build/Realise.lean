import NodePipeline.Proofs.Build.Filling
import NodePipeline.Proofs.Build.Plan

/-!
# Realising nodes

A result that is there is taken as it is, one that is not is computed from what is
read back of its dependencies. Either way the store stays ready, and holds the
result where it was planned. Work that fails leaves the store consistent.
-/

namespace NodePipeline.LocalStore

open Disk

variable {s : LocalStore} {known : List String → Prop} {d : Disk} {outputs : Outputs}
  {deriv : Derivation} {path : String} {bytes : Bytes} {w : Workspace}

/-! ## Reading dependencies -/

theorem read_of_holds (hspell : s.primitives.SpellsHashes) (h : s.Holds d path bytes)
    {bytes' : Bytes} (hread : d.read (Path.join path artifactFile) = .ok bytes') :
    bytes' = bytes := by
  obtain ⟨node, ins, hnode, rfl, hat⟩ := h
  obtain ⟨-, -, hat'⟩ := (read_join isName_artifactFile).1 hread
  rw [destination_outputPath hspell (.node hnode), ← place_append, hat] at hat'
  exact (Content.file.inj (Option.some.inj hat')).symm

theorem readValue_eq_ok {v : Value} (h : d.readValue s.primitives path = .ok v) :
    ∃ bytes, d.read path = .ok bytes ∧ Value.ofArtifact s.primitives bytes = .ok v := by
  unfold readValue at h
  split at h
  · cases h
  · cases h
  · next bytes hread =>
      refine ⟨bytes, hread, ?_⟩
      split at h
      · next v' hv => rw [hv, Except.ok.inj h]
      · cases h

/-- The outputs are those of nodes, and their results are there. -/
def AllHeld (s : LocalStore) (d : Disk) (outputs : Outputs) : Prop :=
  ∀ output ∈ outputs, isIdentifier output.1 = true ∧ ∃ bytes, s.Holds d output.2 bytes

theorem allHeld_nil (s : LocalStore) (d : Disk) : s.AllHeld d [] := by
  intro output houtput
  cases houtput

/-- The derivations of a build whose outputs are there. -/
theorem AllHeld.derivations (h : s.AllHeld d outputs) {c : CompiledBuild}
    (hnames : names outputs = c.derivations.map Derivation.node) :
    ∀ deriv ∈ c.derivations, deriv.node ∈ names outputs ∧ isIdentifier deriv.node = true := by
  intro deriv hderiv
  have hmem : deriv.node ∈ names outputs := hnames ▸ List.mem_map_of_mem hderiv
  obtain ⟨output, houtput, hname⟩ := List.mem_map.1 hmem
  exact ⟨hmem, hname ▸ (h output houtput).1⟩

theorem AllHeld.kept {d' : Disk} (h : s.AllHeld d outputs) (hkept : s.Kept d d') :
    s.AllHeld d' outputs := by
  intro output houtput
  obtain ⟨hid, bytes, hholds⟩ := h output houtput
  exact ⟨hid, bytes, hholds.kept hkept⟩

theorem AllHeld.concat {output : String × String} (h : s.AllHeld d outputs)
    (hid : isIdentifier output.1 = true) (hheld : ∃ bytes, s.Holds d output.2 bytes) :
    s.AllHeld d (outputs ++ [output]) :=
  List.forall_mem_append.2 ⟨h, List.forall_mem_singleton.2 ⟨hid, hheld⟩⟩

theorem readInputs_cons_eq_ok {dep : String} {rest : List String}
    (hout : output? outputs dep = some path) {env : Environment} :
    s.readInputs d outputs (dep :: rest) = .ok env ↔
      ∃ v env', d.readValue s.primitives (Path.join path artifactFile) = .ok v ∧
        s.readInputs d outputs rest = .ok env' ∧ env'.insert dep v = env := by
  rw [readInputs, hout]
  simp only [bind_eq_ok, pure, Except.pure, Except.ok.injEq, exists_and_left]

/-- The environment of a body binds its dependencies to what is read back of their results. -/
theorem readInputs_eq_ok (hspell : s.primitives.SpellsHashes) (hall : s.AllHeld d outputs)
    {deps : List String} (hdeps : ∀ dep ∈ deps, dep ∈ names outputs) {env : Environment}
    (h : s.readInputs d outputs deps = .ok env) :
    ∃ (content : String → Bytes) (value : String → Value),
      (∀ dep ∈ deps, s.Holds d (pathIn outputs dep) (content dep)) ∧
      (∀ dep ∈ deps, Value.ofArtifact s.primitives (content dep) = .ok (value dep)) ∧
      env = overlay .empty deps value := by
  induction deps generalizing env with
  | nil =>
      obtain rfl : .empty = env := Except.ok.inj h
      exact ⟨fun _ => [], fun _ => .null, by simp, by simp, rfl⟩
  | cons dep rest ih =>
      obtain ⟨hout, hmem⟩ := output?_of_mem_names (hdeps dep List.mem_cons_self)
      obtain ⟨v, env', hv, henv', rfl⟩ := (readInputs_cons_eq_ok hout).1 h
      obtain ⟨content, value, hholds, hread, rfl⟩ :=
        ih (fun other hother => hdeps other (List.mem_cons_of_mem _ hother)) henv'
      obtain ⟨-, bytes, hbytes⟩ := hall _ hmem
      obtain ⟨bytes', hfile, hvalue⟩ := readValue_eq_ok hv
      obtain rfl := read_of_holds hspell hbytes hfile
      refine ⟨Function.update content dep bytes', Function.update value dep v,
        fun other hother => ?_, fun other hother => ?_, insert_overlay _ _ _ _ _⟩
      · rcases eq_or_ne other dep with rfl | hne
        · rw [Function.update_self]
          exact hbytes
        · rw [Function.update_of_ne hne]
          exact hholds other ((List.mem_cons.1 hother).resolve_left hne)
      · rcases eq_or_ne other dep with rfl | hne
        · rw [Function.update_self, Function.update_self]
          exact hvalue
        · rw [Function.update_of_ne hne, Function.update_of_ne hne]
          exact hread other ((List.mem_cons.1 hother).resolve_left hne)

/-! ## Computing a result -/

/-- The disk is as described, and the records in memory are those of before. -/
structure Stands (before : Workspace) (holds : Disk → Prop) (after : Workspace) : Prop where
  disk : holds after.disk
  memory : after.memory = before.memory

theorem evaluate_ends (s : LocalStore) (deriv : Derivation) (env : Environment) (w : Workspace) :
    (s.evaluate deriv env).Ends w
      (fun v w' => s.evaluator.evaluate deriv.body env = .ok v ∧ Stands w (· = w.disk) w')
      (Stands w (· = w.disk)) := by
  unfold evaluate
  refine Work.Ends.modify (Work.Ends.ofExcept ?_ ?_)
  · intro v hv
    split at hv
    · next v' hv' => exact ⟨hv' ▸ congrArg _ (Except.ok.inj hv), rfl, rfl⟩
    · cases hv
  · exact fun _ _ => ⟨rfl, rfl⟩

/-- A value that has no stored form is not written. -/
theorem publish_refused {v : Value} {e : ArtifactError} {path : String}
    (hrefused : v.toArtifact s.primitives = .error e) {done : Unit → Workspace → Prop}
    {failed : Workspace → Prop} (h : failed w) :
    (Work.onDisk (v.publish s.primitives FileStep.perform path)).Ends w done failed := by
  apply Work.Ends.onDisk
  · intro d a hd
    rw [Value.publish_of_error hrefused] at hd
    cases (Prod.ext_iff.1 hd).2
  · intro d e' hd
    rw [Value.publish_of_error hrefused] at hd
    obtain rfl : w.disk = d := (Prod.ext_iff.1 hd).1
    exact h

section Steps

variable {w' : Workspace} {label : String} {ins : List String}
  (hspell : s.primitives.SpellsHashes) (hlabel : IsLabel label)
  (h : Stands w (s.Filling label ins w.disk) w')

include hspell hlabel h

theorem clear_ends :
    (Work.steps (clearSteps w'.disk (s.stagingPath label ins))).Ends w'
      (fun _ => Stands w (s.Filling label ins w.disk)) (Stands w (s.Filling label ins w.disk)) := by
  have hclear := h.disk.trans (filling_clear hspell hlabel h.disk.wellFormed)
  apply Work.Ends.steps
  · intro d hd
    rw [hd] at hclear
    exact ⟨hclear, h.memory⟩
  · intro d e hd
    rw [hd] at hclear
    exact ⟨hclear, h.memory⟩

theorem publish_ends (hdirect : s.Direct) (hopen : w.disk.Opens s.directory) (v : Value) :
    (Work.onDisk (v.publish s.primitives FileStep.perform
        (Path.join (s.stagingPath label ins) artifactFile))).Ends w'
      (fun _ w'' => Stands w (s.Filling label ins w.disk) w'' ∧ ∃ bytes,
        v.toArtifact s.primitives = .ok bytes ∧
        w''.disk.at? (s.stagingPlace label ins [artifactFile]) = some (.file bytes))
      (Stands w (s.Filling label ins w.disk)) := by
  cases hbytes : v.toArtifact s.primitives with
  | error e => exact publish_refused hbytes h
  | ok bytes =>
      obtain ⟨hfilling, hat⟩ := filling_publish hspell hlabel h.disk.wellFormed
        (h.disk.opens hdirect hopen) bytes
      have hfilled := h.disk.trans hfilling
      apply Work.Ends.onDisk
      · intro d a hd
        rw [Value.publish_of_ok hbytes] at hd
        rw [hd] at hfilled hat
        exact ⟨⟨hfilled, h.memory⟩, bytes, rfl, hat rfl⟩
      · intro d e hd
        rw [Value.publish_of_ok hbytes] at hd
        rw [hd] at hfilled
        exact ⟨hfilled, h.memory⟩

theorem place_ends (hdirect : s.Direct) (hopen : w.disk.Opens s.directory) :
    (Work.steps [.rename (s.stagingPath label ins) (s.outputPath label ins)]).Ends w'
      (fun _ => Stands w (s.Placed label ins w'.disk)) (Stands w (s.Filling label ins w.disk)) := by
  refine Work.Ends.step (fun d hstep => ?_) fun d fault hstep => ?_
  · rw [FileStep.perform_rename] at hstep
    exact ⟨placed_of_rename hspell hlabel hdirect h.disk.wellFormed (h.disk.opens hdirect hopen)
      (FileStep.settle_eq_none hstep), h.memory⟩
  · rw [FileStep.perform_rename] at hstep
    obtain rfl := (FileStep.settle_eq_some hstep).1
    exact ⟨h.disk, h.memory⟩

omit hlabel in
/-- Work that only fills a directory leaves the store as it found it. -/
theorem consistent_of_filling (hdirect : s.Direct) (hready : s.Ready known w.disk) :
    Stands w (s.Consistent known) w' :=
  ⟨(h.disk.ready hspell hdirect hready).1.toConsistent, h.memory⟩

end Steps

/-- The store is ready, keeps what it held, and holds a result at the path. -/
structure Gained (s : LocalStore) (known : List String → Prop) (d : Disk) (path : String)
    (d' : Disk) : Prop where
  ready : s.Ready known d'
  kept : s.Kept d d'
  held : ∃ bytes, s.Holds d' path bytes

/-- What was built beside its path belongs to the path once it has been moved there. -/
theorem gained_of_placed {w₁ w₂ : Workspace} {name : String} {ins : List String} {bytes : Bytes}
    (hspell : s.primitives.SpellsHashes) (hdirect : s.Direct) (hready : s.Ready known w.disk)
    (hname : isIdentifier name = true)
    (hbuilt : s.Built known (s.outputPath (nodeLabel name) ins) bytes)
    (hfilled : Stands w (s.Filling (nodeLabel name) ins w.disk) w₁)
    (hat : w₁.disk.at? (s.stagingPlace (nodeLabel name) ins [artifactFile]) = some (.file bytes))
    (hplaced : Stands w (s.Placed (nodeLabel name) ins w₁.disk) w₂) :
    Stands w (s.Gained known w.disk (s.outputPath (nodeLabel name) ins)) w₂ := by
  obtain ⟨hready₁, hkept⟩ := hfilled.disk.ready hspell hdirect hready
  refine ⟨?_, hplaced.memory⟩
  constructor
  case ready =>
    refine ⟨hplaced.disk.consistent_node hspell hready₁.toConsistent fun bytes' hat' => ?_,
      hplaced.disk.opens⟩
    obtain rfl : bytes = bytes' := Content.file.inj (Option.some.inj (hat.symm.trans hat'))
    exact hbuilt
  case kept => exact hkept.trans (hplaced.disk.kept hspell)
  case held => exact ⟨bytes, name, ins, hname, rfl, (hplaced.disk.inside [artifactFile]).trans hat⟩

/-- The inputs of a sound derivation are those that results are made of. -/
theorem inputsOf_eq (hsound : deriv.Sound) (outputs : Outputs) :
    inputsOf outputs deriv
      = resultInputs deriv.node deriv.dependencies deriv.body (pathIn outputs) := by
  rw [inputsOf, hsound.script_eq]
  rfl

/-- A result that is computed belongs to its path. -/
theorem compute_ends (hspell : s.primitives.SpellsHashes) (hdirect : s.Direct)
    (hready : s.Ready known w.disk) (hall : s.AllHeld w.disk outputs) (hsound : deriv.Sound)
    (hdeps : ∀ dep ∈ deriv.dependencies, dep ∈ names outputs)
    (hknown : known (inputsOf outputs deriv)) :
    (s.compute deriv outputs (s.outputPath (nodeLabel deriv.node) (inputsOf outputs deriv))).Ends w
      (fun _ => Stands w
        (s.Gained known w.disk (s.outputPath (nodeLabel deriv.node) (inputsOf outputs deriv))))
      (Stands w (s.Consistent known)) := by
  have hlabel : IsLabel (nodeLabel deriv.node) := .node hsound.node
  have hinputs := inputsOf_eq hsound outputs
  generalize inputsOf outputs deriv = ins at hknown hinputs ⊢
  have hleft : ∀ w', Stands w (s.Filling (nodeLabel deriv.node) ins w.disk) w' →
      Stands w (s.Consistent known) w' := fun _ h => consistent_of_filling hspell h hdirect hready
  unfold compute
  rw [withExtension_outputPath hspell hlabel]
  refine Work.Ends.disk ?_
  have hread : (Work.ofExcept (s.readInputs w.disk outputs deriv.dependencies)).Ends w
      (fun env w' => s.readInputs w.disk outputs deriv.dependencies = .ok env ∧ w = w')
      (Stands w (s.Consistent known)) :=
    Work.Ends.ofExcept (fun env henv => ⟨henv, rfl⟩) fun _ _ => ⟨hready.toConsistent, rfl⟩
  refine hread.bind ?_
  rintro env _ ⟨henv, rfl⟩
  obtain ⟨content, value, hholds, hvalue, rfl⟩ := readInputs_eq_ok hspell hall hdeps henv
  have hevaluate := s.evaluate_ends deriv (overlay .empty deriv.dependencies value) w
  refine (hevaluate.mono_failed fun w' h => ?_).bind ?_
  · exact ⟨h.disk ▸ hready.toConsistent, h.memory⟩
  rintro v w₁ ⟨hv, hdisk, hmemory⟩
  refine Work.Ends.disk ?_
  have hstart : Stands w (s.Filling (nodeLabel deriv.node) ins w.disk) w₁ :=
    ⟨by rw [hdisk]; exact Filling.refl hready.wellFormed, hmemory⟩
  refine ((clear_ends hspell hlabel hstart).mono_failed hleft).bind ?_
  intro _ w₂ hcleared
  refine ((publish_ends hspell hlabel hcleared hdirect hready.opens v).mono_failed hleft).bind ?_
  rintro _ w₃ ⟨hfilled, bytes, hbytes, hat⟩
  refine (place_ends hspell hlabel hfilled hdirect hready.opens).mono ?_ hleft
  intro _ w₄ hplaced
  have hbuilt : s.Built known (s.outputPath (nodeLabel deriv.node) ins) bytes := by
    rw [hinputs] at hknown ⊢
    refine .intro hsound.node hsound.dependencies hknown (fun dep hdep => ?_) hvalue hv hbytes
    exact hready.toConsistent.built (hholds dep hdep)
  exact gained_of_placed hspell hdirect hready hsound.node hbuilt hfilled hat hplaced

/-! ## Nodes one after the other -/

/-- A result that is there is taken, one that is not is computed. -/
theorem realizeNode_ends (hspell : s.primitives.SpellsHashes) (hdirect : s.Direct)
    (hready : s.Ready known w.disk) (hall : s.AllHeld w.disk outputs) (hsound : deriv.Sound)
    (hdeps : ∀ dep ∈ deriv.dependencies, dep ∈ names outputs)
    (hknown : known (inputsOf outputs deriv)) :
    (s.realizeNode deriv outputs).Ends w
      (fun out w' => (deriv.node, out) = s.outputOf outputs deriv ∧
        Stands w (s.Gained known w.disk out) w')
      (Stands w (s.Consistent known)) := by
  have hlabel : IsLabel (nodeLabel deriv.node) := .node hsound.node
  unfold realizeNode
  rw [inputs_eq hdeps]
  have hfound : (Work.ofExcept (.ok (inputsOf outputs deriv))).Ends w
      (fun ins w' => inputsOf outputs deriv = ins ∧ w = w') (Stands w (s.Consistent known)) :=
    Work.Ends.ofExcept (fun _ h => ⟨Except.ok.inj h, rfl⟩) fun _ h => by cases h
  refine hfound.bind ?_
  rintro _ _ ⟨rfl, rfl⟩
  refine Work.Ends.disk ?_
  split
  · next hfile =>
      obtain ⟨-, -, bytes, hat⟩ := (isFile_join isName_artifactFile).1 hfile
      rw [destination_outputPath hspell hlabel, ← place_append] at hat
      refine Work.Ends.pure ⟨rfl, ⟨hready, Kept.refl s _, bytes, ?_⟩, rfl⟩
      exact ⟨deriv.node, inputsOf outputs deriv, hsound.node, rfl, hat⟩
  · refine (compute_ends hspell hdirect hready hall hsound hdeps hknown).bind ?_
    intro _ w' hw'
    exact Work.Ends.pure ⟨rfl, hw'⟩

/-- The planned outputs are there, in a ready store that has kept what it held. -/
structure Supplies (s : LocalStore) (known : List String → Prop) (d : Disk) (outputs : Outputs)
    (d' : Disk) : Prop where
  ready : s.Ready known d'
  kept : s.Kept d d'
  held : s.AllHeld d' outputs

theorem realizeNodes_ends (hspell : s.primitives.SpellsHashes) (hdirect : s.Direct)
    (cancel : Cancellation) {ds : List Derivation} (looks : Nat)
    (hready : s.Ready known w.disk) (hall : s.AllHeld w.disk outputs)
    (hsound : ∀ d ∈ ds, d.Sound) (hsupplied : Supplied (names outputs) ds)
    (hknown : ∀ ins ∈ s.asked outputs ds, known ins) :
    (s.realizeNodes cancel looks ds outputs).Ends w
      (fun outputs' w' => s.planned outputs ds = outputs' ∧
        Stands w (s.Supplies known w.disk outputs') w')
      (Stands w (s.Consistent known)) := by
  induction ds generalizing looks outputs w with
  | nil => exact Work.Ends.pure ⟨rfl, ⟨hready, Kept.refl s _, hall⟩, rfl⟩
  | cons deriv rest ih =>
      obtain ⟨hdeps, hrest⟩ := hsupplied
      obtain ⟨hnow, hlater⟩ := List.forall_mem_cons.1 hknown
      have hfirst := hsound deriv List.mem_cons_self
      unfold realizeNodes
      have hlook : (Work.ofExcept (cancel.look looks)).Ends w (fun _ w' => w = w')
          (Stands w (s.Consistent known)) :=
        Work.Ends.ofExcept (fun _ _ => rfl) fun _ _ => ⟨hready.toConsistent, rfl⟩
      refine hlook.bind ?_
      rintro _ _ rfl
      refine (realizeNode_ends hspell hdirect hready hall hfirst hdeps hnow).bind ?_
      rintro out w₁ ⟨hout, hgained, hmemory⟩
      rw [hout]
      -- The new output joins those that are held.
      have hall₁ : s.AllHeld w₁.disk (outputs ++ [s.outputOf outputs deriv]) :=
        (hall.kept hgained.kept).concat hfirst.node (hout ▸ hgained.held)
      have hsupplied : Supplied (names (outputs ++ [s.outputOf outputs deriv])) rest := by
        rw [names_append]
        exact hrest
      refine (ih (looks + 1) hgained.ready hall₁
        (fun d hd => hsound d (List.mem_cons_of_mem _ hd)) hsupplied hlater).mono ?_ ?_
      · rintro outputs' w₂ ⟨rfl, hsupplies, hmemory₂⟩
        exact ⟨rfl, ⟨hsupplies.ready, hgained.kept.trans hsupplies.kept, hsupplies.held⟩,
          hmemory₂.trans hmemory⟩
      · rintro w₂ ⟨hcons, hmemory₂⟩
        exact ⟨hcons, hmemory₂.trans hmemory⟩

end NodePipeline.LocalStore

import NodePipeline.Proofs.Build.Success

/-!
# What a build returns

The answer of a build follows from its derivations and from what belongs to the paths
of their results: whether a result is there or has to be computed makes no difference,
and nothing that an orderly store holds is in the way. The only file operations that
can fail are those under a name that is too long.
-/

namespace NodePipeline.LocalStore

open Disk

variable {s : LocalStore} {known : List String → Prop} {content : String → Bytes} {d : Disk}
  {outputs : Outputs} {deriv : Derivation} {label path : String} {ins : List String}
  {bytes : Bytes} {w : Workspace}

/-! ## Answers -/

/-- The value of a result that holds the bytes. -/
def storedValue (s : LocalStore) (path : String) (bytes : Bytes) : Except PipelineError Value :=
  match Value.ofArtifact s.primitives bytes with
  | .ok v => .ok v
  | .error e => .error (.artifact (e.atPath (Path.join path artifactFile)))

/-- The environment of a body where every result holds its content. -/
def environment (s : LocalStore) (content : String → Bytes) (outputs : Outputs) :
    List String → Except PipelineError Environment
  | [] => .ok .empty
  | dep :: rest => do
      match output? outputs dep with
      | some path =>
          let value ← s.storedValue path (content path)
          return (← s.environment content outputs rest).insert dep value
      | none => s.environment content outputs rest

/-- The value of a body, or that the derivation has failed. -/
def evaluated (s : LocalStore) (deriv : Derivation) (env : Environment) :
    Except PipelineError Value :=
  match s.evaluator.evaluate deriv.body env with
  | .ok v => .ok v
  | .error e =>
      .error (.buildFailed toolName ("derivation '" ++ nodeLabel deriv.node ++ "' failed") e.display)

/-- Whether a value can be stored under the name of a result. -/
def storable (s : LocalStore) (label : String) (ins : List String) (v : Value) :
    Except PipelineError Unit :=
  match v.toArtifact s.primitives with
  | .error e => .error (.artifact e)
  | .ok _ =>
      if isName (s.stagingName label ins) then .ok ()
      else .error (.ofFault (s.stagingPath label ins) .badName)

/-- Whether a derivation has a result. -/
def answer (s : LocalStore) (content : String → Bytes) (outputs : Outputs) (deriv : Derivation) :
    Except PipelineError Unit := do
  let env ← s.environment content outputs deriv.dependencies
  let v ← s.evaluated deriv env
  s.storable (nodeLabel deriv.node) (inputsOf outputs deriv) v

/-- The outputs of derivations, up to the first that has none or that the build is
cancelled before. -/
def answers (s : LocalStore) (content : String → Bytes) (cancel : Cancellation) :
    Nat → List Derivation → Outputs → Except PipelineError Outputs
  | _, [], outputs => .ok outputs
  | looks, d :: rest, outputs => do
      cancel.look looks
      s.answer content outputs d
      s.answers content cancel (looks + 1) rest (outputs ++ [s.outputOf outputs d])

/-- The directory that gathers the results of a build, or why there is none. -/
def realized (s : LocalStore) (content : String → Bytes) (c : CompiledBuild)
    (cancel : Cancellation) : Except PipelineError String := do
  let outputs ← s.answers content cancel 0 c.derivations []
  return s.outputPath rootLabel (links outputs)

/-- The contents are what belongs to the paths. -/
def Contains (s : LocalStore) (known : List String → Prop) (content : String → Bytes) : Prop :=
  ∀ path bytes, s.Built known path bytes → content path = bytes

/-- If hashes do not collide there are such contents. -/
theorem Distinct.exists_contents (hspell : s.primitives.SpellsHashes)
    (hdistinct : s.Distinct known) : ∃ content, s.Contains known content := by
  classical
  refine ⟨fun path => if h : ∃ bytes, s.Built known path bytes then h.choose else [], ?_⟩
  intro path bytes hbuilt
  have hexists : ∃ bytes, s.Built known path bytes := ⟨bytes, hbuilt⟩
  simp only [dif_pos hexists]
  exact hexists.choose_spec.unique hspell hdistinct hbuilt

/-! ## Answers of derivations -/

theorem readValue_eq (h : d.read (Path.join path artifactFile) = .ok bytes) :
    d.readValue s.primitives (Path.join path artifactFile) = s.storedValue path bytes := by
  cases hvalue : Value.ofArtifact s.primitives bytes with
  | ok v => simp [readValue, storedValue, h, hvalue]
  | error e => simp [readValue, storedValue, h, hvalue]

/-- Where the results hold their contents the environment is read from the disk. -/
theorem readInputs_eq
    (hread : ∀ output ∈ outputs, d.read (Path.join output.2 artifactFile) = .ok (content output.2))
    (deps : List String) : s.readInputs d outputs deps = s.environment content outputs deps := by
  induction deps with
  | nil => rfl
  | cons dep rest ih =>
      unfold readInputs environment
      cases hout : output? outputs dep with
      | none => exact ih
      | some path =>
          obtain ⟨output, hfind, rfl⟩ := Option.map_eq_some_iff.1 hout
          have hmem := List.mem_of_find?_eq_some hfind
          simp only [readValue_eq (hread output hmem), ih]

theorem environment_eq_ok {deps : List String} {value : String → Value}
    (hdeps : ∀ dep ∈ deps, dep ∈ names outputs)
    (hvalue : ∀ dep ∈ deps,
      Value.ofArtifact s.primitives (content (pathIn outputs dep)) = .ok (value dep)) :
    s.environment content outputs deps = .ok (overlay .empty deps value) := by
  induction deps with
  | nil => rfl
  | cons dep rest ih =>
      obtain ⟨hmem, hrest⟩ := List.forall_mem_cons.1 hdeps
      obtain ⟨hfirst, hvalues⟩ := List.forall_mem_cons.1 hvalue
      unfold environment
      simp only [(output?_of_mem_names hmem).1, storedValue, hfirst, ih hrest hvalues]
      refine congrArg Except.ok (Bindings.ext fun name => ?_)
      rw [Bindings.get?_insert, get?_overlay, get?_overlay]
      by_cases heq : name = dep
      · simp [heq]
      · simp [heq]

/-- What has been built had an answer. -/
theorem answer_of_built (hspell : s.primitives.SpellsHashes) (hdistinct : s.Distinct known)
    (hcontent : s.Contains known content) (hsound : deriv.Sound)
    (hdeps : ∀ dep ∈ deriv.dependencies, dep ∈ names outputs)
    (hknown : known (inputsOf outputs deriv))
    (hnamed : isName (s.stagingName (nodeLabel deriv.node) (inputsOf outputs deriv)) = true)
    (hbuilt : s.Built known
      (s.outputPath (nodeLabel deriv.node) (inputsOf outputs deriv)) bytes) :
    s.answer content outputs deriv = .ok () := by
  rw [inputsOf_eq hsound] at hknown hbuilt
  obtain ⟨stored, value, v, hbuilts, hread, hvalue, hbytes⟩ :=
    hbuilt.inv hspell hdistinct hsound.node hsound.dependencies hknown
  have henv := @environment_eq_ok s content outputs deriv.dependencies value hdeps fun dep hdep => by
    rw [hcontent _ _ (hbuilts dep hdep)]
    exact hread dep hdep
  unfold answer evaluated storable
  simp only [henv, bind, Except.bind, hvalue, hbytes, hnamed, if_true]

/-- An orderly store whose directory can be reached. -/
structure Tidy (s : LocalStore) (d : Disk) : Prop extends Orderly s d where
  opens : d.Opens s.directory

theorem evaluate_returns (s : LocalStore) (deriv : Derivation) (env : Environment)
    (w : Workspace) :
    (s.evaluate deriv env).Returns w (s.evaluated deriv env) (·.disk = w.disk) := by
  unfold evaluate
  exact Work.Returns.modify (Work.Returns.ofExcept rfl)

/-- A value is put into a directory of its own, which is then given its place. -/
def fill (s : LocalStore) (label : String) (ins : List String) (v : Value) : Work Unit := do
  Work.steps (clearSteps (← Work.disk) (s.stagingPath label ins))
  Work.onDisk (v.publish s.primitives FileStep.perform
    (Path.join (s.stagingPath label ins) artifactFile))
  Work.steps [.rename (s.stagingPath label ins) (s.outputPath label ins)]

theorem staging_directory (hwell : d.WellFormed) {rest : List String} (hrest : rest ≠ [])
    {content : Content} (hat : d.at? (s.stagingPlace label ins rest) = some content) :
    d.at? (s.stagingPlace label ins []) = some .directory := by
  rw [stagingPlace_append] at hat
  exact hwell.directory_above hrest hat

section Results

variable (hspell : s.primitives.SpellsHashes) (hdirect : s.Direct)

include hspell

theorem clear_returns (hlabel : IsLabel label) (hwell : w.disk.WellFormed)
    (hopen : w.disk.Opens s.directory) (hord : s.Orderly w.disk)
    (hnamed : isName (s.stagingName label ins) = true) :
    (Work.steps (clearSteps w.disk (s.stagingPath label ins))).Returns w (.ok ()) fun w' =>
      s.Filling label ins w.disk w'.disk ∧
        ∀ rest, w'.disk.at? (s.stagingPlace label ins rest) = none := by
  obtain ⟨d, hclear, hcleared⟩ := clear_succeeds hspell hlabel hwell hopen hnamed
    fun bytes => hord.staging _ ins bytes hlabel
  have hfilling : s.Filling label ins w.disk (Device.run FileStep.perform
      (clearSteps w.disk (s.stagingPath label ins)) w.disk).1 := filling_clear hspell hlabel hwell
  rw [hclear] at hfilling
  exact Work.Returns.steps hclear ⟨hfilling, hcleared⟩

/-- Nothing is under a name that is too long, and nothing can be put there. -/
theorem fill_refused (hlabel : IsLabel label) (hopen : w.disk.Opens s.directory)
    (hord : s.Orderly w.disk) (hnamed : isName (s.stagingName label ins) = false) (v : Value) :
    (s.fill label ins v).Returns w (s.storable label ins v) (s.Tidy ·.disk) := by
  have hname := isName_stagingName hspell hlabel ins
  have hclear : clearSteps w.disk (s.stagingPath label ins) = [] := by
    unfold clearSteps
    rw [if_neg]
    rw [Bool.not_eq_true, Option.isSome_eq_false_iff, Option.isNone_iff_eq_none]
    unfold stagingPath look?
    rw [locate_badName hname hopen hnamed]
  unfold fill storable
  refine Work.Returns.disk ?_
  rw [hclear, hnamed]
  refine Work.Returns.bind_ok (P := (w = ·)) ⟨w, rfl, rfl⟩ ?_
  rintro _ rfl
  cases hbytes : v.toArtifact s.primitives with
  | error e =>
      exact (Work.Returns.onDisk (Value.publish_of_error hbytes _ _) ⟨hord, hopen⟩).bind_error
  | ok bytes =>
      refine Work.Returns.bind_error (Work.Returns.onDisk (d := w.disk) ?_ ⟨hord, hopen⟩)
      have hsettled : Path.Settled (s.stagingPath label ins) := Path.settled_join hname
      have hmake : FileStep.perform (.createDirectories (s.stagingPath label ins)) w.disk
          = (w.disk, some .badName) :=
        FileStep.createDirectories_badName hname hopen hnamed
      rw [Value.publish_of_ok hbytes, publishSteps_join hsettled isName_artifactFile,
        Device.run_cons, hmake]
      simp only [FileStep.path]

include hdirect

/-- A directory that has been filled is given a place where nothing is. -/
theorem place_returns (hlabel : IsLabel label) (hopen : d.Opens s.directory) (hord : s.Orderly d)
    (hfree : d.at? (s.place label ins []) = none)
    (hnamed : isName (s.stagingName label ins) = true) (hfilled : s.Filling label ins d w.disk)
    (hdir : w.disk.at? (s.stagingPlace label ins []) = some .directory)
    (hartifact : ∀ node, label = nodeLabel node →
      ∃ bytes, w.disk.at? (s.stagingPlace label ins [artifactFile]) = some (.file bytes)) :
    (Work.steps [.rename (s.stagingPath label ins) (s.outputPath label ins)]).Returns w (.ok ())
      (s.Tidy ·.disk) := by
  have hopen' := hfilled.opens hdirect hopen
  have hfree' : w.disk.at? (s.place label ins []) = none := by
    rw [hfilled.same _ (staging_apart hspell (inResults_place hlabel ins []) _ ins)]
    exact hfree
  obtain ⟨d', hrename⟩ := place_succeeds hspell hlabel hopen' hnamed hdir hfree'
  have hplaced := placed_of_rename hspell hlabel hdirect hfilled.wellFormed hopen' hrename
  refine Work.Returns.steps (d := d') ?_
    ⟨hplaced.orderly hspell hlabel (hfilled.orderly hspell hord) hdir hartifact, hplaced.opens⟩
  rw [Device.run_cons, FileStep.perform_rename, hrename]
  rfl

/-- A value that can be stored is put where nothing is. -/
theorem fill_returns (hlabel : IsLabel label) (hwell : w.disk.WellFormed)
    (hopen : w.disk.Opens s.directory) (hord : s.Orderly w.disk)
    (hfree : w.disk.at? (s.place label ins []) = none) (v : Value) :
    (s.fill label ins v).Returns w (s.storable label ins v) (s.Tidy ·.disk) := by
  cases hnamed : isName (s.stagingName label ins) with
  | false => exact fill_refused hspell hlabel hopen hord hnamed v
  | true =>
      unfold fill storable
      refine Work.Returns.disk ?_
      rw [hnamed]
      refine (clear_returns hspell hlabel hwell hopen hord hnamed).bind_ok ?_
      rintro w₁ ⟨hclearing, hcleared⟩
      have hopen₁ := hclearing.opens hdirect hopen
      cases hbytes : v.toArtifact s.primitives with
      | error e =>
          refine Work.Returns.bind_error (Work.Returns.onDisk (Value.publish_of_error hbytes _ _) ?_)
          exact ⟨hclearing.orderly hspell hord, hopen₁⟩
      | ok bytes =>
          obtain ⟨d₂, hpublish⟩ := publish_succeeds hspell hlabel hclearing.wellFormed hopen₁ hnamed
            hdirect hcleared bytes
          obtain ⟨hpublishing, hat⟩ :=
            @filling_publish s w₁.disk label ins hspell hlabel hclearing.wellFormed hopen₁ bytes
          rw [hpublish] at hpublishing hat
          have hfilled := hclearing.trans hpublishing
          refine Work.Returns.bind_ok (a := ()) (P := (·.disk = d₂)) ?_ ?_
          · refine Work.Returns.onDisk ?_ rfl
            rw [Value.publish_of_ok hbytes]
            exact hpublish
          · rintro w₂ rfl
            exact place_returns hspell hdirect hlabel hopen hord hfree hnamed hfilled
              (staging_directory hfilled.wellFormed (List.cons_ne_nil _ _) (hat rfl))
              fun _ _ => ⟨bytes, hat rfl⟩

/-- A result is computed where there is none. -/
theorem compute_returns (hsound : deriv.Sound) (hwell : w.disk.WellFormed)
    (hopen : w.disk.Opens s.directory) (hord : s.Orderly w.disk)
    (hread : ∀ output ∈ outputs,
      w.disk.read (Path.join output.2 artifactFile) = .ok (content output.2))
    (hfree : w.disk.at? (s.place (nodeLabel deriv.node) (inputsOf outputs deriv) []) = none) :
    (s.compute deriv outputs (s.outputPath (nodeLabel deriv.node)
        (inputsOf outputs deriv))).Returns w
      (s.answer content outputs deriv) (s.Tidy ·.disk) := by
  have hlabel : IsLabel (nodeLabel deriv.node) := .node hsound.node
  unfold compute answer
  rw [withExtension_outputPath hspell hlabel, ← stagingPath]
  refine Work.Returns.disk ?_
  rw [readInputs_eq hread]
  refine (Work.Returns.ofExcept (P := (w = ·)) rfl).bind ?_ ?_
  · rintro env _ - rfl
    refine (evaluate_returns s deriv env w).bind ?_ ?_
    · intro v w₁ _ hdisk
      exact fill_returns hspell hdirect hlabel (hdisk ▸ hwell) (hdisk ▸ hopen) (hdisk ▸ hord)
        (hdisk ▸ hfree) v
    · intro _ w₁ _ hdisk
      exact hdisk ▸ ⟨hord, hopen⟩
  · rintro _ _ - rfl
    exact ⟨hord, hopen⟩

variable (hdistinct : s.Distinct known) (hcontent : s.Contains known content)
  (hready : s.Ready known w.disk) (hord : s.Orderly w.disk) (hall : s.AllHeld w.disk outputs)

include hdistinct hcontent hready hord hall

/-- A result that is there and one that is not have the same answer. -/
theorem realizeNode_returns (hsound : deriv.Sound)
    (hdeps : ∀ dep ∈ deriv.dependencies, dep ∈ names outputs)
    (hknown : known (inputsOf outputs deriv)) :
    (s.realizeNode deriv outputs).Returns w
      (s.answer content outputs deriv >>= fun _ => .ok (s.outputOf outputs deriv).2)
      (s.Tidy ·.disk) := by
  have hlabel : IsLabel (nodeLabel deriv.node) := .node hsound.node
  have hplace : destination (s.outputPath (nodeLabel deriv.node) (inputsOf outputs deriv))
      = s.place (nodeLabel deriv.node) (inputsOf outputs deriv) [] :=
    destination_outputPath hspell hlabel
  have hread : ∀ output ∈ outputs,
      w.disk.read (Path.join output.2 artifactFile) = .ok (content output.2) := by
    intro output houtput
    obtain ⟨-, bytes, hholds⟩ := hall output houtput
    rw [hcontent _ _ (hready.toConsistent.built hholds)]
    exact hholds.read hspell hord hready.wellFormed hready.opens
  have hout : (s.outputOf outputs deriv).2
      = s.outputPath (nodeLabel deriv.node) (inputsOf outputs deriv) := by rw [outputOf]
  unfold realizeNode
  rw [inputs_eq hdeps, hout]
  refine Work.Returns.bind_ok (P := (w = ·)) ⟨w, rfl, rfl⟩ ?_
  rintro _ rfl
  refine Work.Returns.disk ?_
  split
  · next hfile =>
      obtain ⟨hopen, -, bytes, hat⟩ := (isFile_join isName_artifactFile).1 hfile
      have hdir := hopen.2
      rw [hplace] at hat hdir
      rw [← place_append] at hat
      have hnamed := hord.named (nodeLabel deriv.node) (inputsOf outputs deriv) hlabel
        (by simp [hdir])
      rw [answer_of_built hspell hdistinct hcontent hsound hdeps hknown hnamed
        (hready.nodes deriv.node _ bytes hsound.node hat)]
      generalize s.outputPath (nodeLabel deriv.node) (inputsOf outputs deriv) = out
      exact Work.Returns.pure ⟨hord, hready.opens⟩
  · next hfile =>
      have hfree := hord.node_free hspell hready.wellFormed hready.opens hsound.node hfile
      have hcompute := compute_returns hspell hdirect hsound hready.wellFormed hready.opens hord
        hread hfree
      generalize s.outputPath (nodeLabel deriv.node) (inputsOf outputs deriv) = out at hcompute ⊢
      refine hcompute.bind ?_ ?_
      · exact fun _ w' _ hw' => Work.Returns.pure hw'
      · exact fun _ w' _ hw' => hw'

end Results

/-! ## Answers of builds -/

theorem answers_cons (s : LocalStore) (content : String → Bytes) (cancel : Cancellation)
    (looks : Nat) (deriv : Derivation) (rest : List Derivation) (outputs : Outputs) :
    s.answers content cancel looks (deriv :: rest) outputs
      = cancel.look looks >>= fun _ =>
        (s.answer content outputs deriv >>= fun _ => .ok (s.outputOf outputs deriv).2) >>= fun out =>
          s.answers content cancel (looks + 1) rest (outputs ++ [(deriv.node, out)]) := by
  have hout : (deriv.node, (s.outputOf outputs deriv).2) = s.outputOf outputs deriv := by
    rw [outputOf]
  rw [answers]
  cases cancel.look looks with
  | error e => rfl
  | ok _ =>
      cases s.answer content outputs deriv with
      | error e => rfl
      | ok _ =>
          show _ = s.answers content cancel (looks + 1) rest
            (outputs ++ [(deriv.node, (s.outputOf outputs deriv).2)])
          rw [hout]
          rfl

theorem isName_of_storable {v : Value} (h : s.storable label ins v = .ok ()) :
    isName (s.stagingName label ins) = true := by
  unfold storable at h
  cases hbytes : v.toArtifact s.primitives with
  | error e =>
      rw [hbytes] at h
      cases h
  | ok bytes =>
      rw [hbytes] at h
      by_contra hnamed
      simp only [if_neg hnamed] at h
      cases h

/-- Derivations that all have results have names that are allowed. -/
theorem isName_of_answers {cancel : Cancellation} {looks : Nat} {ds : List Derivation}
    {outputs' : Outputs} (h : s.answers content cancel looks ds outputs = .ok outputs') :
    ∀ d ∈ ds, isName d.node = true := by
  induction ds generalizing looks outputs with
  | nil => simp
  | cons deriv rest ih =>
      rw [answers] at h
      obtain ⟨_, -, h⟩ := bind_eq_ok.1 h
      obtain ⟨_, hanswer, hrest⟩ := bind_eq_ok.1 h
      refine List.forall_mem_cons.2 ⟨?_, ih hrest⟩
      obtain ⟨env, -, hanswer⟩ := bind_eq_ok.1 hanswer
      obtain ⟨v, -, hstorable⟩ := bind_eq_ok.1 hanswer
      exact isName_node_of_staging (isName_of_storable hstorable)

section Builds

variable (hspell : s.primitives.SpellsHashes) (hdirect : s.Direct)

include hspell hdirect

theorem realizeNodes_returns (hdistinct : s.Distinct known)
    (hcontent : s.Contains known content) (cancel : Cancellation) {ds : List Derivation}
    (looks : Nat) (hready : s.Ready known w.disk) (hord : s.Orderly w.disk)
    (hall : s.AllHeld w.disk outputs) (hsound : ∀ d ∈ ds, d.Sound)
    (hsupplied : Supplied (names outputs) ds) (hknown : ∀ ins ∈ s.asked outputs ds, known ins) :
    (s.realizeNodes cancel looks ds outputs).Returns w
      (s.answers content cancel looks ds outputs) (s.Tidy ·.disk) := by
  induction ds generalizing looks outputs w with
  | nil => exact Work.Returns.pure ⟨hord, hready.opens⟩
  | cons deriv rest ih =>
      obtain ⟨hdeps, hrest⟩ := hsupplied
      obtain ⟨hnow, hlater⟩ := List.forall_mem_cons.1 hknown
      obtain ⟨hfirst, hsounds⟩ := List.forall_mem_cons.1 hsound
      rw [answers_cons]
      unfold realizeNodes
      refine (Work.Returns.ofExcept (P := (w = ·)) rfl).bind ?_ ?_
      · rintro _ _ - rfl
        have hnode := (realizeNode_returns hspell hdirect hdistinct hcontent hready hord hall hfirst
          hdeps hnow).and_ends (realizeNode_ends hspell hdirect hready hall hfirst hdeps hnow)
        refine hnode.bind ?_ ?_
        · rintro out w₁ hanswer ⟨htidy, hdone⟩
          obtain ⟨hout, hgained, -⟩ := hdone out hanswer
          rw [hout]
          have hall₁ : s.AllHeld w₁.disk (outputs ++ [s.outputOf outputs deriv]) :=
            (hall.kept hgained.kept).concat hfirst.node (hout ▸ hgained.held)
          refine ih (looks + 1) hgained.ready htidy.toOrderly hall₁ hsounds ?_ hlater
          rw [names_append]
          exact hrest
        · exact fun _ _ _ h => h.1
      · rintro _ _ - rfl
        exact ⟨hord, hready.opens⟩

/-- The results of a build that has some can be gathered. -/
theorem linkRoot_returns {c : CompiledBuild} (hready : s.Ready known w.disk)
    (hord : s.Orderly w.disk) (hall : s.AllHeld w.disk outputs)
    (hnames : names outputs = c.derivations.map Derivation.node) (hnodup : (names outputs).Nodup)
    (hsome : c.derivations ≠ []) (hallowed : ∀ d ∈ c.derivations, isName d.node = true) :
    (s.linkRoot c outputs).Returns w (.ok (s.outputPath rootLabel (links outputs)))
      (s.Tidy ·.disk) := by
  have hnamed := isName_stagingName_root hspell (links outputs)
  rw [linkRoot_eq hnames hnodup]
  refine Work.Returns.disk ?_
  split
  · exact Work.Returns.pure ⟨hord, hready.opens⟩
  · next hdir =>
      rw [withExtension_outputPath hspell .root, ← stagingPath]
      refine (clear_returns hspell .root hready.wellFormed hready.opens hord hnamed).bind_ok ?_
      rintro w₁ ⟨hclearing, hcleared⟩
      have hmem : ∀ d ∈ c.derivations, d.node ∈ names outputs :=
        fun d hd => (hall.derivations hnames d hd).1
      have hids : ∀ d ∈ c.derivations, isIdentifier d.node = true :=
        fun d hd => (hall.derivations hnames d hd).2
      obtain ⟨d₂, hgather⟩ := gather_succeeds hspell hdirect hready hord hall
        (fun d hd => ⟨hmem d hd, hallowed d hd⟩) hclearing
        ⟨fun name bytes => by simp [hcleared], fun name => by simp [hcleared]⟩
      have hfilled := filling_gather hspell hdirect hready hids hclearing hgather
      obtain ⟨hcopies, -⟩ := run_gather hspell hdirect hready hids (hnames ▸ hnodup) hall hmem
        hclearing hgather
      refine Work.Returns.bind_ok (P := (·.disk = d₂)) (Work.Returns.steps hgather rfl) ?_
      rintro w₂ rfl
      -- There are copies in the directory, since the build has some results.
      obtain ⟨deriv, hderiv⟩ := List.exists_mem_of_ne_nil _ hsome
      obtain ⟨bytes, -, hat⟩ := hcopies deriv hderiv
      have hplace := place_returns hspell hdirect .root hready.opens hord
        (hord.root_free hspell hready.opens hdir) hnamed hfilled
        (staging_directory hfilled.wellFormed (List.cons_ne_nil _ _) hat)
        fun node hnode => absurd hnode.symm (nodeLabel_ne_rootLabel node)
      exact hplace.bind_ok fun w₃ hw₃ => Work.Returns.pure hw₃

/-- **What a build returns** depends on its derivations only, and on what belongs to their
paths. -/
theorem realize_returns (hdistinct : s.Distinct known) (hcontent : s.Contains known content)
    {c : CompiledBuild} (hsound : c.Sound) (hsome : c.derivations ≠ [])
    (hknown : ∀ ins ∈ s.hashedBy c, known ins) (path : String) (cancel : Cancellation)
    (hcons : s.Consistent known w.disk) (hord : s.Orderly w.disk)
    (hmade : ∃ d, FileStep.perform (.createDirectories s.directory) w.disk = (d, none)) :
    (s.tool.realize ⟨c, path⟩ cancel).Returns w (s.realized content c cancel)
      (s.Tidy ·.disk) := by
  obtain ⟨-, hasked⟩ := List.forall_mem_cons.1 hknown
  obtain ⟨d₁, hmade⟩ := hmade
  have hstep : Device.run FileStep.perform [.createDirectories s.directory] w.disk
      = (d₁, .ok ()) := by
    rw [Device.run_cons, hmade]
    rfl
  obtain ⟨hready, -⟩ := ready_of_made hdirect hcons hmade
  have htouched := FileStep.createDirectories_touched hcons.wellFormed s.directory
  rw [hmade] at htouched
  have hord₁ : s.Orderly d₁ := hord.of_same fun name rest =>
    htouched.same _ (hdirect.not_below name rest)
  have hnames : names (s.planned [] c.derivations) = c.derivations.map Derivation.node :=
    names_planned [] c.derivations
  have hnone := allHeld_nil s d₁
  refine Work.Returns.bind_ok (P := (·.disk = d₁)) (Work.Returns.steps hstep rfl) ?_
  rintro w₁ rfl
  have hnodes := (realizeNodes_returns hspell hdirect hdistinct hcontent cancel 0 hready hord₁
    hnone hsound.derivations hsound.supplied hasked).and_ends
    (realizeNodes_ends hspell hdirect cancel 0 hready hnone hsound.derivations hsound.supplied hasked)
  refine hnodes.bind ?_ ?_
  · rintro outputs w₂ hanswers ⟨htidy, hdone⟩
    obtain ⟨rfl, hsupplies⟩ := hdone outputs hanswers
    exact linkRoot_returns hspell hdirect hsupplies.disk.ready htidy.toOrderly
      hsupplies.disk.held hnames (hnames ▸ hsound.nodup) hsome (isName_of_answers hanswers)
  · exact fun _ _ _ h => h.1

end Builds

end NodePipeline.LocalStore

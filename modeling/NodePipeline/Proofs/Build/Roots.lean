import NodePipeline.Proofs.Build.Success
import NodePipeline.Proofs.Disk.Steady

/-!
# Finished roots

A directory that gathers results is not worked on again once it is there: builds take it
as it is, whatever they are asked for and however they end. What they change lies in
directories that are being filled, and in the places of results that can still be put there.
No hash has to be distinct for that.
-/

namespace NodePipeline.LocalStore

open Disk

variable {s : LocalStore} {d d' d'' : Disk} {label : String} {ins : List String} {l : Location}
  {steps : List FileStep} {w w' w₀ : Workspace} {outputs : Outputs}

/-! ## Where builds work -/

/-- What a build may change: directories that are being filled, results of nodes, and roots
that are not there yet. -/
inductive Loose (s : LocalStore) (d : Disk) : Location → Prop
  | staging {label : String} (hlabel : IsLabel label) (ins : List String) (rest : Location) :
      Loose s d (s.stagingPlace label ins rest)
  | node {name : String} (hid : isIdentifier name = true) (ins : List String) (rest : Location) :
      Loose s d (s.place (nodeLabel name) ins rest)
  | root {ins : List String} (hnew : d.at? (s.place rootLabel ins []) ≠ some .directory)
      (rest : Location) : Loose s d (s.place rootLabel ins rest)

theorem Loose.below (h : s.Loose d l) :
    ∃ name rest, l = destination s.directory ++ name :: rest := by
  cases h with
  | staging hlabel ins rest => exact ⟨_, rest, rfl⟩
  | node hid ins rest => exact ⟨_, rest, rfl⟩
  | root hnew rest => exact ⟨_, rest, rfl⟩

theorem Direct.not_loose (hdirect : s.Direct) : ∀ stop ∈ stopsOf s.directory, ¬s.Loose d stop := by
  intro stop hstop hloose
  obtain ⟨name, rest, rfl⟩ := hloose.below
  exact hdirect.not_below name rest hstop

/-- A root that is there is left alone. -/
theorem not_loose_root (hspell : s.primitives.SpellsHashes)
    (hdir : d.at? (s.place rootLabel ins []) = some .directory) (rest : Location) :
    ¬s.Loose d (s.place rootLabel ins rest) := by
  intro hloose
  have hplace : ∀ {label ins' rest'}, s.place rootLabel ins rest = s.place label ins' rest' →
      s.resultName rootLabel ins = s.resultName label ins' := fun heq =>
    (List.cons.inj (List.append_cancel_left heq)).1
  generalize hl : s.place rootLabel ins rest = l at hloose
  cases hloose with
  | @staging label hlabel ins' rest' =>
      refine staging_apart hspell (inResults_place .root ins rest) label ins' ?_
      exact hl ▸ prefix_stagingPlace s label ins' rest'
  | @node name hid ins' rest' =>
      exact nodeLabel_ne_rootLabel name (resultName_inj hspell (hplace hl)).2.symm
  | @root ins' hnew rest' =>
      refine hnew ?_
      rw [place, ← hplace hl]
      exact hdir

/-- What builds leave of a disk: all but what is loose, and but for the way to the store. -/
def Onward (s : LocalStore) (d d' : Disk) : Prop :=
  Steady (fun l => l ∈ stopsOf s.directory ∨ s.Loose d l) (s.Loose d) d d'

/-- A store at work: its directory is there. -/
structure Busy (s : LocalStore) (d d' : Disk) : Prop where
  onward : s.Onward d d'
  opens : d'.Opens s.directory

theorem Busy.run (hdirect : s.Direct) (h : s.Busy d d')
    (hmakes : ∀ step ∈ steps, ∀ l, step.Makes l → l ∈ stopsOf s.directory ∨ s.Loose d l)
    (hchanges : ∀ step ∈ steps, ∀ l, step.Changes l → s.Loose d l) :
    s.Busy d (Device.run FileStep.perform steps d').1 := by
  have hsteady := Device.honest_perform.run_steady h.onward.sound hmakes hchanges
  exact ⟨h.onward.trans hsteady, hsteady.opens hdirect.not_loose h.opens⟩

/-- Roots that can be reached stay, with all that is in them and all that is not. -/
def KeepsRoots (s : LocalStore) (d d' : Disk) : Prop :=
  ∀ ins, d.Opens (s.outputPath rootLabel ins) → d'.Opens (s.outputPath rootLabel ins) ∧
    ∀ rest, d'.at? (s.place rootLabel ins rest) = d.at? (s.place rootLabel ins rest)

theorem KeepsRoots.refl : s.KeepsRoots d d := fun _ hopen => ⟨hopen, fun _ => rfl⟩

theorem KeepsRoots.trans (h : s.KeepsRoots d d') (h' : s.KeepsRoots d' d'') :
    s.KeepsRoots d d'' := by
  intro ins hopen
  obtain ⟨hopen', hsame⟩ := h ins hopen
  obtain ⟨hopen'', hsame'⟩ := h' ins hopen'
  exact ⟨hopen'', fun rest => (hsame' rest).trans (hsame rest)⟩

section Spelled

variable (hspell : s.primitives.SpellsHashes)

include hspell

theorem Onward.root_same (hdirect : s.Direct) (h : s.Onward d d')
    (hdir : d.at? (s.place rootLabel ins []) = some .directory) (rest : Location) :
    d'.at? (s.place rootLabel ins rest) = d.at? (s.place rootLabel ins rest) := by
  refine h.exact ?_ (not_loose_root hspell hdir rest)
  rintro (hstop | hloose)
  · exact hdirect.not_below _ rest hstop
  · exact not_loose_root hspell hdir rest hloose

theorem opens_root : d.Opens (s.outputPath rootLabel ins) ↔
    d.Opens s.directory ∧ d.at? (s.place rootLabel ins []) = some .directory := by
  have hnamed := isName_resultName_of_staging (isName_stagingName_root hspell ins)
  exact (opens_join (isName_resultName hspell .root ins)).trans
    ⟨fun h => ⟨h.1, h.2.2⟩, fun h => ⟨h.1, hnamed, h.2⟩⟩

theorem Onward.keepsRoots (hdirect : s.Direct) (h : s.Onward d d') : s.KeepsRoots d d' := by
  intro ins hopen
  obtain ⟨hstore, hdir⟩ := (opens_root hspell).1 hopen
  have hsame := h.root_same hspell hdirect hdir
  refine ⟨(opens_root hspell).2 ⟨?_, (hsame []).trans hdir⟩, hsame⟩
  exact Steady.opens h hdirect.not_loose hstore

theorem keepsRoots_of_touched {changes : Location → Prop} (h : Touched changes d d')
    (hspare : ∀ l, changes l → ¬s.InResults l) : s.KeepsRoots d d' := by
  intro ins hopen
  obtain ⟨hstore, hdir⟩ := (opens_root hspell).1 hopen
  have hsame : ∀ rest, d'.at? (s.place rootLabel ins rest) = d.at? (s.place rootLabel ins rest) :=
    fun rest => h.same _ fun hc => hspare _ hc (inResults_place .root ins rest)
  exact ⟨(opens_root hspell).2 ⟨h.opens hstore, (hsame []).trans hdir⟩, hsame⟩

end Spelled

/-! ## Work on directories -/

section Directories

variable (hspell : s.primitives.SpellsHashes) (hdirect : s.Direct) (hlabel : IsLabel label)
  (h : Stands w₀ (s.Busy w₀.disk) w)

include hspell hlabel in
omit h in
theorem loose_staging {d : Disk} (hl : destination (s.stagingPath label ins) <+: l) :
    s.Loose d l := by
  obtain ⟨rest, rfl⟩ := hl
  rw [destination_stagingPath hspell hlabel, ← stagingPlace_append]
  exact .staging hlabel ins rest

include hspell hlabel in
omit h in
theorem loose_inside {d : Disk} {name : String} (hname : Path.IsName name)
    (hl : destination (Path.join (s.stagingPath label ins) name) <+: l) : s.Loose d l := by
  rw [destination_join hname] at hl
  exact loose_staging hspell hlabel ((List.prefix_append _ _).trans hl)

include hdirect h

theorem steps_busy
    (hmakes : ∀ step ∈ steps, ∀ l, step.Makes l → l ∈ stopsOf s.directory ∨ s.Loose w₀.disk l)
    (hchanges : ∀ step ∈ steps, ∀ l, step.Changes l → s.Loose w₀.disk l) :
    (Work.steps steps).Ends w (fun _ => Stands w₀ (s.Busy w₀.disk))
      (Stands w₀ (s.Busy w₀.disk)) := by
  have hrun := h.disk.run hdirect hmakes hchanges
  apply Work.Ends.steps
  · intro d hd
    rw [hd] at hrun
    exact ⟨hrun, h.memory⟩
  · intro d e hd
    rw [hd] at hrun
    exact ⟨hrun, h.memory⟩

include hspell hlabel

theorem clear_busy :
    (Work.steps (clearSteps w.disk (s.stagingPath label ins))).Ends w
      (fun _ => Stands w₀ (s.Busy w₀.disk)) (Stands w₀ (s.Busy w₀.disk)) := by
  have hsteps : ∀ step ∈ clearSteps w.disk (s.stagingPath label ins),
      step = .removeTree (s.stagingPath label ins) := by
    unfold clearSteps
    split <;> simp
  refine steps_busy hdirect h (fun step hstep l hl => ?_) fun step hstep l hl => ?_
  · obtain rfl := hsteps step hstep
    exact hl.elim
  · obtain rfl := hsteps step hstep
    exact loose_staging hspell hlabel hl

theorem place_busy (hplace : ∀ rest, s.Loose w₀.disk (s.place label ins rest)) :
    (Work.steps [.rename (s.stagingPath label ins) (s.outputPath label ins)]).Ends w
      (fun _ => Stands w₀ (s.Busy w₀.disk)) (Stands w₀ (s.Busy w₀.disk)) := by
  refine steps_busy hdirect h (fun step hstep l hl => ?_) fun step hstep l hl => ?_
  · obtain rfl := List.mem_singleton.1 hstep
    exact hl.elim
  · obtain rfl := List.mem_singleton.1 hstep
    rcases hl with hl | hl
    · exact loose_staging hspell hlabel hl
    · rw [destination_outputPath hspell hlabel] at hl
      obtain ⟨rest, rfl⟩ := hl
      rw [← place_append]
      exact hplace rest

omit hdirect h in
/-- The way into a directory that is filled. -/
theorem staging_stop {d : Disk} {stop : Location} (hstop : stop ∈ stopsOf (s.stagingPath label ins)) :
    stop ∈ stopsOf s.directory ∨ s.Loose d stop := by
  rw [stopsOf_stagingPath hspell hlabel] at hstop
  rcases List.mem_append.1 hstop with hstop | hstop
  · exact Or.inl hstop
  · rw [List.mem_singleton.1 hstop]
    exact Or.inr (.staging hlabel ins [])

theorem publish_busy (v : Value) :
    (Work.onDisk (v.publish s.primitives FileStep.perform
        (Path.join (s.stagingPath label ins) artifactFile))).Ends w
      (fun _ => Stands w₀ (s.Busy w₀.disk)) (Stands w₀ (s.Busy w₀.disk)) := by
  cases hbytes : v.toArtifact s.primitives with
  | error e => exact publish_refused hbytes h
  | ok bytes =>
      have hsettled : Path.Settled (s.stagingPath label ins) :=
        Path.settled_join (isName_stagingName hspell hlabel ins)
      have hpublish : v.publish s.primitives FileStep.perform
          (Path.join (s.stagingPath label ins) artifactFile) = Device.run FileStep.perform
            [.createDirectories (s.stagingPath label ins),
              .write (Path.join (s.stagingPath label ins) ("." ++ artifactFile ++ ".tmp")) bytes,
              .rename (Path.join (s.stagingPath label ins) ("." ++ artifactFile ++ ".tmp"))
                (Path.join (s.stagingPath label ins) artifactFile)] := by
        funext d
        rw [Value.publish_of_ok hbytes, publishSteps_join hsettled isName_artifactFile]
      have htemp := isName_temporary isName_artifactFile
      have hinside : ∀ name, Path.IsName name → ∀ l,
          destination (Path.join (s.stagingPath label ins) name) <+: l → s.Loose w₀.disk l :=
        fun name hname l hl => loose_inside hspell hlabel hname hl
      rw [hpublish]
      refine steps_busy hdirect h (fun step hstep l hl => ?_) fun step hstep l hl => ?_
      · simp only [List.mem_cons, List.not_mem_nil, or_false] at hstep
        rcases hstep with rfl | rfl | rfl
        · exact staging_stop hspell hlabel hl
        · exact hl.elim
        · exact hl.elim
      · simp only [List.mem_cons, List.not_mem_nil, or_false] at hstep
        rcases hstep with rfl | rfl | rfl
        · exact hl.elim
        · have hplace : l = destination (Path.join (s.stagingPath label ins) _) := hl
          exact hinside _ htemp l (hplace ▸ List.prefix_refl _)
        · exact hl.elim (hinside _ htemp l) (hinside _ isName_artifactFile l)

end Directories

/-! ## Realising nodes -/

section Nodes

variable (hspell : s.primitives.SpellsHashes) (hdirect : s.Direct)

include hspell hdirect

theorem realizeNode_busy (h : Stands w₀ (s.Busy w₀.disk) w) {deriv : Derivation}
    (hid : isIdentifier deriv.node = true) (outputs : Outputs) :
    (s.realizeNode deriv outputs).Ends w (fun _ => Stands w₀ (s.Busy w₀.disk))
      (Stands w₀ (s.Busy w₀.disk)) := by
  have hlabel : IsLabel (nodeLabel deriv.node) := .node hid
  unfold realizeNode
  refine Work.Ends.bind (Work.Ends.ofExcept (fun _ _ => h) fun _ _ => h) fun ins w₁ h₁ => ?_
  refine Work.Ends.disk ?_
  split
  · exact Work.Ends.pure h₁
  · refine Work.Ends.bind ?_ fun _ _ h' => Work.Ends.pure h'
    unfold compute
    rw [withExtension_outputPath hspell hlabel]
    refine Work.Ends.disk ?_
    refine Work.Ends.bind (Work.Ends.ofExcept (fun _ _ => h₁) fun _ _ => h₁) fun env w₂ h₂ => ?_
    have hevaluated : (s.evaluate deriv env).Ends w₂ (fun _ => Stands w₀ (s.Busy w₀.disk))
        (Stands w₀ (s.Busy w₀.disk)) := by
      refine (evaluate_ends s deriv env w₂).mono ?_ ?_
      · rintro v w' ⟨-, hdisk, hmemory⟩
        exact ⟨hdisk ▸ h₂.disk, hmemory.trans h₂.memory⟩
      · rintro w' ⟨hdisk, hmemory⟩
        exact ⟨hdisk ▸ h₂.disk, hmemory.trans h₂.memory⟩
    refine hevaluated.bind fun v w₃ h₃ => ?_
    refine Work.Ends.disk ?_
    refine (clear_busy hspell hdirect hlabel h₃).bind fun _ w₄ h₄ => ?_
    refine (publish_busy hspell hdirect hlabel h₄ v).bind fun _ w₅ h₅ => ?_
    exact place_busy hspell hdirect hlabel h₅ fun rest => .node hid ins rest

theorem realizeNodes_busy (cancel : Cancellation) {ds : List Derivation}
    (hids : ∀ deriv ∈ ds, isIdentifier deriv.node = true) (looks : Nat)
    (h : Stands w₀ (s.Busy w₀.disk) w) (outputs : Outputs) :
    (s.realizeNodes cancel looks ds outputs).Ends w
      (fun outputs' w' => names outputs' = names outputs ++ ds.map Derivation.node ∧
        Stands w₀ (s.Busy w₀.disk) w')
      (Stands w₀ (s.Busy w₀.disk)) := by
  induction ds generalizing looks w outputs with
  | nil => exact Work.Ends.pure ⟨by simp, h⟩
  | cons deriv rest ih =>
      obtain ⟨hid, hrest⟩ := List.forall_mem_cons.1 hids
      unfold realizeNodes
      refine Work.Ends.bind (Work.Ends.ofExcept (fun _ _ => h) fun _ _ => h) fun _ w₁ h₁ => ?_
      refine (realizeNode_busy hspell hdirect h₁ hid outputs).bind fun out w₂ h₂ => ?_
      refine (ih hrest (looks + 1) h₂ (outputs ++ [(deriv.node, out)])).mono ?_ fun _ h' => h'
      rintro outputs' w' ⟨hnames, h'⟩
      refine ⟨?_, h'⟩
      rw [hnames, names_append]
      simp [names]

end Nodes

/-! ## Gathering results -/

theorem mem_gatherSteps {staging : String} {ds : List Derivation} {step : FileStep}
    (h : step ∈ gatherSteps staging ds outputs) :
    ∃ deriv ∈ ds, step = .createDirectories (Path.join staging deriv.node) ∨
      ∃ source, step = .copyInto source (Path.join staging deriv.node) artifactFile := by
  unfold gatherSteps at h
  obtain ⟨deriv, hderiv, hstep⟩ := List.mem_flatMap.1 h
  refine ⟨deriv, hderiv, ?_⟩
  split at hstep
  · rcases List.mem_cons.1 hstep with rfl | hstep
    · exact Or.inl rfl
    · exact Or.inr ⟨_, List.mem_singleton.1 hstep⟩
  · cases hstep

section Gathering

/-- What gathers results makes the directory for them. -/
theorem gather_opens (hwell : d.WellFormed) {ds : List Derivation} (hsome : ds ≠ [])
    (hids : ∀ deriv ∈ ds, isIdentifier deriv.node = true)
    (hnames : ∀ deriv ∈ ds, deriv.node ∈ names outputs)
    (hrun : Device.run FileStep.perform (gatherSteps (s.stagingPath rootLabel ins) ds outputs) d
      = (d', .ok ())) : d'.Opens (s.stagingPath rootLabel ins) := by
  cases ds with
  | nil => exact absurd rfl hsome
  | cons deriv rest =>
      have hname := isName_of_isIdentifier (hids deriv List.mem_cons_self)
      have hsteps : ∀ step ∈ gatherSteps (s.stagingPath rootLabel ins) (deriv :: rest) outputs,
          ∀ d₁ : Disk, d₁.WellFormed →
            Touched (fun _ => True) d₁ (FileStep.perform step d₁).1 := by
        intro step hstep d₁ hd₁
        obtain ⟨other, -, rfl | ⟨source, rfl⟩⟩ := mem_gatherSteps hstep
        · exact (FileStep.createDirectories_touched hd₁ _).mono fun _ _ => trivial
        · exact (FileStep.copyInto_touched hd₁ _ _ _).mono fun _ _ => trivial
      obtain ⟨hout, -⟩ := output?_of_mem_names (hnames deriv List.mem_cons_self)
      unfold gatherSteps at hrun hsteps
      rw [List.flatMap_cons, hout] at hrun hsteps
      obtain ⟨d₁, hmade, hmore⟩ := Device.run_cons_ok hrun
      have hopen := (opens_join hname).1 (FileStep.createDirectories_opens hwell hmade)
      have hwell₁ := (hsteps _ List.mem_cons_self d hwell).wellFormed
      rw [hmade] at hwell₁
      have htouched := Device.run_touched hwell₁ fun step hstep =>
        hsteps step (List.mem_cons_of_mem _ hstep)
      rw [hmore] at htouched
      exact htouched.opens hopen.1

variable (hspell : s.primitives.SpellsHashes) (hdirect : s.Direct)

include hspell hdirect

theorem gather_busy (h : Stands w₀ (s.Busy w₀.disk) w) {ds : List Derivation}
    (hids : ∀ deriv ∈ ds, isIdentifier deriv.node = true) :
    (Work.steps (gatherSteps (s.stagingPath rootLabel ins) ds outputs)).Ends w
      (fun _ => Stands w₀ (s.Busy w₀.disk)) (Stands w₀ (s.Busy w₀.disk)) := by
  refine steps_busy hdirect h (fun step hstep l hl => ?_) fun step hstep l hl => ?_
  · obtain ⟨deriv, hderiv, rfl | ⟨source, rfl⟩⟩ := mem_gatherSteps hstep
    · have hname := isName_of_isIdentifier (hids deriv hderiv)
      have hstop : l ∈ stopsOf (Path.join (s.stagingPath rootLabel ins) deriv.node) := hl
      rw [stopsOf_join hname] at hstop
      rcases List.mem_append.1 hstop with hstop | hstop
      · exact staging_stop hspell .root hstop
      · rw [List.mem_singleton.1 hstop]
        exact Or.inr (loose_staging hspell .root (List.prefix_append _ _))
    · exact hl.elim
  · obtain ⟨deriv, hderiv, rfl | ⟨source, rfl⟩⟩ := mem_gatherSteps hstep
    · exact hl.elim
    · have hname := isName_of_isIdentifier (hids deriv hderiv)
      obtain rfl : l = destination
        (Path.join (Path.join (s.stagingPath rootLabel ins) deriv.node) artifactFile) := hl
      have hbelow : destination (Path.join (s.stagingPath rootLabel ins) deriv.node) <+: destination
          (Path.join (Path.join (s.stagingPath rootLabel ins) deriv.node) artifactFile) := by
        rw [destination_join isName_artifactFile]
        exact List.prefix_append _ _
      exact loose_inside hspell .root hname hbelow

/-- A directory that has been put in its place is there. -/
theorem place_opens (hwell : w.disk.WellFormed) (hstore : w.disk.Opens s.directory)
    (hopen : w.disk.Opens (s.stagingPath rootLabel ins)) :
    (Work.steps [.rename (s.stagingPath rootLabel ins) (s.outputPath rootLabel ins)]).Ends w
      (fun _ w' => w'.disk.Opens (s.outputPath rootLabel ins)) fun _ => True := by
  refine Work.Ends.step (fun d hstep => ?_) fun _ _ _ => trivial
  rw [FileStep.perform_rename] at hstep
  have hplaced := placed_of_rename hspell .root hdirect hwell hstore (FileStep.settle_eq_none hstep)
  refine (opens_root hspell).2 ⟨hplaced.opens, ?_⟩
  rw [hplaced.inside, ← destination_stagingPath hspell .root]
  exact hopen.2

theorem linkRoot_busy (h : Stands w₀ (s.Busy w₀.disk) w) {c : CompiledBuild} (hc : c.Sound)
    (hsome : c.derivations ≠ []) (hnames : names outputs = c.derivations.map Derivation.node) :
    (s.linkRoot c outputs).Ends w
      (fun root w' => (∃ ins, root = s.outputPath rootLabel ins ∧ w'.disk.Opens root) ∧
        Stands w₀ (s.Busy w₀.disk) w')
      (Stands w₀ (s.Busy w₀.disk)) := by
  have hids : ∀ deriv ∈ c.derivations, isIdentifier deriv.node = true :=
    fun deriv hderiv => (hc.derivations deriv hderiv).node
  rw [linkRoot_eq hnames (hnames ▸ hc.nodup)]
  refine Work.Ends.disk ?_
  split
  · next hdir => exact Work.Ends.pure ⟨⟨_, rfl, (isDirectory_eq_true.1 hdir).2⟩, h⟩
  · next hnot =>
      -- The root is not there now, so it was not there at the start.
      have hnew : w₀.disk.at? (s.place rootLabel (links outputs) []) ≠ some .directory := by
        intro hdir
        refine hnot (isDirectory_eq_true.2
          ⟨Path.join_ne_empty (isName_resultName hspell .root _), (opens_root hspell).2 ⟨?_, ?_⟩⟩)
        · exact h.disk.opens
        · exact (h.disk.onward.root_same hspell hdirect hdir []).trans hdir
      rw [withExtension_outputPath hspell .root]
      refine (clear_busy hspell hdirect .root h).bind fun _ w₁ h₁ => ?_
      have hgathered : (Work.steps (gatherSteps (s.stagingPath rootLabel (links outputs))
          c.derivations outputs)).Ends w₁
          (fun _ w' => w'.disk.Opens (s.stagingPath rootLabel (links outputs))) fun _ => True := by
        apply Work.Ends.steps
        · intro d hd
          refine gather_opens h₁.disk.onward.sound.wellFormed hsome hids ?_ hd
          exact fun deriv hderiv => hnames ▸ List.mem_map_of_mem hderiv
        · exact fun _ _ _ => trivial
      refine (((gather_busy hspell hdirect h₁ hids).and hgathered).mono (fun _ _ h' => h')
        fun _ h' => h'.1).bind ?_
      rintro _ w₂ ⟨h₂, hopen⟩
      have hplaced := place_opens hspell hdirect h₂.disk.onward.sound.wellFormed h₂.disk.opens hopen
      refine (((place_busy hspell hdirect .root h₂ fun rest => .root hnew rest).and hplaced).mono
        (fun _ _ h' => h') fun _ h' => h'.1).bind ?_
      rintro _ w₃ ⟨h₃, hopen₃⟩
      exact Work.Ends.pure ⟨⟨_, rfl, hopen₃⟩, h₃⟩

/-- A build leaves finished roots alone, however it ends. If it comes to its end there is a
root for it. -/
theorem realize_onward (hd : w.disk.Sound) {c : CompiledBuild} (hc : c.Sound)
    (hsome : c.derivations ≠ []) (path : String) (cancel : Cancellation) :
    (s.tool.realize ⟨c, path⟩ cancel).Ends w
      (fun root w' => (∃ ins, root = s.outputPath rootLabel ins ∧ w'.disk.Opens root) ∧
        Stands w (s.Onward w.disk) w')
      (Stands w (s.Onward w.disk)) := by
  have hleft : ∀ w', Stands w (s.Busy w.disk) w' → Stands w (s.Onward w.disk) w' :=
    fun w' h => ⟨h.disk.onward, h.memory⟩
  have hmade : s.Onward w.disk (FileStep.perform (.createDirectories s.directory) w.disk).1 :=
    (FileStep.perform_steady hd (.createDirectories s.directory)).mono (fun _ hl => Or.inl hl)
      fun _ hl => hl.elim
  have hstep : (Work.steps [.createDirectories s.directory]).Ends w
      (fun _ => Stands w (s.Busy w.disk)) (Stands w (s.Onward w.disk)) := by
    refine Work.Ends.step (fun d hperform => ?_) fun d fault hperform => ?_
    · rw [hperform] at hmade
      exact ⟨⟨hmade, FileStep.createDirectories_opens hd.wellFormed hperform⟩, rfl⟩
    · rw [hperform] at hmade
      exact ⟨hmade, rfl⟩
  have hids : ∀ deriv ∈ c.derivations, isIdentifier deriv.node = true :=
    fun deriv hderiv => (hc.derivations deriv hderiv).node
  refine hstep.bind fun _ w₁ h₁ => ?_
  refine ((realizeNodes_busy hspell hdirect cancel hids 0 h₁ []).mono_failed hleft).bind ?_
  rintro outputs w₂ ⟨hnames, h₂⟩
  refine (linkRoot_busy hspell hdirect h₂ hc hsome hnames).mono ?_ hleft
  rintro root w' ⟨hroot, h'⟩
  exact ⟨hroot, hleft w' h'⟩

end Gathering

end NodePipeline.LocalStore

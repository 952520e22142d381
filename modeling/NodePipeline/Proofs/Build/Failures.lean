import NodePipeline.Proofs.Build.Plan

/-!
# How builds can fail

The errors that work can end with, whatever the workspace is that it begins with. The
local store looks results up under the names of derivations that it has realised. As
long as derivations come after those that they depend on, every look finds a result,
and what a build fails with comes from the disk, from an artifact, from the body of a
node or from the token.
-/

namespace NodePipeline

namespace Work

variable {α β : Type} {m : Work α} {good : α → Prop} {fault : PipelineError → Prop}

/-- However it begins, work comes to a good result or to such an error. -/
def Gives (m : Work α) (good : α → Prop) (fault : PipelineError → Prop) : Prop :=
  ∀ w, match (m.run w).1 with
    | .ok a => good a
    | .error e => fault e

theorem Gives.of_ok (h : m.Gives good fault) {w w' : Workspace} {a : α}
    (hrun : m.run w = (.ok a, w')) : good a := by
  have := h w
  rwa [hrun] at this

theorem Gives.of_error (h : m.Gives good fault) {w : Workspace} {e : PipelineError}
    (hrun : (m.run w).1 = .error e) : fault e := by
  have := h w
  rwa [hrun] at this

theorem Gives.bind {f : α → Work β} {good' : β → Prop} (h : m.Gives good fault)
    (hf : ∀ a, good a → (f a).Gives good' fault) : (m >>= f).Gives good' fault := by
  intro w
  have hw := h w
  rw [run_bind]
  rcases hm : m.run w with ⟨result, w'⟩
  rw [hm] at hw
  cases result with
  | ok a => exact hf a hw w'
  | error e => exact hw

theorem Gives.mono {good' : α → Prop} (h : m.Gives good fault) (hgood : ∀ a, good a → good' a) :
    m.Gives good' fault := by
  intro w
  have hw := h w
  split at hw
  · exact hgood _ hw
  · exact hw

theorem gives_pure {a : α} (h : good a) : (Pure.pure a : Work α).Gives good fault := fun _ => h

theorem gives_ofExcept {r : Except PipelineError α} (hok : ∀ a, r = .ok a → good a)
    (herror : ∀ e, r = .error e → fault e) : (ofExcept r).Gives good fault := by
  intro w
  cases r with
  | ok a => exact hok a rfl
  | error e => exact herror e rfl

theorem gives_disk : Work.disk.Gives (fun _ => True) fault := fun _ => True.intro

theorem gives_modify {f : Workspace → Workspace} :
    (modify f : Work PUnit).Gives (fun _ => True) fault := fun _ => True.intro

theorem gives_onDisk {f : Disk → Disk × Except PipelineError α}
    (herror : ∀ d e, (f d).2 = .error e → fault e) : (onDisk f).Gives (fun _ => True) fault := by
  intro w
  show match (f w.disk).2 with
    | .ok _ => True
    | .error e => fault e
  cases hf : (f w.disk).2 with
  | ok a => exact True.intro
  | error e => exact herror _ e hf

-- What work gives is shown by the rules above, never by running it.
attribute [irreducible] Gives

end Work

/-! ## Errors of disks and artifacts -/

/-- Not a request that is refused. -/
def PipelineError.IsFailure (e : PipelineError) : Prop := ∀ reason, e ≠ .refused reason

theorem isFailure_of_deviceRun {device : Device} {list : List FileStep} {d : Disk}
    {e : PipelineError} (h : (device.run list d).2 = .error e) : e.IsFailure := by
  induction list generalizing d with
  | nil => cases h
  | cons step rest ih =>
      unfold Device.run at h
      split at h
      · cases h
        exact nofun
      · exact ih h

theorem isFailure_of_publish {p : Primitives} {device : Device} {v : Value} {path : String}
    {d : Disk} {e : PipelineError} (h : (v.publish p device path d).2 = .error e) :
    e.IsFailure := by
  unfold Value.publish at h
  split at h
  · cases h
    exact nofun
  · exact isFailure_of_deviceRun h

theorem isFailure_of_readValue {p : Primitives} {d : Disk} {path : String} {e : PipelineError}
    (h : d.readValue p path = .error e) : e.IsFailure := by
  unfold Disk.readValue at h
  split at h
  · cases h
    exact nofun
  · cases h
    exact nofun
  · split at h
    · cases h
    · cases h
      exact nofun

namespace LocalStore

variable {s : LocalStore} {outputs : Outputs} {d : Derivation}

/-! ## Errors of the local store -/

theorem isFailure_of_readInputs {disk : Disk} {deps : List String} {e : PipelineError}
    (h : s.readInputs disk outputs deps = .error e) : e.IsFailure := by
  induction deps with
  | nil => cases h
  | cons dep rest ih =>
      unfold readInputs at h
      split at h
      · next path hpath =>
          cases hread : disk.readValue s.primitives (Path.join path artifactFile) with
          | error e' =>
              rw [hread] at h
              cases h
              exact isFailure_of_readValue hread
          | ok value =>
              rw [hread] at h
              cases hrest : s.readInputs disk outputs rest with
              | error e' =>
                  rw [hrest] at h
                  cases h
                  exact ih hrest
              | ok env =>
                  rw [hrest] at h
                  cases h
      · exact ih h

theorem steps_gives (list : List FileStep) :
    (Work.steps list).Gives (fun _ => True) PipelineError.IsFailure :=
  Work.gives_onDisk fun _ _ => isFailure_of_deviceRun

theorem evaluate_gives (s : LocalStore) (d : Derivation) (env : Environment) :
    (s.evaluate d env).Gives (fun _ => True) PipelineError.IsFailure := by
  refine Work.gives_modify.bind fun _ _ => Work.gives_ofExcept (fun _ _ => True.intro) ?_
  intro e he
  split at he
  · cases he
  · cases he
    exact nofun

theorem compute_gives (s : LocalStore) (d : Derivation) (outputs : Outputs) (out : String) :
    (s.compute d outputs out).Gives (fun _ => True) PipelineError.IsFailure := by
  refine Work.gives_disk.bind fun disk _ => ?_
  refine (Work.gives_ofExcept (fun _ _ => True.intro) fun _ => isFailure_of_readInputs).bind ?_
  intro env _
  refine (s.evaluate_gives d env).bind fun value _ => ?_
  refine Work.gives_disk.bind fun disk' _ => (steps_gives _).bind fun _ _ => ?_
  exact (Work.gives_onDisk fun _ _ => isFailure_of_publish).bind fun _ _ => steps_gives _

/-- A derivation whose dependencies are there is not refused. -/
theorem realizeNode_gives (hdeps : ∀ dep ∈ d.dependencies, dep ∈ names outputs) :
    (s.realizeNode d outputs).Gives (fun _ => True) PipelineError.IsFailure := by
  unfold realizeNode
  rw [inputs_eq hdeps]
  refine (Work.gives_ofExcept (fun _ _ => True.intro) nofun).bind fun inputs _ => ?_
  refine Work.gives_disk.bind fun disk _ => ?_
  split
  · exact Work.gives_pure True.intro
  · exact (s.compute_gives d outputs _).bind fun _ _ => Work.gives_pure True.intro

/-- Derivations that are supplied all come to a result, or to an error that is none of the
order that they are in. -/
theorem realizeNodes_gives (cancel : Cancellation) (looks : Nat) {ds : List Derivation}
    (hsupplied : Supplied (names outputs) ds) :
    (s.realizeNodes cancel looks ds outputs).Gives
      (fun outputs' => names outputs' = names outputs ++ ds.map Derivation.node)
      PipelineError.IsFailure := by
  induction ds generalizing looks outputs with
  | nil => exact Work.gives_pure (by simp)
  | cons d rest ih =>
      obtain ⟨hdeps, hrest⟩ := hsupplied
      refine (Work.gives_ofExcept (fun _ _ => True.intro) fun e he => ?_).bind fun _ _ => ?_
      · unfold Cancellation.look at he
        split at he
        · cases he
          exact nofun
        · cases he
      · refine (realizeNode_gives hdeps).bind fun out _ => ?_
        have hnames : names (outputs ++ [(d.node, out)]) = names outputs ++ [d.node] :=
          names_append _ _
        refine (ih (looks + 1) (hnames ▸ hrest)).mono fun outputs' h => ?_
        rw [h, hnames, List.map_cons, List.append_assoc]
        rfl

theorem linkRoot_gives (s : LocalStore) (c : CompiledBuild) (outputs : Outputs) :
    (s.linkRoot c outputs).Gives (fun _ => True) PipelineError.IsFailure := by
  refine Work.gives_disk.bind fun disk _ => ?_
  split
  · exact Work.gives_pure True.intro
  · refine (steps_gives _).bind fun _ _ => (steps_gives _).bind fun _ _ => ?_
    exact (steps_gives _).bind fun _ _ => Work.gives_pure True.intro

/-- The local store carries out every build whose derivations are supplied. -/
theorem realize_gives {c : CompiledBuild} (hsupplied : Supplied [] c.derivations) (path : String)
    (cancel : Cancellation) :
    (s.tool.realize ⟨c, path⟩ cancel).Gives (fun _ => True) PipelineError.IsFailure := by
  have hnodes : Supplied (names []) c.derivations := hsupplied
  refine (steps_gives _).bind fun _ _ => ?_
  exact (realizeNodes_gives cancel 0 hnodes).bind fun outputs _ => s.linkRoot_gives c outputs

end LocalStore

end NodePipeline

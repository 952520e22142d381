import NodePipeline.Build.Tool

/-!
# How work ends

What holds of a workspace when work on it ends, with a result or with a failure.
The rules follow the way that work is put together.
-/

namespace NodePipeline.Work

variable {α β : Type} {m : Work α} {w : Workspace} {done : α → Workspace → Prop}
  {failed : Workspace → Prop}

/-- Work that begins with the workspace ends with a result and a workspace as in the
first condition, or fails and leaves a workspace as in the second one. -/
def Ends (m : Work α) (w : Workspace) (done : α → Workspace → Prop) (failed : Workspace → Prop) :
    Prop :=
  match m.run w with
  | (.ok a, w') => done a w'
  | (.error _, w') => failed w'

/-- Work comes to one of its ends. -/
theorem Ends.trivial (m : Work α) (w : Workspace) : m.Ends w (fun _ _ => True) fun _ => True := by
  unfold Ends
  split <;> exact True.intro

theorem Ends.of_ok (h : m.Ends w done failed) {a : α} {w' : Workspace}
    (hrun : m.run w = (.ok a, w')) : done a w' := by
  unfold Ends at h
  rwa [hrun] at h

theorem Ends.of_error (h : m.Ends w done failed) {e : PipelineError} {w' : Workspace}
    (hrun : m.run w = (.error e, w')) : failed w' := by
  unfold Ends at h
  rwa [hrun] at h

/-- What holds at either end holds of the workspace that is left. -/
theorem Ends.always {P : Workspace → Prop} (h : m.Ends w (fun _ w' => P w') P) : P (m.run w).2 := by
  unfold Ends at h
  split at h
  · next heq => rw [heq]; exact h
  · next heq => rw [heq]; exact h

theorem Ends.mono {done' : α → Workspace → Prop} {failed' : Workspace → Prop}
    (h : m.Ends w done failed) (hdone : ∀ a w', done a w' → done' a w')
    (hfailed : ∀ w', failed w' → failed' w') : m.Ends w done' failed' := by
  unfold Ends at h ⊢
  split at h
  · exact hdone _ _ h
  · exact hfailed _ h

theorem Ends.mono_done {done' : α → Workspace → Prop} (h : m.Ends w done failed)
    (hdone : ∀ a w', done a w' → done' a w') : m.Ends w done' failed :=
  h.mono hdone fun _ h => h

theorem Ends.mono_failed {failed' : Workspace → Prop} (h : m.Ends w done failed)
    (hfailed : ∀ w', failed w' → failed' w') : m.Ends w done failed' :=
  h.mono (fun _ _ h => h) hfailed

theorem run_bind (m : Work α) (f : α → Work β) (w : Workspace) :
    (m >>= f).run w =
      match m.run w with
      | (.ok a, w') => (f a).run w'
      | (.error e, w') => (.error e, w') := by
  unfold ExceptT.run
  simp only [bind, ExceptT.bind, ExceptT.mk, StateT.bind, ExceptT.bindCont]
  rcases m w with ⟨result, w'⟩
  cases result <;> rfl

theorem Ends.bind {f : α → Work β} {done' : β → Workspace → Prop} (h : m.Ends w done failed)
    (hf : ∀ a w', done a w' → (f a).Ends w' done' failed) : (m >>= f).Ends w done' failed := by
  unfold Ends at h
  show match (m >>= f).run w with
    | (.ok b, w') => done' b w'
    | (.error _, w') => failed w'
  rw [run_bind]
  rcases hm : m.run w with ⟨result, w'⟩
  rw [hm] at h
  cases result with
  | ok a => exact hf a w' h
  | error e => exact h

theorem Ends.pure {a : α} (h : done a w) : (Pure.pure a : Work α).Ends w done failed := h

theorem Ends.ofExcept {r : Except PipelineError α} (hok : ∀ a, r = .ok a → done a w)
    (herror : ∀ e, r = .error e → failed w) : (ofExcept r).Ends w done failed := by
  cases r with
  | ok a => exact hok a rfl
  | error e => exact herror e rfl

/-- Work goes on from a result that is there. -/
theorem Ends.ofExcept_bind {r : Except PipelineError α} {f : α → Work β}
    {done : β → Workspace → Prop} (hok : ∀ a, r = .ok a → (f a).Ends w done failed)
    (herror : failed w) : (Work.ofExcept r >>= f).Ends w done failed := by
  have hends : (Work.ofExcept r).Ends w (fun a w' => r = .ok a ∧ w = w') failed :=
    .ofExcept (fun _ ha => ⟨ha, rfl⟩) fun _ _ => herror
  refine hends.bind ?_
  rintro a _ ⟨ha, rfl⟩
  exact hok a ha

/-- Work goes on with the disk as it is. -/
theorem Ends.disk {next : Disk → Work β} {done : β → Workspace → Prop}
    (h : (next w.disk).Ends w done failed) : (Work.disk >>= next).Ends w done failed := h

theorem Ends.onDisk {f : Disk → Disk × Except PipelineError α}
    (hok : ∀ d a, f w.disk = (d, .ok a) → done a { w with disk := d })
    (herror : ∀ d e, f w.disk = (d, .error e) → failed { w with disk := d }) :
    (onDisk f).Ends w done failed := by
  show match ((f w.disk).2, { w with disk := (f w.disk).1 }) with
    | (.ok a, w') => done a w'
    | (.error _, w') => failed w'
  rcases hf : f w.disk with ⟨d, result⟩
  cases result with
  | ok a => exact hok d a hf
  | error e => exact herror d e hf

/-- Work goes on from the changed workspace. -/
theorem Ends.modify {f : Workspace → Workspace} {next : PUnit → Work β} {done : β → Workspace → Prop}
    (h : (next ⟨⟩).Ends (f w) done failed) : (modify f >>= next).Ends w done failed := h

theorem Ends.ofWorkspace {f : Workspace → Workspace × Except PipelineError α}
    (hok : ∀ w' a, f w = (w', .ok a) → done a w')
    (herror : ∀ w' e, f w = (w', .error e) → failed w') : (ofWorkspace f).Ends w done failed := by
  show match ((f w).2, (f w).1) with
    | (.ok a, w') => done a w'
    | (.error _, w') => failed w'
  rcases hf : f w with ⟨w', result⟩
  cases result with
  | ok a => exact hok w' a hf
  | error e => exact herror w' e hf

theorem Ends.steps {list : List FileStep} {done : Unit → Workspace → Prop}
    (hok : ∀ d, Device.run FileStep.perform list w.disk = (d, .ok ()) →
      done () { w with disk := d })
    (herror : ∀ d e, Device.run FileStep.perform list w.disk = (d, .error e) →
      failed { w with disk := d }) : (steps list).Ends w done failed :=
  Ends.onDisk (fun d _ h => hok d h) herror

theorem Ends.step {step : FileStep} {done : Unit → Workspace → Prop}
    (hok : ∀ d, step.perform w.disk = (d, none) → done () { w with disk := d })
    (herror : ∀ d fault, step.perform w.disk = (d, some fault) → failed { w with disk := d }) :
    (Work.steps [step]).Ends w done failed := by
  apply Ends.steps
  · intro d hrun
    simp only [Device.run] at hrun
    split at hrun
    · cases hrun
    · next hstep => cases hrun; exact hok d hstep
  · intro d e hrun
    simp only [Device.run] at hrun
    split at hrun
    · next fault hstep => cases hrun; exact herror d fault hstep
    · cases hrun

/-- What two accounts say of how work ends holds together. -/
theorem Ends.and {done' : α → Workspace → Prop} {failed' : Workspace → Prop}
    (h : m.Ends w done failed) (h' : m.Ends w done' failed') :
    m.Ends w (fun a w' => done a w' ∧ done' a w') (fun w' => failed w' ∧ failed' w') := by
  unfold Ends at h h' ⊢
  split at h
  · next heq => rw [heq] at h'; exact ⟨h, h'⟩
  · next heq => rw [heq] at h'; exact ⟨h, h'⟩

/-! ## What work returns -/

variable {r : Except PipelineError α} {P Q : Workspace → Prop}

/-- Work that begins with the workspace comes to that result, and leaves a workspace as in
the condition. -/
def Returns (m : Work α) (w : Workspace) (r : Except PipelineError α) (P : Workspace → Prop) :
    Prop :=
  ∃ w', m.run w = (r, w') ∧ P w'

/-- The results of parts of the work are put together as the parts are. -/
theorem Returns.bind {f : α → Work β} {g : α → Except PipelineError β}
    (h : m.Returns w r P) (hf : ∀ a w', r = .ok a → P w' → (f a).Returns w' (g a) Q)
    (herror : ∀ e w', r = .error e → P w' → Q w') :
    (m >>= f).Returns w (r >>= g) Q := by
  obtain ⟨w', hrun, hw'⟩ := h
  cases r with
  | ok a =>
      obtain ⟨w'', hrun', hw''⟩ := hf a w' rfl hw'
      exact ⟨w'', by rw [run_bind, hrun]; exact hrun', hw''⟩
  | error e => exact ⟨w', by rw [run_bind, hrun]; rfl, herror e w' rfl hw'⟩

/-- Work that goes well does not show in the result. -/
theorem Returns.bind_ok {f : α → Work β} {a : α} {q : Except PipelineError β}
    (h : m.Returns w (.ok a) P) (hf : ∀ w', P w' → (f a).Returns w' q Q) :
    (m >>= f).Returns w q Q :=
  Returns.bind (g := fun _ => q) h (fun _ w' ha hw' => Except.ok.inj ha ▸ hf w' hw')
    fun _ _ he => by cases he

theorem Returns.bind_error {f : α → Work β} {e : PipelineError}
    (h : m.Returns w (.error e) P) : (m >>= f).Returns w (.error e) P :=
  Returns.bind (g := fun _ => .error e) h (fun _ _ ha => by cases ha) fun _ _ _ hw' => hw'

theorem Returns.pure {a : α} (h : P w) : (Pure.pure a : Work α).Returns w (.ok a) P :=
  ⟨w, rfl, h⟩

theorem Returns.ofExcept (h : P w) : (ofExcept r).Returns w r P := ⟨w, rfl, h⟩

theorem Returns.disk {next : Disk → Work β} {q : Except PipelineError β}
    (h : (next w.disk).Returns w q P) : (Work.disk >>= next).Returns w q P := h

theorem Returns.modify {f : Workspace → Workspace} {next : PUnit → Work β}
    {q : Except PipelineError β} (h : (next ⟨⟩).Returns (f w) q P) :
    (modify f >>= next).Returns w q P := h

theorem Returns.onDisk {f : Disk → Disk × Except PipelineError α} {d : Disk}
    (h : f w.disk = (d, r)) (hP : P { w with disk := d }) :
    (Work.onDisk f).Returns w r P :=
  ⟨{ w with disk := d }, by
    show ((f w.disk).2, { w with disk := (f w.disk).1 }) = _
    rw [h], hP⟩

theorem Returns.steps {list : List FileStep} {d : Disk} {q : Except PipelineError Unit}
    (h : Device.run FileStep.perform list w.disk = (d, q)) (hP : P { w with disk := d }) :
    (Work.steps list).Returns w q P := Returns.onDisk h hP

/-- Work that returns a result has come to the first of its ends. -/
theorem Returns.and_ends (h : m.Returns w r P) (hends : m.Ends w done failed) :
    m.Returns w r fun w' => P w' ∧ ∀ a, r = .ok a → done a w' := by
  obtain ⟨w', hrun, hw'⟩ := h
  refine ⟨w', hrun, hw', ?_⟩
  rintro a rfl
  exact hends.of_ok hrun

-- How work ends is shown by the rules above, never by running it.
attribute [irreducible] Ends

end NodePipeline.Work

import NodePipeline.Proofs.Build.History

/-!
# Files of a build

The description of a build and the scripts of its nodes are written to a directory
of their own. If no result lies on the way to it, writing them leaves a store as it
was.
-/

namespace NodePipeline

open Disk

theorem isName_scriptName {node : String} (h : isIdentifier node = true) :
    Path.IsName (scriptName node) where
  nonempty := by simp [scriptName]
  noSlash := by simpa [scriptName] using (isName_of_isIdentifier h).noSlash
  notHere := by
    intro heq
    have := congrArg (fun name : String => name.toList.getLast?) heq
    simp [scriptName] at this
  notAbove := by
    intro heq
    have := congrArg (fun name : String => name.toList.getLast?) heq
    simp [scriptName] at this

namespace LocalStore

variable {s : LocalStore} {known : List String → Prop} {c : CompiledBuild} {config : BuildConfig}
  {w : Workspace}

theorem Spares.fileSteps (hspell : s.primitives.SpellsHashes) (hspare : s.Spares config.workDir)
    (hids : ∀ d ∈ c.derivations, isIdentifier d.node = true) {d : Disk} (hd : d.WellFormed) :
    Touched (fun l => ¬s.InResults l) d
      (Device.run FileStep.perform (c.fileSteps config) d).1 := by
  have hscripts : s.Spares config.scriptsDir :=
    hspare.join (by constructor <;> decide) fun label ins _ =>
      resultName_ne_of_short hspell (by decide) label ins
  refine Device.run_touched hd fun step hstep d' hd' => ?_
  unfold CompiledBuild.fileSteps at hstep
  simp only [List.cons_append, List.mem_cons, List.mem_append, List.mem_map, List.not_mem_nil,
    or_false] at hstep
  rcases hstep with rfl | ⟨deriv, hderiv, rfl⟩ | rfl
  · exact (FileStep.createDirectories_touched hd' _).mono fun l hl => hscripts l hl
  · refine (FileStep.write_touched hd' _ _).mono fun l hl => ?_
    have hjoin := hscripts.join (isName_scriptName (hids deriv hderiv)) fun label ins hlabel =>
      resultName_ne_of_dot hspell hlabel (by simp [scriptName]) ins
    exact hl ▸ hjoin.destination
  · refine (FileStep.write_touched hd' _ _).mono fun l hl => ?_
    have hjoin : s.Spares config.descriptionPath :=
      hspare.join (by constructor <;> decide) fun label ins hlabel =>
        resultName_ne_of_dot hspell hlabel (by decide) ins
    exact hl ▸ hjoin.destination

/-- Writing the files of a build leaves the store consistent, and shows that the names of
the nodes are allowed. -/
theorem fileSteps_ends (hspell : s.primitives.SpellsHashes) (hspare : s.Spares config.workDir)
    (hids : ∀ d ∈ c.derivations, isIdentifier d.node = true) (hcons : s.Consistent known w.disk) :
    (Work.steps (c.fileSteps config)).Ends w
      (fun _ w' => (∀ d ∈ c.derivations, isName d.node = true) ∧
        Stands w (fun d => s.Consistent known d ∧ s.Kept w.disk d) w')
      (Stands w (s.Consistent known)) := by
  have htouched : Touched (fun l => ¬s.InResults l) w.disk
      (Device.run FileStep.perform (c.fileSteps config) w.disk).1 :=
    hspare.fileSteps hspell hids hcons.wellFormed
  have hkeeps : ∀ d, Touched (fun l => ¬s.InResults l) w.disk d →
      s.Consistent known d ∧ s.Kept w.disk d := fun d hd =>
    ⟨hcons.touched hd fun _ hl => hl, kept_of_same fun l hl => hd.same l fun hnot => hnot hl⟩
  apply Work.Ends.steps
  · intro d hd
    rw [hd] at htouched
    refine ⟨fun deriv hderiv => ?_, hkeeps d htouched, rfl⟩
    have hmem : FileStep.write (Path.join config.scriptsDir (scriptName deriv.node))
        (Bytes.ofString deriv.script) ∈ c.fileSteps config := by
      simp only [CompiledBuild.fileSteps, List.cons_append, List.mem_cons, List.mem_append,
        List.mem_map]
      exact Or.inr (Or.inl ⟨deriv, hderiv, rfl⟩)
    obtain ⟨before, after, hstep⟩ := Device.run_ok_mem hd _ hmem
    rw [FileStep.perform_write] at hstep
    obtain ⟨l, hlocate, -⟩ := write_eq_ok (FileStep.settle_eq_none hstep)
    have hnamed := ((locate_join (isName_scriptName (hids deriv hderiv))).1 hlocate).2.1
    exact isName_of_append hnamed
  · intro d e hd
    rw [hd] at htouched
    exact ⟨(hkeeps d htouched).1, rfl⟩

end LocalStore

end NodePipeline

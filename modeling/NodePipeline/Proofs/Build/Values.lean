import NodePipeline.Proofs.Artifact.RoundTrip
import NodePipeline.Proofs.Build.History

/-!
# Values of results

An assignment gives every derivation the only value that its body can have over the
values of its dependencies. The bytes that belong to a planned result then store the
assigned value: what is read back of the dependencies is what was assigned to them.
-/

namespace NodePipeline

/-- What a derivation has if its dependencies do, all derivations have. -/
theorem Supplied.forall_mem {done : List String} {ds : List Derivation} (h : Supplied done ds)
    {P : String → Prop} (hdone : ∀ name ∈ done, P name)
    (hstep : ∀ d ∈ ds, (∀ dep ∈ d.dependencies, P dep) → P d.node) : ∀ d ∈ ds, P d.node := by
  induction ds generalizing done with
  | nil => simp
  | cons d rest ih =>
      obtain ⟨hdeps, hrest⟩ := h
      have hfirst : P d.node := hstep d List.mem_cons_self fun dep hdep => hdone dep (hdeps dep hdep)
      intro other hother
      rcases List.mem_cons.1 hother with rfl | hother
      · exact hfirst
      · refine ih hrest ?_ (fun d hd => hstep d (List.mem_cons_of_mem _ hd)) other hother
        intro name hname
        rcases List.mem_append.1 hname with hname | hname
        · exact hdone name hname
        · rw [List.mem_singleton.1 hname]
          exact hfirst

namespace LocalStore

variable {s : LocalStore} {known : List String → Prop} {c : CompiledBuild} {v : String → Value}

/-- The assignment fits the derivations: its values can be stored, and over those of its
dependencies no body has any value but its own. -/
structure Assigns (s : LocalStore) (c : CompiledBuild) (v : String → Value) : Prop where
  storable : ∀ d ∈ c.derivations, Value.Storable s.primitives (v d.node)
  evaluated : ∀ d ∈ c.derivations, ∀ u,
    s.evaluator.evaluate d.body (overlay .empty d.dependencies v) = .ok u → u = v d.node

/-- The path of a planned result is made of what its derivation depends on. -/
theorem pathIn_outputsOf (hsound : c.Sound) {d : Derivation} (hd : d ∈ c.derivations) :
    pathIn (s.outputsOf c) d.node
        = s.outputPath (nodeLabel d.node) (inputsOf (s.outputsOf c) d) ∧
      inputsOf (s.outputsOf c) d ∈ s.hashedBy c := by
  have hsupplied : Supplied (names []) c.derivations := hsound.supplied
  have hnodup : (names [] ++ c.derivations.map Derivation.node).Nodup := hsound.nodup
  obtain ⟨hpath, hasked⟩ := pathIn_planned (s := s) hsupplied hnodup d hd
  exact ⟨hpath, List.mem_cons_of_mem _ hasked⟩

/-- The bytes that belong to a planned result store the assigned value. -/
theorem Assigns.stored (h : s.Assigns c v) (hspell : s.primitives.SpellsHashes)
    (hdistinct : s.Distinct known) (hsound : c.Sound) (hknown : ∀ ins ∈ s.hashedBy c, known ins) :
    ∀ d ∈ c.derivations, ∀ bytes, s.Built known (pathIn (s.outputsOf c) d.node) bytes →
      (v d.node).toArtifact s.primitives = .ok bytes := by
  let P (name : String) : Prop := Value.Storable s.primitives (v name) ∧
    ∀ bytes, s.Built known (pathIn (s.outputsOf c) name) bytes →
      (v name).toArtifact s.primitives = .ok bytes
  have hall : ∀ d ∈ c.derivations, P d.node := by
    refine hsound.supplied.forall_mem (by simp) fun d hd hdeps => ⟨h.storable d hd, ?_⟩
    intro bytes hbuilt
    obtain ⟨hpath, hasked⟩ := pathIn_outputsOf (s := s) hsound hd
    have hd' := hsound.derivations d hd
    rw [inputsOf_eq hd'] at hpath hasked
    rw [hpath] at hbuilt
    obtain ⟨content, value, u, hbuilts, hread, hevaluated, hstored⟩ :=
      hbuilt.inv hspell hdistinct hd'.node hd'.dependencies (hknown _ hasked)
    -- What is read back of a dependency is what was assigned to it.
    have hvalue : ∀ dep ∈ d.dependencies, value dep = v dep := by
      intro dep hdep
      obtain ⟨hstorable, hbytes⟩ := hdeps dep hdep
      have hback := hstorable.ofArtifact_eq (hbytes _ (hbuilts dep hdep))
      rw [hread dep hdep] at hback
      split at hback
      · exact Except.ok.inj hback
      · cases hback
    rw [overlay_congr hvalue] at hevaluated
    rw [← h.evaluated d hd u hevaluated]
    exact hstored
  exact fun d hd => (hall d hd).2

end LocalStore

end NodePipeline

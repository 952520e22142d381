import NodePipeline.Proofs.Build.Built

/-!
# Consistent stores

In a consistent store every finished file of a node's result is what belongs to its
path, and every directory that gathers results holds what belongs to each of them.
Work on directories that are still being filled leaves a store consistent, and so
does putting such a directory in its place.
-/

namespace NodePipeline.LocalStore

open Disk

variable {s : LocalStore} {known more : List String → Prop} {d d' : Disk} {label : String}
  {ins : List String} {path : String} {bytes : Bytes}

def links (outputs : Outputs) : List String := outputs.map fun output => link output.1 output.2

/-- The finished results belong to their paths. -/
structure Consistent (s : LocalStore) (known : List String → Prop) (d : Disk) : Prop where
  wellFormed : d.WellFormed
  nodes : ∀ node ins bytes, isIdentifier node = true →
    d.at? (s.place (nodeLabel node) ins [artifactFile]) = some (.file bytes) →
    s.Built known (s.outputPath (nodeLabel node) ins) bytes
  roots : ∀ ins, d.at? (s.place rootLabel ins []) = some .directory →
    ∃ outputs, known (links outputs) ∧ s.digest ins = s.digest (links outputs) ∧
      ∀ output ∈ outputs, isIdentifier output.1 = true ∧ ∃ bytes,
        s.Built known output.2 bytes ∧
        d.at? (s.place rootLabel ins [output.1, artifactFile]) = some (.file bytes)

/-- A consistent store whose directory can be reached. -/
structure Ready (s : LocalStore) (known : List String → Prop) (d : Disk) : Prop
    extends Consistent s known d where
  opens : d.Opens s.directory

/-- What lies in the results stays. -/
def Kept (s : LocalStore) (d d' : Disk) : Prop :=
  ∀ label ins rest bytes, IsLabel label → rest ≠ [] →
    d.at? (s.place label ins rest) = some (.file bytes) →
    d'.at? (s.place label ins rest) = some (.file bytes)

/-- The finished result of a node at a path. -/
def Holds (s : LocalStore) (d : Disk) (path : String) (bytes : Bytes) : Prop :=
  ∃ node ins, isIdentifier node = true ∧ path = s.outputPath (nodeLabel node) ins ∧
    d.at? (s.place (nodeLabel node) ins [artifactFile]) = some (.file bytes)

theorem Kept.refl (s : LocalStore) (d : Disk) : s.Kept d d := fun _ _ _ _ _ _ h => h

theorem Kept.trans {d'' : Disk} (h : s.Kept d d') (h' : s.Kept d' d'') : s.Kept d d'' :=
  fun label ins rest bytes hlabel hrest hat =>
    h' label ins rest bytes hlabel hrest (h label ins rest bytes hlabel hrest hat)

theorem Holds.kept (h : s.Holds d path bytes) (hkept : s.Kept d d') : s.Holds d' path bytes := by
  obtain ⟨node, ins, hnode, rfl, hat⟩ := h
  exact ⟨node, ins, hnode, rfl, hkept _ _ _ _ (.node hnode) (by simp) hat⟩

theorem Consistent.built (h : s.Consistent known d) (hholds : s.Holds d path bytes) :
    s.Built known path bytes := by
  obtain ⟨node, ins, hnode, rfl, hat⟩ := hholds
  exact h.nodes node ins bytes hnode hat

theorem inResults_place (hlabel : IsLabel label) (ins : List String) (rest : Location) :
    s.InResults (s.place label ins rest) := ⟨label, ins, rest, hlabel, rfl⟩

theorem Consistent.mono (h : s.Consistent known d) (hsub : ∀ ins, known ins → more ins) :
    s.Consistent more d where
  wellFormed := h.wellFormed
  nodes node ins bytes hnode hat := (h.nodes node ins bytes hnode hat).mono hsub
  roots ins hdir := by
    obtain ⟨outputs, hknown, hdigest, hall⟩ := h.roots ins hdir
    refine ⟨outputs, hsub _ hknown, hdigest, fun output houtput => ?_⟩
    obtain ⟨hid, bytes, hbuilt, hat⟩ := hall output houtput
    exact ⟨hid, bytes, hbuilt.mono hsub, hat⟩

/-- Only what is in the results matters. -/
theorem Consistent.of_same (h : s.Consistent known d) (hwell : d'.WellFormed)
    (hsame : ∀ l, s.InResults l → d'.at? l = d.at? l) : s.Consistent known d' where
  wellFormed := hwell
  nodes node ins bytes hnode hat := by
    rw [hsame _ (inResults_place (.node hnode) ins _)] at hat
    exact h.nodes node ins bytes hnode hat
  roots ins hdir := by
    rw [hsame _ (inResults_place .root ins _)] at hdir
    obtain ⟨outputs, hknown, hdigest, hall⟩ := h.roots ins hdir
    refine ⟨outputs, hknown, hdigest, fun output houtput => ?_⟩
    obtain ⟨hid, bytes, hbuilt, hat⟩ := hall output houtput
    exact ⟨hid, bytes, hbuilt, (hsame _ (inResults_place .root ins _)).trans hat⟩

/-- A store in which there are no results. -/
def Vacant (s : LocalStore) (d : Disk) : Prop := ∀ l, s.InResults l → d.at? l = none

theorem Vacant.consistent (h : s.Vacant d) (hwell : d.WellFormed) (known : List String → Prop) :
    s.Consistent known d where
  wellFormed := hwell
  nodes node ins bytes hnode hat := by
    rw [h _ (inResults_place (.node hnode) ins _)] at hat
    cases hat
  roots ins hdir := by
    rw [h _ (inResults_place .root ins _)] at hdir
    cases hdir

/-! ## Work outside the results -/

theorem Consistent.touched {changes : Location → Prop} (h : s.Consistent known d)
    (ht : Touched changes d d') (hspare : ∀ l, changes l → ¬s.InResults l) :
    s.Consistent known d' :=
  h.of_same ht.wellFormed fun l hl => ht.same l fun hc => hspare l hc hl

theorem Ready.touched {changes : Location → Prop} (h : s.Ready known d)
    (ht : Touched changes d d') (hspare : ∀ l, changes l → ¬s.InResults l) : s.Ready known d' where
  toConsistent := h.toConsistent.touched ht hspare
  opens := ht.opens h.opens

theorem kept_of_same (hsame : ∀ l, s.InResults l → d'.at? l = d.at? l) : s.Kept d d' :=
  fun _ ins _ _ hlabel _ hat => (hsame _ (inResults_place hlabel ins _)).trans hat

/-! ## Directories that are being filled -/

theorem staging_apart (hspell : s.primitives.SpellsHashes) {l : Location}
    (hl : s.InResults l) (label : String) (ins : List String) :
    ¬s.stagingPlace label ins [] <+: l := by
  obtain ⟨label', ins', rest', hlabel', rfl⟩ := hl
  unfold stagingPlace
  rw [List.prefix_append_right_inj, List.cons_prefix_cons]
  rintro ⟨heq, -⟩
  exact resultName_ne_of_dot hspell hlabel' (s.dot_mem_stagingName label ins) ins' heq

theorem Direct.staging_apart (hdirect : s.Direct) (label : String) (ins : List String) :
    ∀ stop ∈ stopsOf s.directory, ¬s.stagingPlace label ins [] <+: stop := by
  rintro stop hstop ⟨rest, rfl⟩
  refine hdirect.not_below (s.stagingName label ins) rest ?_
  simpa [stagingPlace] using hstop

/-- What changes only in a directory that is being filled leaves the store ready. -/
theorem Ready.filling (h : s.Ready known d) (hspell : s.primitives.SpellsHashes)
    (hdirect : s.Direct) (hwell : d'.WellFormed)
    (hsame : ∀ l, ¬s.stagingPlace label ins [] <+: l → d'.at? l = d.at? l) :
    s.Ready known d' ∧ s.Kept d d' := by
  have hresults : ∀ l, s.InResults l → d'.at? l = d.at? l :=
    fun l hl => hsame l (staging_apart hspell hl label ins)
  refine ⟨⟨h.toConsistent.of_same hwell hresults, h.opens.mono fun stop hstop hdir => ?_⟩,
    kept_of_same hresults⟩
  rw [hsame stop (hdirect.staging_apart label ins stop hstop), hdir]

/-- Making the way into a directory that is being filled changes nothing outside of it. -/
theorem createDirectories_filling (hopen : d.Opens s.directory) {target : String}
    (hstops : ∀ stop ∈ stopsOf target, stop ∈ stopsOf s.directory ∨
      s.stagingPlace label ins [] <+: stop) (hwell : d.WellFormed) (l : Location)
    (hl : ¬s.stagingPlace label ins [] <+: l) :
    (FileStep.perform (.createDirectories target) d).1.at? l = d.at? l := by
  have ht := FileStep.createDirectories_touched hwell target
  by_cases hmem : l ∈ stopsOf target
  · rcases hstops l hmem with hstop | hbelow
    · rw [hopen.stops l hstop, ht.directories l (hopen.stops l hstop)]
    · exact absurd hbelow hl
  · exact ht.same l hmem

end NodePipeline.LocalStore

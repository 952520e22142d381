import NodePipeline.Expr.Language
import NodePipeline.Proofs.Build.AllOrNothing
import NodePipeline.Proofs.Build.Answers
import NodePipeline.Proofs.Build.Recorded
import NodePipeline.Proofs.Build.Values
import NodePipeline.Proofs.Value.Identity

/-!
# Warm and cold stores

A store that has been built in before, with whatever success, answers as an empty one
does, and what it gathers has the same bytes. Both answers are what the derivations
say, and both contents are what belongs to the paths.
-/

namespace NodePipeline

namespace LocalStore

open Disk

variable {s : LocalStore} {known : List String → Prop} {asked : List (List String)} {d : Disk}
  {p : Pipeline} {config : BuildConfig} {c : CompiledBuild} {w w' w₀ w₀' : Workspace}

/-! ## Stores through their history -/

/-- A store with nothing in its directory, which is there or can be made. -/
structure Empty (s : LocalStore) (d : Disk) : Prop where
  wellFormed : d.WellFormed
  vacant : ∀ name rest, d.at? (destination s.directory ++ name :: rest) = none
  reachable : ∃ d', FileStep.perform (.createDirectories s.directory) d = (d', none)

/-- A store that was empty once and in which only its own tool has worked since, with the
inputs of all results that it has been asked for. Builds of compiled pipelines may have
succeeded, failed or been cancelled, or ended in the middle of a directory. -/
inductive Warm (s : LocalStore) : List (List String) → Disk → Prop
  | empty {d : Disk} (empty : s.Empty d) : Warm s [] d
  | realised {asked : List (List String)} {w : Workspace} (before : Warm s asked w.disk)
      {p : Pipeline} {config : BuildConfig} {c : CompiledBuild}
      (wellFormed : p.skeleton.WellFormed) (compiled : p.compile config = .ok c) (path : String)
      (cancel : Cancellation) :
      Warm s (asked ++ s.hashedBy c) ((s.tool.realize ⟨c, path⟩ cancel).run w).2.disk
  /-- A call that ended while it filled a directory, and left there what it had filled. -/
  | left {asked : List (List String)} {d d' : Disk} (before : Warm s asked d)
      (opens : d.Opens s.directory) {label : String} {ins : List String}
      (filling : s.Filling label ins d d') : Warm s asked d'
  /-- Work on files elsewhere, also on those that lead to the store. -/
  | elsewhere {asked : List (List String)} {d d' : Disk} (before : Warm s asked d)
      (wellFormed : d'.WellFormed)
      (same : ∀ name rest, d'.at? (destination s.directory ++ name :: rest)
        = d.at? (destination s.directory ++ name :: rest))
      (reachable : ∃ d'', FileStep.perform (.createDirectories s.directory) d' = (d'', none)) :
      Warm s asked d'

/-- What holds of a warm store before and after every build. -/
structure Sane (s : LocalStore) (known : List String → Prop) (d : Disk) : Prop where
  consistent : s.Consistent known d
  orderly : s.Orderly d
  reachable : ∃ d', FileStep.perform (.createDirectories s.directory) d = (d', none)

theorem Sane.mono {more : List String → Prop} (h : s.Sane known d)
    (hsub : ∀ ins, known ins → more ins) : s.Sane more d :=
  ⟨h.consistent.mono hsub, h.orderly, h.reachable⟩

theorem Empty.sane (h : s.Empty d) (known : List String → Prop) : s.Sane known d where
  consistent := by
    refine Vacant.consistent (fun l hl => ?_) h.wellFormed known
    obtain ⟨label, ins, rest, -, rfl⟩ := hl
    exact h.vacant _ rest
  orderly := by
    constructor
    · intro label ins bytes _ hat
      rw [stagingPlace, h.vacant] at hat
      cases hat
    · intro label ins _ hat
      exact absurd (h.vacant _ _) hat
    · intro node ins _ hat
      exact absurd (h.vacant _ _) hat
    · intro ins bytes hat
      rw [place, h.vacant] at hat
      cases hat
  reachable := h.reachable

section Builds

variable (hspell : s.primitives.SpellsHashes) (hdirect : s.Direct)

include hspell hdirect

theorem Sane.realize_returns (h : s.Sane known w.disk) (hdistinct : s.Distinct known)
    {content : String → Bytes} (hcontent : s.Contains known content)
    (hp : p.skeleton.WellFormed) (hcompile : p.compile config = .ok c)
    (hknown : ∀ ins ∈ s.hashedBy c, known ins) (path : String) (cancel : Cancellation) :
    (s.tool.realize ⟨c, path⟩ cancel).Returns w (s.realized content c cancel)
      (s.Tidy ·.disk) :=
  LocalStore.realize_returns hspell hdirect hdistinct hcontent (sound_of_compile hp hcompile)
    (derivations_ne_nil hp hcompile) hknown path cancel h.consistent h.orderly h.reachable

/-- A build leaves the store as good as it was, however it ends, and its directory is there. -/
theorem Sane.after_realize (h : s.Sane known w.disk) (hdistinct : s.Distinct known)
    (hp : p.skeleton.WellFormed) (hcompile : p.compile config = .ok c)
    (hknown : ∀ ins ∈ s.hashedBy c, known ins) (path : String) (cancel : Cancellation) :
    s.Sane known ((s.tool.realize ⟨c, path⟩ cancel).run w).2.disk ∧
      ((s.tool.realize ⟨c, path⟩ cancel).run w).2.disk.Opens s.directory := by
  obtain ⟨content, hcontent⟩ := hdistinct.exists_contents hspell
  obtain ⟨w', hrun, htidy⟩ := h.realize_returns hspell hdirect hdistinct hcontent hp hcompile
    hknown path cancel
  have hends := realize_ends hspell hdirect hdistinct (sound_of_compile hp hcompile) hknown path
    cancel h.consistent
  have hcons : s.Consistent known ((s.tool.realize ⟨c, path⟩ cancel).run w).2.disk := by
    refine Work.Ends.always (P := fun w' => s.Consistent known w'.disk) (hends.mono ?_ ?_)
    · exact fun _ _ h => h.2.disk.ready.toConsistent
    · exact fun _ h => h.disk
  rw [hrun] at hcons ⊢
  exact ⟨⟨hcons, htidy.toOrderly, w'.disk, FileStep.createDirectories_of_opens htidy.opens⟩,
    htidy.opens⟩

/-- What has been filled lies in a staging directory, where no results are. -/
theorem Sane.after_filling {d' : Disk} {label : String} {ins : List String} (h : s.Sane known d)
    (hopens : d.Opens s.directory) (hfilling : s.Filling label ins d d') : s.Sane known d' where
  consistent := h.consistent.of_same hfilling.wellFormed fun l hl =>
    hfilling.same l (staging_apart hspell hl label ins)
  orderly := hfilling.orderly hspell h.orderly
  reachable := ⟨d', FileStep.createDirectories_of_opens (hfilling.opens hdirect hopens)⟩

theorem Warm.sane (h : s.Warm asked d) (hdistinct : s.Distinct (· ∈ asked)) :
    s.Sane (· ∈ asked) d := by
  induction h with
  | empty hempty => exact hempty.sane _
  | realised _ hp hcompile path cancel ih =>
      have hsane := ih (hdistinct.mono fun _ => List.mem_append_left _)
      exact ((hsane.mono fun _ => List.mem_append_left _).after_realize hspell hdirect hdistinct hp
        hcompile (fun _ => List.mem_append_right _) path cancel).1
  | left _ hopens hfilling ih => exact (ih hdistinct).after_filling hspell hdirect hopens hfilling
  | elsewhere _ hwell hsame hreachable ih =>
      obtain ⟨hcons, hord, -⟩ := ih hdistinct
      refine ⟨hcons.of_same hwell ?_, hord.of_same hsame, hreachable⟩
      rintro l ⟨label, ins, rest, -, rfl⟩
      exact hsame _ rest

/-- The bytes that a build has gathered for its nodes are those that belong to their paths. -/
theorem Sane.read_artifact (h : s.Sane known w.disk) (hdistinct : s.Distinct known)
    {content : String → Bytes} (hcontent : s.Contains known content)
    (hp : p.skeleton.WellFormed) (hcompile : p.compile config = .ok c)
    (hknown : ∀ ins ∈ s.hashedBy c, known ins) {path : String} {cancel : Cancellation}
    {root node : String} (hrun : (s.tool.realize ⟨c, path⟩ cancel).run w = (.ok root, w'))
    (hnode : node ∈ c.nodes) :
    w'.disk.read (Path.join (Path.join root node) artifactFile)
      = .ok (content (pathIn (s.outputsOf c) node)) := by
  have hsound := sound_of_compile hp hcompile
  obtain ⟨w'', hrun', -⟩ := h.realize_returns hspell hdirect hdistinct hcontent hp hcompile hknown
    path cancel
  obtain ⟨hroot, -⟩ := Prod.ext_iff.1 (hrun'.symm.trans hrun)
  obtain ⟨outputs, hanswers, -⟩ := bind_eq_ok.1 hroot
  obtain ⟨rfl, hgathers, -⟩ :=
    (realize_ends hspell hdirect hdistinct hsound hknown path cancel h.consistent).of_ok hrun
  obtain ⟨deriv, hderiv, rfl⟩ := List.mem_map.1 hnode
  have hnames : deriv.node ∈ names (s.outputsOf c) := by
    rw [outputsOf, names_planned]
    exact List.mem_append_right _ hnode
  obtain ⟨bytes, hbuilt, hread⟩ := hgathers.read hspell (output?_of_mem_names hnames).2
    (isName_of_isIdentifier (hsound.derivations deriv hderiv).node)
    (isName_of_answers hanswers deriv hderiv)
  rw [hcontent _ _ hbuilt]
  exact hread

end Builds

/-- **A warm store agrees with an empty one.** A build returns the same root or fails with the
same error, wherever builds have been before; and what it has gathered has the same bytes. -/
theorem warm_store_agrees_with_empty (hspell : s.primitives.SpellsHashes) (hdirect : s.Direct)
    (hp : p.skeleton.WellFormed) (hcompile : p.compile config = .ok c)
    (hwarm : s.Warm asked w.disk) (hempty : s.Empty w₀.disk)
    (hdistinct : s.Distinct (· ∈ asked ++ s.hashedBy c)) (path : String) (cancel : Cancellation) :
    ((s.tool.realize ⟨c, path⟩ cancel).run w).1 = ((s.tool.realize ⟨c, path⟩ cancel).run w₀).1 ∧
      ∀ root w' w₀', (s.tool.realize ⟨c, path⟩ cancel).run w = (.ok root, w') →
        (s.tool.realize ⟨c, path⟩ cancel).run w₀ = (.ok root, w₀') →
        ∀ node ∈ c.nodes, ∃ bytes,
          w'.disk.read (Path.join (Path.join root node) artifactFile) = .ok bytes ∧
          w₀'.disk.read (Path.join (Path.join root node) artifactFile) = .ok bytes := by
  have hold : ∀ ins, ins ∈ asked → ins ∈ asked ++ s.hashedBy c := fun ins => List.mem_append_left _
  have hknown : ∀ ins ∈ s.hashedBy c, ins ∈ asked ++ s.hashedBy c :=
    fun ins => List.mem_append_right asked
  have hsane := (hwarm.sane hspell hdirect (hdistinct.mono hold)).mono hold
  have hsane₀ := hempty.sane (· ∈ asked ++ s.hashedBy c)
  obtain ⟨content, hcontent⟩ := hdistinct.exists_contents hspell
  obtain ⟨w₁, hrun, -⟩ := hsane.realize_returns hspell hdirect hdistinct hcontent hp hcompile
    hknown path cancel
  obtain ⟨w₂, hrun₀, -⟩ := hsane₀.realize_returns hspell hdirect hdistinct hcontent hp hcompile
    hknown path cancel
  refine ⟨by rw [hrun, hrun₀], fun root w' w₀' hroot hroot₀ node hnode => ?_⟩
  refine ⟨content (pathIn (s.outputsOf c) node), ?_, ?_⟩
  · exact hsane.read_artifact hspell hdirect hdistinct hcontent hp hcompile hknown hroot hnode
  · exact hsane₀.read_artifact hspell hdirect hdistinct hcontent hp hcompile hknown hroot₀ hnode

/-! ## Builds that succeed -/

/-- Values that the bodies have over one another, that are read back from what they are stored
as, and for nodes whose names are short enough. -/
structure Solution (s : LocalStore) (c : CompiledBuild) (v : String → Value) : Prop where
  evaluated : ∀ d ∈ c.derivations,
    s.evaluator.evaluate d.body (overlay .empty d.dependencies v) = .ok (v d.node)
  kept : ∀ d ∈ c.derivations, ∃ bytes, (v d.node).toArtifact s.primitives = .ok bytes ∧
    Value.ofArtifact s.primitives bytes = .ok (v d.node)
  short : ∀ d ∈ c.derivations, (nodeLabel d.node).toList.length ≤ 218

section Solution

variable {content : String → Bytes} {v : String → Value} (hsolution : s.Solution c v)

include hsolution

/-- What belongs to the path of a node stores its value. -/
theorem Solution.contents (hcontent : s.Contains known content) (hsound : c.Sound)
    (hknown : ∀ ins ∈ s.hashedBy c, known ins) :
    ∀ d ∈ c.derivations,
      Value.ofArtifact s.primitives (content (pathIn (s.outputsOf c) d.node)) = .ok (v d.node) := by
  let P (name : String) : Prop :=
    s.Built known (pathIn (s.outputsOf c) name) (content (pathIn (s.outputsOf c) name)) ∧
      Value.ofArtifact s.primitives (content (pathIn (s.outputsOf c) name)) = .ok (v name)
  have hall : ∀ d ∈ c.derivations, P d.node := by
    refine hsound.supplied.forall_mem (by simp) fun d hd hdeps => ?_
    obtain ⟨hpath, hasked⟩ := pathIn_outputsOf (s := s) hsound hd
    have hd' := hsound.derivations d hd
    obtain ⟨bytes, hstored, hback⟩ := hsolution.kept d hd
    rw [inputsOf_eq hd'] at hpath hasked
    have hbuilt : s.Built known (pathIn (s.outputsOf c) d.node) bytes := by
      rw [hpath]
      exact .intro hd'.node hd'.dependencies (hknown _ hasked) (fun dep hdep => (hdeps dep hdep).1)
        (fun dep hdep => (hdeps dep hdep).2) (hsolution.evaluated d hd) hstored
    show s.Built known _ _ ∧ _
    rw [hcontent _ _ hbuilt]
    exact ⟨hbuilt, hback⟩
  exact fun d hd => (hall d hd).2

variable (hspell : s.primitives.SpellsHashes)

include hspell

theorem Solution.answer {d : Derivation} {outputs : Outputs} (hd : d ∈ c.derivations)
    (hdeps : ∀ dep ∈ d.dependencies, dep ∈ names outputs)
    (hvalue : ∀ dep ∈ d.dependencies,
      Value.ofArtifact s.primitives (content (pathIn outputs dep)) = .ok (v dep))
    (hnode : isIdentifier d.node = true) : s.answer content outputs d = .ok () := by
  obtain ⟨bytes, hstored, -⟩ := hsolution.kept d hd
  have hname := isName_stagingName_of_short hspell (.node hnode) (hsolution.short d hd)
    (inputsOf outputs d)
  unfold LocalStore.answer LocalStore.evaluated storable
  simp only [environment_eq_ok hdeps hvalue, bind, Except.bind, hsolution.evaluated d hd, hstored,
    hname, if_true]

/-- The answers are the outputs that are planned. -/
theorem Solution.answers (hsound : c.Sound) {ds : List Derivation} {outputs : Outputs}
    (hplanned : s.planned outputs ds = s.outputsOf c) (hds : ∀ d ∈ ds, d ∈ c.derivations)
    (hsupplied : Supplied (names outputs) ds)
    (hcontents : ∀ d ∈ c.derivations,
      Value.ofArtifact s.primitives (content (pathIn (s.outputsOf c) d.node)) = .ok (v d.node))
    (looks : Nat) : s.answers content .never looks ds outputs = .ok (s.outputsOf c) := by
  induction ds generalizing outputs looks with
  | nil => exact congrArg Except.ok hplanned
  | cons d rest ih =>
      obtain ⟨hdeps, hrest⟩ := hsupplied
      obtain ⟨hd, hds⟩ := List.forall_mem_cons.1 hds
      have hvalue : ∀ dep ∈ d.dependencies,
          Value.ofArtifact s.primitives (content (pathIn outputs dep)) = .ok (v dep) := by
        intro dep hdep
        have hnames : dep ∈ names (s.outputsOf c) := by
          rw [← hplanned, names_planned]
          exact List.mem_append_left _ (hdeps dep hdep)
        rw [outputsOf, names_planned] at hnames
        obtain ⟨d', hd', rfl⟩ := List.mem_map.1 (by simpa [names] using hnames)
        have hpath : pathIn (s.planned outputs (d :: rest)) d'.node = pathIn outputs d'.node :=
          pathIn_planned_of_mem (hdeps _ hdep)
        rw [← hpath, hplanned]
        exact hcontents d' hd'
      have hanswer : s.answer content outputs d = .ok () :=
        hsolution.answer hspell hd hdeps hvalue (hsound.derivations d hd).node
      have hnames : names (outputs ++ [s.outputOf outputs d]) = names outputs ++ [d.node] :=
        names_append _ _
      have hlook : Cancellation.never.look looks = .ok () := rfl
      rw [LocalStore.answers, hlook]
      simp only [bind, Except.bind, hanswer]
      exact ih hplanned hds (hnames ▸ hrest) (looks + 1)

/-- **Builds with values succeed.** The root is named by the links to all planned results. -/
theorem Solution.realized (hcontent : s.Contains known content) (hsound : c.Sound)
    (hknown : ∀ ins ∈ s.hashedBy c, known ins) :
    s.realized content c .never = .ok (s.outputPath rootLabel (links (s.outputsOf c))) := by
  have hanswers := hsolution.answers hspell hsound rfl (fun _ hd => hd) hsound.supplied
    (hsolution.contents hcontent hsound hknown) 0
  unfold LocalStore.realized
  rw [hanswers]
  rfl

end Solution

theorem distinct_of_nodup {inputs : List (List String)} (h : (inputs.map s.digest).Nodup) :
    s.Distinct (· ∈ inputs) := fun _ _ hfirst hsecond => List.inj_on_of_nodup_map h hfirst hsecond

end LocalStore

/-! ## A store of two nodes -/

/-- A pipeline of two nodes, of which the first reads the second. -/
def layered : Pipeline :=
  ⟨[⟨"b", ⟨"a + 1"⟩, ["a"], [], .int 2, none⟩, ⟨"a", ⟨"1"⟩, [], [], .int 1, none⟩]⟩

theorem wellFormed_layered : layered.skeleton.WellFormed := by
  have hnodes : ∀ node ∈ layered.skeleton.nodes,
      node = ⟨"b", ⟨"a + 1"⟩, ["a"]⟩ ∨ node = ⟨"a", ⟨"1"⟩, []⟩ := by
    simp [layered, Pipeline.skeleton]
  constructor
  · simp [layered, Pipeline.skeleton]
  · decide
  · decide
  · intro node hnode
    rcases hnodes node hnode with rfl | rfl
    · exact .cons _ (List.Sublist.refl ["a"])
    · exact List.nil_sublist _
  · intro node hnode
    rcases hnodes node hnode with rfl | rfl
    · decide
    · decide

/-- The node that is read is built first. -/
def layeredDerivations : List Derivation :=
  [derivationOf .default ⟨"a", ⟨"1"⟩, []⟩, derivationOf .default ⟨"b", ⟨"a + 1"⟩, ["a"]⟩]

theorem compile_layered :
    ∃ c, layered.compile .default = .ok c ∧ c.derivations = layeredDerivations := by
  have hok : (layered.compile .default).isOk = true := by decide +kernel
  have horder : layered.skeleton.order = [⟨"a", ⟨"1"⟩, []⟩, ⟨"b", ⟨"a + 1"⟩, ["a"]⟩] := by
    decide +kernel
  cases hcompile : layered.compile .default with
  | error e => rw [hcompile] at hok; cases hok
  | ok c =>
      refine ⟨c, rfl, ?_⟩
      rw [(compile_eq_ok hcompile).2, horder]
      rfl

namespace LocalStore

open Disk

variable {c : CompiledBuild}

def layeredStore : LocalStore := ⟨.standard, Expr.evaluator 8, "store"⟩

theorem direct_layeredStore : layeredStore.Direct := by
  have hall : ∀ stop ∈ stopsOf "store", destination "store" <+: stop → stop = destination "store" := by
    decide +kernel
  exact hall

theorem empty_layeredStore : layeredStore.Empty .empty where
  wellFormed := wellFormed_empty
  vacant name rest := by
    have hdest : destination layeredStore.directory = ["store"] := by decide +kernel
    rw [hdest, at?_of_not_isTop (by simp [isTop])]
    rfl
  reachable := by
    have hmade : (FileStep.perform (.createDirectories layeredStore.directory) .empty).2 = none := by
      decide +kernel
    exact ⟨_, Prod.ext rfl hmade⟩

theorem distinct_layered (hc : c.derivations = layeredDerivations) :
    layeredStore.Distinct (· ∈ layeredStore.hashedBy c) := by
  apply distinct_of_nodup
  rw [hashedBy, hc, layeredStore, Primitives.standard_eq_byLists]
  decide +kernel

theorem solution_layered (hc : c.derivations = layeredDerivations) :
    layeredStore.Solution c fun name => if name = "a" then .int 1 else .int 2 := by
  have hall : ∀ d ∈ c.derivations, d = derivationOf .default ⟨"a", ⟨"1"⟩, []⟩ ∨
      d = derivationOf .default ⟨"b", ⟨"a + 1"⟩, ["a"]⟩ := by
    simp [hc, layeredDerivations]
  constructor
  · intro d hd
    rcases hall d hd with rfl | rfl
    · decide +kernel
    · decide +kernel
  · intro d hd
    rcases hall d hd with rfl | rfl
    · exact ⟨_, rfl, by decide +kernel⟩
    · exact ⟨_, rfl, by decide +kernel⟩
  · intro d hd
    rcases hall d hd with rfl | rfl
    · decide
    · decide

/-- A build that is cancelled, a call that ends while it fills a directory, and a build that
comes to its end: after these a build returns what it returns in an empty store, and has gathered
the same bytes. -/
theorem later_build_agrees_with_first : ∃ c, layered.compile .default = .ok c ∧
    let build := fun cancel => layeredStore.tool.realize ⟨c, "pipeline.nix"⟩ cancel
    let cancelled := ((build (.ofToken ⟨some "stopped"⟩)).run .empty).2
    let staging := layeredStore.stagingPath (nodeLabel "a") [script "a" [] ⟨"1"⟩]
    let left := (Device.run FileStep.perform (publishSteps (Path.join staging artifactFile) [0])
      cancelled.disk).1
    let built := ((build .never).run { cancelled with disk := left }).2
    ∃ root again first, (build .never).run built = (.ok root, again) ∧
      (build .never).run .empty = (.ok root, first) ∧
      ∀ node ∈ ["a", "b"], ∃ bytes,
        again.disk.read (Path.join (Path.join root node) artifactFile) = .ok bytes ∧
        first.disk.read (Path.join (Path.join root node) artifactFile) = .ok bytes := by
  obtain ⟨c, hcompile, hderivations⟩ := compile_layered
  refine ⟨c, hcompile, ?_⟩
  intro build cancelled staging left built
  have hspell := Primitives.spellsHashes_standard
  have hdirect := direct_layeredStore
  have hempty : layeredStore.Empty Workspace.empty.disk := empty_layeredStore
  have hdistinct := distinct_layered hderivations
  obtain ⟨content, hcontent⟩ := hdistinct.exists_contents hspell
  have hsane := hempty.sane (· ∈ layeredStore.hashedBy c)
  -- The build that is cancelled leaves the directory of the store.
  obtain ⟨hcancelled, hopens⟩ : layeredStore.Sane (· ∈ layeredStore.hashedBy c) cancelled.disk ∧
      cancelled.disk.Opens layeredStore.directory :=
    hsane.after_realize (w := Workspace.empty) hspell hdirect hdistinct wellFormed_layered hcompile
      (fun _ h => h) "pipeline.nix" (.ofToken ⟨some "stopped"⟩)
  have hfilling : layeredStore.Filling (nodeLabel "a") [script "a" [] ⟨"1"⟩] cancelled.disk left :=
    (filling_publish hspell (.node (by decide)) hcancelled.consistent.wellFormed hopens [0]).1
  -- What is on the disk then counts no more, only where it differs.
  clear_value left
  have hleft := ((Warm.empty hempty).realised wellFormed_layered hcompile "pipeline.nix"
    (.ofToken ⟨some "stopped"⟩)).left hopens hfilling
  have hbuilt := Warm.realised (w := { cancelled with disk := left }) hleft wellFormed_layered
    hcompile "pipeline.nix" .never
  have hagree := warm_store_agrees_with_empty hspell hdirect wellFormed_layered hcompile hbuilt hempty
    (hdistinct.mono (by simp)) "pipeline.nix" .never
  -- The build in the empty store has a root, for its nodes have values.
  obtain ⟨w₂, hrun₂, -⟩ := hsane.realize_returns (w := Workspace.empty) hspell hdirect hdistinct
    hcontent wellFormed_layered hcompile (fun _ h => h) "pipeline.nix" .never
  rw [(solution_layered hderivations).realized hspell hcontent
    (sound_of_compile wellFormed_layered hcompile) fun _ h => h] at hrun₂
  have hroot := hagree.1
  rw [hrun₂] at hroot
  have hrun : (build .never).run built = (.ok _, ((build .never).run built).2) := Prod.ext hroot rfl
  refine ⟨_, _, w₂, hrun, hrun₂, fun node hnode => hagree.2 _ _ w₂ hrun hrun₂ node ?_⟩
  rw [CompiledBuild.nodes, hderivations]
  exact hnode

end LocalStore

/-! ## Builds with this store -/

/-- A build with this store, recorded in memory. -/
def storeJob : BuildJob :=
  { singleJob "" (.ok "") with tool := LocalStore.layeredStore.tool, registry := .memory }

theorem serves_storeJob : LocalStore.layeredStore.Serves storeJob where
  tool := rfl
  device := rfl
  work := by
    have hstops : ∀ stop ∈ Disk.stopsOf storeJob.config.workDir, stop.head? ≠ some "store" := by
      decide +kernel
    rintro stop hstop ⟨label, inputs, rest, -, rfl⟩
    have hdest : Disk.destination LocalStore.layeredStore.directory = ["store"] := by decide +kernel
    exact hstops _ hstop (by rw [hdest]; rfl)
  registry := by
    intro directory hdirectory
    cases hdirectory
  suffix := by decide

/-- The files of the build leave the store empty. -/
theorem empty_after_files {c : CompiledBuild}
    (hcompile : layered.compile .default = .ok c) :
    ∃ d, Device.run FileStep.perform (c.fileSteps .default) .empty = (d, .ok ()) ∧
      LocalStore.layeredStore.Empty d := by
  have hseen : (layered.compile .default).toOption.map (fun c =>
      let written := Device.run FileStep.perform (c.fileSteps .default) .empty
      (written.2.isOk, (written.1.at? ["store"]).isNone,
        (FileStep.perform (.createDirectories "store") written.1).2.isNone))
      = some (true, true, true) := by
    decide +kernel
  obtain ⟨c', hc', hseen⟩ := ok_of_toOption_map hseen
  obtain rfl := Except.ok.inj (hc'.symm.trans hcompile)
  have hids : ∀ d ∈ c'.derivations, isIdentifier d.node = true :=
    fun d hd => ((sound_of_compile wellFormed_layered hcompile).derivations d hd).node
  have htouched := serves_storeJob.work.fileSteps Primitives.spellsHashes_standard hids
    Disk.wellFormed_empty
  rw [show storeJob.config = .default from rfl] at htouched
  rcases hrun : Device.run FileStep.perform (c'.fileSteps .default) .empty with ⟨d, result⟩
  rw [hrun] at htouched
  simp only [hrun, Prod.mk.injEq, Option.isNone_iff_eq_none] at hseen
  obtain ⟨hok, hvacant, hmade⟩ := hseen
  cases result with
  | error e => cases hok
  | ok _ =>
      refine ⟨d, rfl, htouched.wellFormed, fun name rest => ?_, _, Prod.ext rfl hmade⟩
      have hdest : Disk.destination LocalStore.layeredStore.directory = ["store"] := by
        decide +kernel
      rw [hdest]
      exact htouched.wellFormed.below (by simp [hvacant]) (List.cons_ne_nil _ _)

/-- The nodes are built in an empty store, whatever their pipeline remembers of them, and the
record of the build is the only one. -/
theorem storeJob_succeeds {q : Pipeline} (hskeleton : q.skeleton = layered.skeleton)
    (hcheck : q.checkBuildable = .ok ()) :
    ∃ outcome w', (q.build storeJob).run .empty = (.ok outcome, w') ∧
      outcome.buildId = buildIdAt storeJob.now storeJob.suffix ∧
      w'.memory = [outcome.entry storeJob.now] := by
  obtain ⟨c, hcompile, hderivations⟩ := compile_layered
  have hcompiled : q.compile storeJob.config = .ok c := (compile_congr hskeleton _).trans hcompile
  obtain ⟨d, hfiles, hempty⟩ := empty_after_files hcompile
  have hdistinct := LocalStore.distinct_layered hderivations
  have hspell := Primitives.spellsHashes_standard
  obtain ⟨content, hcontent⟩ := hdistinct.exists_contents hspell
  obtain ⟨root, hroot⟩ : ∃ root, LocalStore.layeredStore.realized content c .never = .ok root :=
    ⟨_, (LocalStore.solution_layered hderivations).realized hspell hcontent
      (sound_of_compile wellFormed_layered hcompile) fun _ h => h⟩
  have hsane := hempty.sane (· ∈ LocalStore.layeredStore.hashedBy c)
  have hreturns := hsane.realize_returns (w := ⟨d, [], []⟩) hspell LocalStore.direct_layeredStore
    hdistinct hcontent wellFormed_layered hcompile (fun _ h => h)
    (BuildConfig.descriptionPath .default) .never
  have hrealized := hreturns.and_ends (LocalStore.realize_ends hspell LocalStore.direct_layeredStore
    hdistinct (sound_of_compile wellFormed_layered hcompile) (fun _ h => h) _ _ hsane.consistent)
  rw [hroot] at hrealized
  have hbuilt : (q.build storeJob).Returns .empty
      (.ok ⟨(storeJob.entry c root).buildId, root, c.artifacts root⟩)
      (·.memory = [storeJob.entry c root]) := by
    unfold Pipeline.build
    rw [hcheck, hcompiled]
    refine (Work.Returns.ofExcept (P := (· = .empty)) rfl).bind_ok ?_
    rintro _ rfl
    refine (Work.Returns.ofExcept (P := (· = .empty)) rfl).bind_ok ?_
    rintro _ rfl
    refine (Work.Returns.steps (P := (· = ⟨d, [], []⟩)) hfiles rfl).bind_ok ?_
    rintro _ rfl
    refine (Work.Returns.ofExcept (P := (· = ⟨d, [], []⟩)) rfl).bind_ok ?_
    rintro _ rfl
    refine hrealized.bind_ok fun w h => ?_
    have hmemory : w.memory = [] := (h.2 root rfl).2.memory
    refine ⟨_, rfl, ?_⟩
    show w.memory ++ _ = _
    rw [hmemory]
    rfl
  obtain ⟨w', hrun, hmemory⟩ := hbuilt
  exact ⟨_, w', hrun, rfl, hmemory⟩

end NodePipeline

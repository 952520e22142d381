import NodePipeline.Registry.Lookup
import NodePipeline.Proofs.Build.Recorded
import NodePipeline.Proofs.Build.Values
import NodePipeline.Proofs.Build.Warm
import NodePipeline.Proofs.Expr.References
import NodePipeline.Proofs.Pipeline.Closed

/-!
# Reading back a build

The values of a closed pipeline solve its equations over the empty environment, and
those are the equations that the derivations of its build have. So a build stores the
values that the pipeline has, and the newest record leads to them.
-/

namespace NodePipeline

/-! ## Artifacts -/

/-- A stored value is read from its file. -/
theorem Disk.readValue_of_storable {p : Primitives} {d : Disk} {path : String} {bytes : Bytes}
    {v : Value} (hread : d.read path = .ok bytes) (hv : v.Storable p)
    (hbytes : v.toArtifact p = .ok bytes) :
    d.readValue p path = if v.height ≤ 510 then .ok v
      else .error (.artifact (.corrupt (some path) (.invalidPayload "not a stored value"))) := by
  unfold Disk.readValue
  simp only [hread, hv.ofArtifact_eq hbytes]
  split
  · next heq =>
      split at heq
      · rw [if_pos ‹_›, Except.ok.inj heq]
      · cases heq
  · next heq =>
      split at heq
      · cases heq
      · rw [if_neg ‹_›, ← Except.error.inj heq]
        rfl

/-! ## Values of a build -/

namespace LocalStore

variable {s : LocalStore} {q : Pipeline} {config : BuildConfig} {c : CompiledBuild}

/-- The derivations of a build have the equations of the pipeline. -/
theorem assigns_of_solves {ev : Evaluator} {v : String → Value}
    (hcompile : q.compile config = .ok c)
    (hagree : ∀ body env u u', ev.evaluate body env = .ok u →
      s.evaluator.evaluate body env = .ok u' → u' = u)
    (hvalues : ∀ node ∈ q.nodes, node.value = v node.name)
    (hstorable : ∀ node ∈ q.nodes, node.value.Storable s.primitives)
    (hv : q.skeleton.Solves ev .empty v) : s.Assigns c v := by
  obtain ⟨-, hderivations⟩ := compile_eq_ok hcompile
  have hnode : ∀ d ∈ c.derivations, ∃ node ∈ q.nodes,
      d = derivationOf config ⟨node.name, node.body, node.dependencies⟩ := by
    intro d hd
    rw [hderivations] at hd
    obtain ⟨vertex, hvertex, rfl⟩ := List.mem_map.1 hd
    obtain ⟨node, hnode, rfl⟩ := List.mem_map.1 (q.skeleton.order_subset vertex hvertex)
    exact ⟨node, hnode, rfl⟩
  constructor
  · intro d hd
    obtain ⟨node, hnode, rfl⟩ := hnode d hd
    exact hvalues node hnode ▸ hstorable node hnode
  · intro d hd u hu
    obtain ⟨node, hnode, rfl⟩ := hnode d hd
    exact hagree _ _ _ _ (hv _ (List.mem_map_of_mem hnode)) hu

variable {known : List String → Prop} {job : BuildJob} {w w' : Workspace} {outcome : BuildOutcome}
  {v : String → Value}

/-- The file of a recorded artifact reads as the value of its node. -/
theorem Recorded.readValue (h : s.Recorded known q job w c outcome w')
    (hspell : s.primitives.SpellsHashes) (hdistinct : s.Distinct known) (hsound : c.Sound)
    (hknown : ∀ ins ∈ s.hashedBy c, known ins) (hv : s.Assigns c v) {d : Derivation}
    (hd : d ∈ c.derivations) :
    w'.disk.readValue s.primitives (Path.join (Path.join outcome.root d.node) artifactFile)
      = if (v d.node).height ≤ 510 then .ok (v d.node)
        else .error (.artifact (.corrupt
          (some (Path.join (Path.join outcome.root d.node) artifactFile))
          (.invalidPayload "not a stored value"))) := by
  have hnames : d.node ∈ names (s.outputsOf c) := by
    rw [outputsOf, names_planned]
    exact List.mem_append_right _ (List.mem_map_of_mem hd)
  obtain ⟨-, hmem⟩ := output?_of_mem_names hnames
  obtain ⟨bytes, hbuilt, hread⟩ := h.gathers.read hspell hmem
    (isName_of_isIdentifier (hsound.derivations d hd).node) (h.named d hd)
  have hstored := hv.stored hspell hdistinct hsound hknown d hd bytes hbuilt
  rw [← h.root] at hread
  exact Disk.readValue_of_storable hread (hv.storable d hd) hstored

/-- Right after a build whose record is the newest, reading a node is reading its file. -/
theorem Recorded.readNode_eq (h : s.Recorded known q job w c outcome w') (hserves : s.Serves job)
    (hplace : job.registry.HasPlace) (hregular : job.now.Regular) (hkept : job.now.Kept)
    (hnewest : ∀ entries, job.registry.entries w' = .ok entries → ∀ e ∈ entries,
      e = outcome.entry job.now ∨ e.createdAt.isBefore job.now = true)
    {d : Derivation} (hd : d ∈ c.derivations) :
    job.registry.readNode s.primitives w' d.node none
      = w'.disk.readValue s.primitives (Path.join (Path.join outcome.root d.node) artifactFile) := by
  obtain ⟨w₁, hwell, -, hrecord⟩ := h.recorded
  have hid : IsRecordId (job.entry c outcome.root).buildId :=
    isRecordId_buildIdAt job.now hserves.suffix
  obtain ⟨entries, hentries, hentry⟩ := lists_record hplace hid hregular hkept hwell hrecord
  have hfirst : ∀ e ∈ entries, e = job.entry c outcome.root ∨
      e.createdAt.isBefore (job.entry c outcome.root).createdAt = true := by
    intro e he
    rw [← h.entry]
    exact hnewest _ hentries e (mem_newestFirst.2 he)
  have hartifact : (job.entry c outcome.root).artifacts.get? d.node
      = some (Path.join (Path.join outcome.root d.node) artifactFile) := by
    have hnodes : d.node ∈ c.nodes := List.mem_map_of_mem hd
    rw [BuildJob.entry, BuildEntry.new, CompiledBuild.get?_artifacts, if_pos hnodes]
  exact Registry.readNode_newest s.primitives hentries hentry hfirst hartifact

end LocalStore

/-- **What was built reads back as it was evaluated.** -/
theorem built_nodes_read_back {p : Primitives} {s : LocalStore} {depth depth' : Nat}
    {enclosing : Environment} {ds : List Declaration} {q : Pipeline} {job : BuildJob}
    {asked : List (List String)} {w w' : Workspace} {outcome : BuildOutcome}
    (hspell : s.primitives.SpellsHashes) (hdirect : s.Direct)
    (hevaluator : s.evaluator = Expr.evaluator depth') (hserves : s.Serves job)
    (hplace : job.registry.HasPlace) (hregular : job.now.Regular) (hkept : job.now.Kept)
    (hq : (evaluateBlock p (Expr.evaluator depth) enclosing ds).result = .ok q)
    (hown : q.SparesOwnNames Expr.references enclosing)
    (hstorable : ∀ node ∈ q.nodes, node.value.Storable s.primitives)
    (hserved : s.Served asked w.disk)
    (hdistinct : ∀ c, q.compile job.config = .ok c → s.Distinct (· ∈ asked ++ s.hashedBy c))
    (hbuild : (q.build job).run w = (.ok outcome, w'))
    (hnewest : ∀ entries, job.registry.entries w' = .ok entries → ∀ e ∈ entries,
      e = outcome.entry job.now ∨ e.createdAt.isBefore job.now = true) :
    ∀ name v, q.value name = .ok v →
      job.registry.readNode s.primitives w' name none
        = if v.height ≤ 510 then .ok v
          else .error (.artifact (.corrupt
            (some (Path.join (Path.join outcome.root name) artifactFile))
            (.invalidPayload "not a stored value"))) := by
  have hev := Expr.evaluator_reads depth
  obtain ⟨-, -, hwellFormed, hacyclic, -⟩ := solution_of_block hq
  obtain ⟨c, hcompile⟩ := Pipeline.compiles_of_build hbuild
  have hdistinct := hdistinct c hcompile
  have hknown : ∀ ins ∈ s.hashedBy c, ins ∈ asked ++ s.hashedBy c :=
    fun ins => List.mem_append_right asked
  have hold : ∀ ins, ins ∈ asked → ins ∈ asked ++ s.hashedBy c :=
    fun ins => List.mem_append_left _
  have hcons := (hserved.consistent hspell hdirect (hdistinct.mono hold)).mono hold
  -- The build has come to its end: its results are gathered and recorded.
  have hcompiled : ∀ c', q.compile job.config = .ok c' → ∀ ins ∈ s.hashedBy c',
      ins ∈ asked ++ s.hashedBy c := by
    intro c' hc'
    obtain rfl := Except.ok.inj (hcompile.symm.trans hc')
    exact hknown
  obtain ⟨c', hrecorded⟩ :=
    (s.build_ends hspell hdirect hdistinct hwellFormed hserves hcompiled hcons).of_ok hbuild
  obtain rfl := Except.ok.inj (hcompile.symm.trans hrecorded.compiled)
  -- The values of the pipeline solve the equations of the derivations.
  obtain ⟨-, -, v, hvalues, hsolves⟩ := closed_solution hev hq hrecorded.buildable hown
  have hassigns : s.Assigns c v := by
    refine LocalStore.assigns_of_solves hcompile ?_ hvalues hstorable hsolves
    intro body env u u' hu hu'
    rw [hevaluator] at hu'
    exact Expr.evaluate_unique hu' hu
  intro name u hu
  obtain ⟨node, hnode, rfl, rfl⟩ := Pipeline.value_eq_ok hu
  have hmem : derivationOf job.config ⟨node.name, node.body, node.dependencies⟩
      ∈ c.derivations := by
    rw [(compile_eq_ok hcompile).2]
    refine List.mem_map_of_mem ((Skeleton.order_perm hwellFormed hacyclic).symm.subset ?_)
    exact List.mem_map_of_mem hnode
  rw [hvalues node hnode]
  exact (hrecorded.readNode_eq hserves hplace hregular hkept hnewest hmem).trans
    (hrecorded.readValue hspell hdistinct (sound_of_compile hwellFormed hcompile) hknown hassigns
      hmem)

theorem Value.eq_int_of_asInt? {v : Value} {i : Int64} (h : v.asInt? = some i) : v = .int i := by
  cases v with
  | int j => exact congrArg Value.int (Option.some.inj h)
  | _ => cases h

theorem Value.storable_int (p : Primitives) (i : Int64) : (Value.int i).Storable p := by
  constructor <;> simp [Value.Ordered, Value.Short, Value.tables, Value.innerTables]

theorem Pipeline.value_eq_int {q : Pipeline} {name : String} {i : Int64}
    (h : (q.value name).toOption.bind Value.asInt? = some i) : q.value name = .ok (.int i) := by
  obtain ⟨v, hv, hint⟩ := ok_of_toOption_bind h
  rw [hv, Value.eq_int_of_asInt? hint]

/-- The block of the two nodes computes both, and reads nothing from outside. -/
theorem layered_block :
    ∃ q, (evaluateBlock .standard (Expr.evaluator 8) .empty
        [⟨"b", ⟨"a + 1"⟩⟩, ⟨"a", ⟨"1"⟩⟩]).result = .ok q ∧
      q.skeleton = layered.skeleton ∧ (∀ n ∈ q.nodes, n.external = [] ∧ ∃ i, n.value = .int i) ∧
      q.value "a" = .ok (.int 1) ∧ q.value "b" = .ok (.int 2) := by
  have hseen : (evaluateBlock .standard (Expr.evaluator 8) .empty
      [⟨"b", ⟨"a + 1"⟩⟩, ⟨"a", ⟨"1"⟩⟩]).result.toOption.map (fun q =>
        (q.nodes.map Node.vertex,
          q.nodes.all fun n => n.external.isEmpty && n.value.asInt?.isSome,
          (q.value "a").toOption.bind Value.asInt?, (q.value "b").toOption.bind Value.asInt?))
      = some ([⟨"b", ⟨"a + 1"⟩, ["a"]⟩, ⟨"a", ⟨"1"⟩, []⟩], true, some 1, some 2) := by
    decide +kernel
  obtain ⟨q, hq, hseen⟩ := ok_of_toOption_map hseen
  simp only [Prod.mk.injEq, List.all_eq_true, Bool.and_eq_true, List.isEmpty_iff,
    Option.isSome_iff_exists] at hseen
  obtain ⟨hvertices, hall, ha, hb⟩ := hseen
  refine ⟨q, hq, congrArg Skeleton.mk hvertices, fun n hn => ?_, Pipeline.value_eq_int ha,
    Pipeline.value_eq_int hb⟩
  obtain ⟨hexternal, i, hint⟩ := hall n hn
  exact ⟨hexternal, i, Value.eq_int_of_asInt? hint⟩

/-- A block of two nodes, of which the first reads the second, is built in an empty store, and the
values of both are read from there. -/
theorem layered_build_reads_back :
    ∃ q outcome w',
      (evaluateBlock .standard (Expr.evaluator 8) .empty
        [⟨"b", ⟨"a + 1"⟩⟩, ⟨"a", ⟨"1"⟩⟩]).result = .ok q ∧
      (q.build storeJob).run .empty = (.ok outcome, w') ∧
      storeJob.registry.readNode .standard w' "a" none = .ok (.int 1) ∧
      storeJob.registry.readNode .standard w' "b" none = .ok (.int 2) := by
  obtain ⟨q, hq, hskeleton, hnodes, ha, hb⟩ := layered_block
  have hcheck : q.checkBuildable = .ok () := checkBuildable_eq_ok.2 fun n hn => (hnodes n hn).1
  obtain ⟨outcome, w', hbuild, -, hmemory⟩ := storeJob_succeeds hskeleton hcheck
  have hplace : storeJob.registry.HasPlace := trivial
  have hown : q.SparesOwnNames Expr.references .empty := fun _ _ _ => List.not_mem_nil
  have hstorable : ∀ n ∈ q.nodes, n.value.Storable .standard := by
    intro n hn
    obtain ⟨-, i, hvalue⟩ := hnodes n hn
    exact hvalue ▸ Value.storable_int .standard i
  have hserved : LocalStore.layeredStore.Served [] Workspace.empty.disk := by
    refine .fresh Disk.wellFormed_empty ?_
    rintro l ⟨label, ins, rest, -, rfl⟩
    exact LocalStore.empty_layeredStore.vacant _ rest
  have hdistinct : ∀ c, q.compile storeJob.config = .ok c →
      LocalStore.layeredStore.Distinct (· ∈ [] ++ LocalStore.layeredStore.hashedBy c) := by
    intro c hc
    obtain ⟨c', hcompile, hderivations⟩ := compile_layered
    obtain rfl := Except.ok.inj (hc.symm.trans ((compile_congr hskeleton _).trans hcompile))
    exact LocalStore.distinct_layered hderivations
  have hnewest : ∀ entries, storeJob.registry.entries w' = .ok entries → ∀ e ∈ entries,
      e = outcome.entry storeJob.now ∨ e.createdAt.isBefore storeJob.now = true := by
    intro entries hentries e he
    obtain rfl := Except.ok.inj hentries
    rw [mem_newestFirst, hmemory, List.mem_singleton] at he
    exact Or.inl he
  have hread := built_nodes_read_back Primitives.spellsHashes_standard
    LocalStore.direct_layeredStore rfl serves_storeJob hplace (by decide) (by decide) hq hown
    hstorable hserved hdistinct hbuild hnewest
  exact ⟨q, outcome, w', hq, hbuild, (hread "a" _ ha).trans (if_pos (by decide)),
    (hread "b" _ hb).trans (if_pos (by decide))⟩

end NodePipeline

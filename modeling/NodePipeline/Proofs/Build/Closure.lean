import NodePipeline.Proofs.Build.Compile
import NodePipeline.Proofs.Build.Failures
import NodePipeline.Proofs.Build.Places
import NodePipeline.Proofs.Pipeline.Reachable

/-!
# Closed builds

A pipeline that was run compiles, whatever the configuration. Its derivations are its
nodes, each after those that it depends on, and the description refers to no
derivation that it does not bind. The local store then meets none of the gaps that
it guards against.
-/

namespace NodePipeline

/-! ## The lines of a description -/

/-- The line of a fragment that binds the derivation of a node. -/
def bindingLine (node : String) : String :=
  line ["  ", derivationName node, " = pkgs.runCommand \"pipeflow-node-", node, "\" \x7b"]

def packageLine (config : BuildConfig) : String :=
  match config.interpreterPackage with
  | some package => line ["    nativeBuildInputs = [ pkgs.", package, " ];"]
  | none => ""

/-- The line of a fragment that refers to the derivation of a dependency. -/
def inputLine (dep : String) : String :=
  line ["    ", dependencyVariable dep, " = ", derivationName dep, ";"]

def commandLines (config : BuildConfig) (node : String) : String :=
  "  \x7d ''\n    mkdir -p $out\n"
    ++ line ["    ", " ".intercalate (config.interpreter.map escapeIndented),
      " $\x7b./scripts/", scriptName node, "\x7d"]
    ++ "  '';\n"

/-- The line of the aggregate that copies the result of a node. -/
def copyLine (node : String) : String :=
  line ["  cp -r $\x7b", derivationName node, "\x7d $out/", node]

def openingLines (config : BuildConfig) : String :=
  "# Generated by pipeflow. Do not edit.\nlet\n"
    ++ line ["  pkgs = import ", config.nixpkgs, " \x7b\x7d;"] ++ "\n"

def aggregateLines : String :=
  "in\npkgs.runCommand \"pipeflow-pipeline\" \x7b\x7d ''\n  mkdir -p $out\n"

theorem fragment_eq (config : BuildConfig) (node : String) (dependencies : List String) :
    fragment config node dependencies = bindingLine node ++ packageLine config
      ++ String.join (dependencies.map inputLine) ++ commandLines config node := by
  unfold fragment commandLines
  rw [← String.append_assoc, ← String.append_assoc]
  rfl

theorem description_eq (config : BuildConfig) (derivations : List Derivation) :
    description config derivations = openingLines config
      ++ String.join (derivations.map fun d => line [d.fragment]) ++ aggregateLines
      ++ String.join ((derivations.map Derivation.node).map copyLine) ++ "''\n" := by
  rw [List.map_map]
  rfl

/-! ## What lines refer to -/

/-- The fragment binds the name, which is a word. -/
def Binds (fragment name : String) : Prop :=
  ' ' ∉ name.toList ∧ ∃ rest, fragment = "  " ++ name ++ " = " ++ rest

/-- The line gives a variable the result of the name. -/
def RefersTo (text name : String) : Prop :=
  ∃ target, text = line ["    ", target, " = ", name, ";"]

/-- The line copies the result of the name. -/
def Copies (text name : String) : Prop :=
  ∃ target, text = line ["  cp -r $\x7b", name, "\x7d $out/", target]

variable {config : BuildConfig} {node dep name : String} {dependencies : List String}

/-- A name behind a label of letters and underscores has no other characters either. -/
theorem notMem_labelled {label : String}
    (hlabel : ∀ c ∈ label.toList, c.isAlphanum = true ∨ c = '_') (h : isIdentifier node = true)
    {c : Char} (hc : c.isAlphanum = false) (hbar : c ≠ '_') : c ∉ (label ++ node).toList := by
  rw [String.toList_append, List.mem_append, not_or]
  refine ⟨fun hmem => ?_, notMem_of_isIdentifier h hc hbar⟩
  rcases hlabel c hmem with halpha | heq
  · rw [hc] at halpha
    cases halpha
  · exact hbar heq

theorem notMem_derivationName (h : isIdentifier node = true) {c : Char}
    (hc : c.isAlphanum = false) (hbar : c ≠ '_') : c ∉ (derivationName node).toList :=
  notMem_labelled (forall_mem_of_all (by decide)) h hc hbar

theorem notMem_dependencyVariable (h : isIdentifier node = true) {c : Char}
    (hc : c.isAlphanum = false) (hbar : c ≠ '_') : c ∉ (dependencyVariable node).toList :=
  notMem_labelled (forall_mem_of_all (by decide)) h hc hbar

theorem derivationName_inj {node node' : String} (h : derivationName node = derivationName node') :
    node = node' := by
  have hchars := congrArg String.toList h
  rw [derivationName, derivationName, String.toList_append, String.toList_append] at hchars
  exact String.toList_inj.1 (List.append_cancel_left hchars)

theorem binds_fragment_iff (h : isIdentifier node = true) :
    Binds (fragment config node dependencies) name ↔ name = derivationName node := by
  have hspace := notMem_derivationName h (c := ' ') (by decide) (by decide)
  constructor
  · rintro ⟨hname, rest, htext⟩
    rw [fragment_eq] at htext
    have hchars := congrArg String.toList htext
    simp only [bindingLine, line, String.join_cons, String.join_nil, String.toList_append,
      String.append_assoc] at hchars
    have hword := List.append_cancel_left hchars
    exact (String.toList_inj.1 (append_cons_inj_of_notMem hspace hname hword).1).symm
  · rintro rfl
    refine ⟨hspace, "pkgs.runCommand \"pipeflow-node-" ++ node ++ "\" \x7b\n" ++ packageLine config
      ++ String.join (dependencies.map inputLine) ++ commandLines config node, ?_⟩
    rw [fragment_eq]
    apply String.toList_inj.1
    simp [bindingLine, line]

theorem refersTo_inputLine_iff (h : isIdentifier dep = true) :
    RefersTo (inputLine dep) name ↔ name = derivationName dep := by
  constructor
  · rintro ⟨target, htext⟩
    have hchars : (dependencyVariable dep).toList ++ [' '] ++ '=' :: (' ' ::
          ((derivationName dep).toList ++ [';', '\n']))
        = target.toList ++ [' '] ++ '=' :: (' ' :: (name.toList ++ [';', '\n'])) := by
      simpa [inputLine, line] using congrArg String.toList htext
    have hvariable : '=' ∉ (dependencyVariable dep).toList ++ [' '] := by
      simpa using notMem_dependencyVariable h (c := '=') (by decide) (by decide)
    have hname : '=' ∉ ' ' :: ((derivationName dep).toList ++ [';', '\n']) := by
      simpa using notMem_derivationName h (c := '=') (by decide) (by decide)
    obtain ⟨-, -, hrest⟩ := (List.append_cons_inj_of_notMem hvariable hname).1 hchars
    exact (String.toList_inj.1 (List.append_cancel_right (List.cons.inj hrest).2)).symm
  · rintro rfl
    exact ⟨dependencyVariable dep, rfl⟩

theorem copies_copyLine_iff (h : isIdentifier node = true) :
    Copies (copyLine node) name ↔ name = derivationName node := by
  constructor
  · rintro ⟨target, htext⟩
    have hchars : (derivationName node).toList ++
          '\x7d' :: (" $out/".toList ++ node.toList ++ ['\n'])
        = name.toList ++ '\x7d' :: (" $out/".toList ++ target.toList ++ ['\n']) := by
      simpa [copyLine, line] using congrArg String.toList htext
    have hname := notMem_derivationName h (c := '\x7d') (by decide) (by decide)
    have hafter : '\x7d' ∉ " $out/".toList ++ node.toList ++ ['\n'] := by
      simpa using notMem_of_isIdentifier h (c := '\x7d') (by decide) (by decide)
    exact (String.toList_inj.1 ((List.append_cons_inj_of_notMem hname hafter).1 hchars).1).symm
  · rintro rfl
    exact ⟨node, rfl⟩

theorem copyLine_inj {node' : String} (h : isIdentifier node = true)
    (heq : copyLine node = copyLine node') : node = node' := by
  have hcopies : Copies (copyLine node) (derivationName node') := heq ▸ ⟨node', rfl⟩
  exact (derivationName_inj ((copies_copyLine_iff h).1 hcopies)).symm

/-! ## Closed builds -/

namespace CompiledBuild

/-- A line of the description refers to the result of the name. -/
inductive Refers (c : CompiledBuild) (name : String) : Prop
  | input {d : Derivation} {text : String} :
      d ∈ c.derivations → text ∈ d.dependencies.map inputLine → RefersTo text name → c.Refers name
  | copy {text : String} : text ∈ c.nodes.map copyLine → Copies text name → c.Refers name

/-- The build of a pipeline that needs nothing from outside of it. -/
structure Closed (c : CompiledBuild) (q : Pipeline) (config : BuildConfig) : Prop where
  /-- The derivations are the nodes of the pipeline, each of them once. -/
  nodes : (c.derivations.map fun d => (d.node, d.body, d.dependencies)).Perm
    (q.nodes.map fun n => (n.name, n.body, n.dependencies))
  nodup : c.nodes.Nodup
  earlier : ∀ before d after, c.derivations = before ++ d :: after →
    ∀ dep ∈ d.dependencies, dep ∈ before.map Derivation.node
  fragments : ∀ d ∈ c.derivations, d.fragment = bindingLine d.node ++ packageLine config
    ++ String.join (d.dependencies.map inputLine) ++ commandLines config d.node
  description : c.description = openingLines config
    ++ String.join (c.derivations.map fun d => line [d.fragment]) ++ aggregateLines
    ++ String.join (c.nodes.map copyLine) ++ "''\n"
  /-- What lines refer to is bound by one fragment, and by no other one. -/
  bound : ∀ name, c.Refers name → ∃! d, d ∈ c.derivations ∧ Binds d.fragment name
  /-- The aggregate has one line for each node that copies its result. -/
  copies : ∀ name ∈ q.names,
    ∃! text, text ∈ c.nodes.map copyLine ∧ Copies text (derivationName name)
  copiesOnce : (c.nodes.map copyLine).Nodup

end CompiledBuild

theorem Supplied.of_append {done : List String} {before after : List Derivation}
    (h : Supplied done (before ++ after)) :
    Supplied done before ∧ Supplied (done ++ before.map Derivation.node) after := by
  induction before generalizing done with
  | nil => exact ⟨True.intro, by simpa using h⟩
  | cons d rest ih =>
      obtain ⟨hdeps, hrest⟩ := h
      obtain ⟨hbefore, hafter⟩ := ih hrest
      exact ⟨⟨hdeps, hbefore⟩, by simpa using hafter⟩

theorem compile_description {q : Pipeline} {c : CompiledBuild} (h : q.compile config = .ok c) :
    c.description = description config c.derivations := by
  obtain ⟨-, -, rfl⟩ := compile_eq_ok_iff.1 h
  rfl

theorem exists_compile {q : Pipeline} (hs : q.skeleton.WellFormed) (hacyclic : q.skeleton.Acyclic)
    (config : BuildConfig) : ∃ c, q.compile config = .ok c := by
  have hne : q.nodes.isEmpty = false := by
    cases hnodes : q.nodes with
    | nil => exact absurd (by rw [Pipeline.skeleton, hnodes]; rfl) hs.nonempty
    | cons n rest => rfl
  have hlength : q.skeleton.order.length = q.nodes.length := by
    rw [(Skeleton.order_perm hs hacyclic).length_eq, Pipeline.skeleton, List.length_map]
  exact ⟨_, compile_eq_ok_iff.2 ⟨hne, hlength, rfl⟩⟩

namespace CompiledBuild

variable {q : Pipeline} {c : CompiledBuild}

/-- What a line refers to is the derivation of a node. -/
theorem Refers.eq_derivationName (hsound : c.Sound) (h : c.Refers name) :
    ∃ node ∈ c.nodes, name = derivationName node := by
  cases h with
  | input hd htext hrefers =>
      obtain ⟨dep, hdep, rfl⟩ := List.mem_map.1 htext
      obtain ⟨before, after, hsplit⟩ := List.append_of_mem hd
      have hsupplied := hsound.supplied
      rw [hsplit] at hsupplied
      refine ⟨dep, ?_, (refersTo_inputLine_iff ((hsound.derivations _ hd).dependencies dep hdep)).1
        hrefers⟩
      have hbefore := hsupplied.of_append.2.1 dep hdep
      rw [nodes, hsplit, List.map_append]
      exact List.mem_append_left _ hbefore
  | copy htext hcopies =>
      obtain ⟨node, hnode, rfl⟩ := List.mem_map.1 htext
      obtain ⟨d, hd, rfl⟩ := List.mem_map.1 hnode
      exact ⟨d.node, hnode, (copies_copyLine_iff (hsound.derivations d hd).node).1 hcopies⟩

theorem closed_of_compile (hs : q.skeleton.WellFormed) (hacyclic : q.skeleton.Acyclic)
    (h : q.compile config = .ok c) : c.Closed q config := by
  have hsound := sound_of_compile hs h
  have hderivations := (compile_eq_ok h).2
  have hfragment : ∀ d ∈ c.derivations, d.fragment = fragment config d.node d.dependencies := by
    intro d hd
    rw [hderivations] at hd
    obtain ⟨node, -, rfl⟩ := List.mem_map.1 hd
    rfl
  have hidentifier : ∀ node ∈ c.nodes, isIdentifier node = true := by
    intro node hnode
    obtain ⟨d, hd, rfl⟩ := List.mem_map.1 hnode
    exact (hsound.derivations d hd).node
  constructor
  case nodes =>
    have hperm := (Skeleton.order_perm hs hacyclic).map fun v => (v.name, v.body, v.dependencies)
    rw [Pipeline.skeleton, List.map_map] at hperm
    rw [hderivations, List.map_map]
    exact hperm
  case nodup => exact hsound.nodup
  case earlier =>
    intro before d after hsplit
    have hsupplied := hsound.supplied
    rw [hsplit] at hsupplied
    simpa using hsupplied.of_append.2.1
  case fragments => exact fun d hd => (hfragment d hd).trans (fragment_eq ..)
  case description =>
    rw [compile_description h, description_eq]
    rfl
  case bound =>
    intro name hname
    obtain ⟨node, hnode, rfl⟩ := hname.eq_derivationName hsound
    obtain ⟨d, hd, rfl⟩ := List.mem_map.1 hnode
    refine ⟨d, ⟨hd, ?_⟩, ?_⟩
    · rw [hfragment d hd]
      exact (binds_fragment_iff (hsound.derivations d hd).node).2 rfl
    · rintro other ⟨hother, hbinds⟩
      rw [hfragment other hother] at hbinds
      have hname := (binds_fragment_iff (hsound.derivations other hother).node).1 hbinds
      exact List.inj_on_of_nodup_map hsound.nodup hother hd (derivationName_inj hname).symm
  case copies =>
    intro name hname
    have hnode := (mem_nodes_of_compile h).2 hname
    refine ⟨copyLine name, ⟨List.mem_map_of_mem hnode, name, rfl⟩, ?_⟩
    rintro text ⟨htext, hcopies⟩
    obtain ⟨other, hother, rfl⟩ := List.mem_map.1 htext
    rw [derivationName_inj ((copies_copyLine_iff (hidentifier other hother)).1 hcopies)]
  case copiesOnce =>
    exact hsound.nodup.map_on fun node hnode other _ heq =>
      copyLine_inj (hidentifier node hnode) heq

end CompiledBuild

/-- **Builds of pipelines that were run are closed.** Such a pipeline compiles under every
configuration. Its derivations are its nodes in an order in which each comes after those
that it depends on; every derivation that a line of the description refers to is bound
by one fragment; and whatever the store, the token and the workspace, the local store
refuses no derivation, and finds the results of all that come before one. -/
theorem compiled_builds_are_closed {ds : List Declaration} {q : Pipeline} (h : Reachable ds q)
    (config : BuildConfig) :
    ∃ c, q.compile config = .ok c ∧ c.Closed q config ∧
      ∀ (s : LocalStore) (cancel : Cancellation),
        (∀ path w reason, ((s.tool.realize ⟨c, path⟩ cancel).run w).1 ≠ .error (.refused reason)) ∧
        ∀ before after outputs w w', c.derivations = before ++ after →
          (s.realizeNodes cancel 0 before []).run w = (.ok outputs, w') →
          (∀ d ∈ before, (LocalStore.output? outputs d.node).isSome = true) ∧
          ∀ d, after.head? = some d →
            ∀ dep ∈ d.dependencies, (LocalStore.output? outputs dep).isSome = true := by
  obtain ⟨hs, -, ctx, hq⟩ := h.executed
  have hacyclic := (Skeleton.cycle?_eq_none_iff hs).1 (RunContext.execute_eq_ok hq).1
  obtain ⟨c, hc⟩ := exists_compile hs hacyclic config
  have hsupplied := (sound_of_compile hs hc).supplied
  refine ⟨c, hc, CompiledBuild.closed_of_compile hs hacyclic hc, fun s cancel => ⟨?_, ?_⟩⟩
  · intro path w reason herror
    exact (LocalStore.realize_gives hsupplied path cancel).of_error herror reason rfl
  · intro before after outputs w w' hsplit hrun
    rw [hsplit] at hsupplied
    obtain ⟨hbefore, hafter⟩ := hsupplied.of_append
    have hnone : Supplied (LocalStore.names []) before := hbefore
    have hnames : LocalStore.names outputs = before.map Derivation.node :=
      (LocalStore.realizeNodes_gives cancel 0 hnone).of_ok hrun
    have hfound : ∀ name ∈ before.map Derivation.node,
        (LocalStore.output? outputs name).isSome = true := fun name hname => by
      rw [(LocalStore.output?_of_mem_names (hnames ▸ hname)).1]
      rfl
    refine ⟨fun d hd => hfound d.node (List.mem_map_of_mem hd), fun d hd dep hdep => ?_⟩
    cases after with
    | nil => cases hd
    | cons first rest =>
        obtain rfl := Option.some.inj hd
        exact hfound dep (hafter.1 dep hdep)

/-- The sum is declared first and derived last; what its fragment reads is bound once. -/
theorem sum_build_is_closed :
    ∃ q c, Reachable sumDeclarations q ∧ q.compile .default = .ok c ∧
      c.nodes = ["x", "y", "sum"] ∧ c.Closed q .default ∧
      ∃! d, d ∈ c.derivations ∧ Binds d.fragment "node_x" := by
  have hnodes : (evaluateBlock .transparent (Expr.evaluator 8) (baseEnvironment 10)
      sumDeclarations).result.toOption.bind (fun q =>
        (q.compile .default).toOption.map CompiledBuild.nodes) = some ["x", "y", "sum"] := by
    decide +kernel
  obtain ⟨q, hblock, hnodes⟩ := ok_of_toOption_bind hnodes
  obtain ⟨c, hc, hnodes⟩ := ok_of_toOption_map hnodes
  have hreachable : Reachable sumDeclarations q := .block _ _ _ hblock
  obtain ⟨c', hc', hclosed, -⟩ := compiled_builds_are_closed hreachable .default
  obtain rfl := Except.ok.inj (hc.symm.trans hc')
  have hx : "x" ∈ c.nodes := by
    rw [hnodes]
    exact List.mem_cons_self
  refine ⟨q, c, hreachable, hc, hnodes, hclosed, hclosed.bound "node_x" ?_⟩
  exact .copy (List.mem_map_of_mem hx) ((copies_copyLine_iff (by decide)).2 (by decide))

end NodePipeline

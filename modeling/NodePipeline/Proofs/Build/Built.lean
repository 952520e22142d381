import NodePipeline.Proofs.Build.Places
import NodePipeline.Proofs.Pipeline.Run

/-!
# Results by what they depend on

The path of a node's result is made of the script and the paths of the results that
it depends on. `Built` says which bytes belong to a path: those of the value that
the body has over the values that are read back from the dependencies. If hashes
do not collide, they are the only ones.
-/

namespace NodePipeline

/-! ## Scripts -/

/-- Scripts of the same node with the same dependencies differ in their bodies. -/
theorem script_inj {node : String} {dependencies : List String} {body body' : Body}
    (h : script node dependencies body = script node dependencies body') : body = body' := by
  have hsource : body.source = body'.source := by
    unfold script at h
    have hbody := (String.append_right_inj _).1 ((String.append_left_inj _).1 h)
    simpa [line] using hbody
  cases body
  cases body'
  exact congrArg Body.mk hsource

namespace LocalStore

/-! ## Links -/

theorem link_inj {node node' path path' : String} (h : isIdentifier node = true)
    (h' : isIdentifier node' = true) (heq : link node path = link node' path') :
    node = node' ∧ path = path' := by
  have hchars : node.toList ++ '=' :: path.toList = node'.toList ++ '=' :: path'.toList := by
    simpa [link] using congrArg String.toList heq
  obtain ⟨hnode, hpath⟩ := append_cons_inj_of_notMem
    (notMem_of_isIdentifier h (by decide) (by decide))
    (notMem_of_isIdentifier h' (by decide) (by decide)) hchars
  exact ⟨String.toList_inj.1 hnode, String.toList_inj.1 hpath⟩

/-- Links tell the pairs that they are made of. -/
theorem map_link_inj {outputs outputs' : List (String × String)}
    (h : ∀ o ∈ outputs, isIdentifier o.1 = true) (h' : ∀ o ∈ outputs', isIdentifier o.1 = true)
    (heq : outputs.map (fun o => link o.1 o.2) = outputs'.map fun o => link o.1 o.2) :
    outputs = outputs' := by
  induction outputs generalizing outputs' with
  | nil => exact (List.map_eq_nil_iff.1 heq.symm).symm
  | cons o rest ih =>
      cases outputs' with
      | nil => cases heq
      | cons o' rest' =>
          obtain ⟨hlink, hrest⟩ := List.cons.inj heq
          obtain ⟨hnode, hpath⟩ := link_inj (h o List.mem_cons_self) (h' o' List.mem_cons_self) hlink
          rw [Prod.ext hnode hpath, ih (fun x hx => h x (List.mem_cons_of_mem _ hx))
            (fun x hx => h' x (List.mem_cons_of_mem _ hx)) hrest]

theorem links_inj {names names' : List String} {path path' : String → String}
    (h : ∀ name ∈ names, isIdentifier name = true) (h' : ∀ name ∈ names', isIdentifier name = true)
    (heq : names.map (fun name => link name (path name))
      = names'.map fun name => link name (path' name)) :
    names = names' ∧ ∀ name ∈ names, path name = path' name := by
  have hpairs : names.map (fun name => (name, path name))
      = names'.map fun name => (name, path' name) := by
    refine map_link_inj ?_ ?_ (by simpa [Function.comp_def] using heq)
    · simpa using h
    · simpa using h'
  have hnames : names = names' := by
    simpa [Function.comp_def] using congrArg (List.map Prod.fst) hpairs
  subst hnames
  exact ⟨rfl, fun name hname => congrArg Prod.snd (List.map_inj_left.1 hpairs name hname)⟩

/-! ## Results -/

/-- What the result of a node depends on, given the paths of its dependencies. -/
def resultInputs (node : String) (dependencies : List String) (body : Body)
    (path : String → String) : List String :=
  script node dependencies body :: dependencies.map fun dep => link dep (path dep)

/-- The path is that of a node's result, of known inputs, and the bytes store the value
that the body has where every dependency is what is read back from its own result. -/
inductive Built (s : LocalStore) (known : List String → Prop) : String → Bytes → Prop
  | intro {node : String} {dependencies : List String} {body : Body} {path : String → String}
      {content : String → Bytes} {value : String → Value} {v : Value} {bytes : Bytes}
      (node_identifier : isIdentifier node = true)
      (identifiers : ∀ dep ∈ dependencies, isIdentifier dep = true)
      (known_inputs : known (resultInputs node dependencies body path))
      (built : ∀ dep ∈ dependencies, Built s known (path dep) (content dep))
      (read : ∀ dep ∈ dependencies,
        Value.ofArtifact s.primitives (content dep) = .ok (value dep))
      (evaluated : s.evaluator.evaluate body (overlay .empty dependencies value) = .ok v)
      (stored : v.toArtifact s.primitives = .ok bytes) :
      Built s known
        (s.outputPath (nodeLabel node) (resultInputs node dependencies body path)) bytes

/-- Known inputs with the same digits in their names are the same. -/
def Distinct (s : LocalStore) (known : List String → Prop) : Prop :=
  ∀ inputs inputs', known inputs → known inputs' → s.digest inputs = s.digest inputs' →
    inputs = inputs'

variable {s : LocalStore} {known more : List String → Prop} {path : String} {bytes : Bytes}

theorem Built.mono (h : s.Built known path bytes) (hsub : ∀ inputs, known inputs → more inputs) :
    s.Built more path bytes := by
  induction h with
  | intro hnode hids hknown _ hread hevaluated hstored ih =>
      exact .intro hnode hids (hsub _ hknown) ih hread hevaluated hstored

/-- What a path was built from, given the inputs that it is made of. -/
theorem Built.inv (hspell : s.primitives.SpellsHashes) (hdistinct : s.Distinct known)
    {node : String} {dependencies : List String} {body : Body} {path : String → String}
    (hnode : isIdentifier node = true) (hids : ∀ dep ∈ dependencies, isIdentifier dep = true)
    (hknown : known (resultInputs node dependencies body path))
    (h : s.Built known (s.outputPath (nodeLabel node)
      (resultInputs node dependencies body path)) bytes) :
    ∃ (content : String → Bytes) (value : String → Value) (v : Value),
      (∀ dep ∈ dependencies, s.Built known (path dep) (content dep)) ∧
      (∀ dep ∈ dependencies, Value.ofArtifact s.primitives (content dep) = .ok (value dep)) ∧
      s.evaluator.evaluate body (overlay .empty dependencies value) = .ok v ∧
      v.toArtifact s.primitives = .ok bytes := by
  generalize hout : s.outputPath (nodeLabel node) (resultInputs node dependencies body path) = out
    at h
  cases h with
  | @intro node' dependencies' body' path' content value v _ hnode' hids' hknown' hbuilt hread
      hevaluated hstored =>
      have hname : s.resultName (nodeLabel node) (resultInputs node dependencies body path)
          = s.resultName (nodeLabel node') (resultInputs node' dependencies' body' path') :=
        Path.join_inj (isName_resultName hspell (.node hnode) _)
          (isName_resultName hspell (.node hnode') _) hout
      obtain ⟨hdigest, hlabel⟩ := resultName_inj hspell hname
      obtain rfl := nodeLabel_inj hlabel
      obtain ⟨hscript, hlinks⟩ := List.cons.inj (hdistinct _ _ hknown hknown' hdigest)
      obtain ⟨rfl, hpaths⟩ := links_inj hids hids' hlinks
      obtain rfl := script_inj hscript
      refine ⟨content, value, v, fun dep hdep => ?_, hread, hevaluated, hstored⟩
      rw [hpaths dep hdep]
      exact hbuilt dep hdep

/-- A path belongs to no other bytes. -/
theorem Built.unique (hspell : s.primitives.SpellsHashes) (hdistinct : s.Distinct known)
    {bytes' : Bytes} (h : s.Built known path bytes) (h' : s.Built known path bytes') :
    bytes = bytes' := by
  induction h generalizing bytes' with
  | @intro node dependencies body path content value v bytes hnode hids hknown hbuilt hread
      hevaluated hstored ih =>
      obtain ⟨content', value', v', hbuilt', hread', hevaluated', hstored'⟩ :=
        h'.inv hspell hdistinct hnode hids hknown
      have hvalues : ∀ dep ∈ dependencies, value dep = value' dep := by
        intro dep hdep
        have hread := hread dep hdep
        rw [ih dep hdep (hbuilt' dep hdep), hread' dep hdep] at hread
        exact (Except.ok.inj hread).symm
      rw [overlay_congr hvalues, hevaluated'] at hevaluated
      rw [← Except.ok.inj hevaluated, hstored'] at hstored
      exact (Except.ok.inj hstored).symm

end LocalStore

end NodePipeline

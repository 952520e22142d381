import NodePipeline.Pipeline.Discovery
import NodePipeline.Proofs.Pipeline.Graph

/-!
# Discovery

The map of names to places leads to the skeleton that `Skeleton.build` finds by
searching the declarations. From this: which declaration is the first to be refused
and why, and, if none is, the nodes, their places, and each node's dependencies as
the free references of its body to other nodes.
-/

namespace NodePipeline

/-! ## Names with their places -/

theorem names_zipIdx (names : List String) (place : Nat) :
    Entries.names (names.zipIdx place) = names := List.zipIdx_map_fst place names

theorem find?_zipIdx (names : List String) (place : Nat) (name : String) :
    Entries.find? name (names.zipIdx place)
      = (names.findIdx? (· == name)).map (· + place) := by
  induction names generalizing place with
  | nil => rfl
  | cons n rest ih =>
      rw [List.zipIdx_cons, Entries.find?, List.findIdx?_cons]
      by_cases h : n = name
      · simp [h]
      · rw [if_neg h, if_neg (by simpa using h), ih, Option.map_map]
        congr 1
        funext i
        simp only [Function.comp]
        omega

theorem find?_reverse_zipIdx {names : List String} (h : names.Nodup) (name : String) :
    Entries.find? name names.zipIdx.reverse = names.findIdx? (· == name) := by
  rw [Entries.find?_reverse_of_nodup (by rwa [names_zipIdx]), find?_zipIdx]
  simp

/-- The places of declared names. -/
def positionsOf (names : List String) : Bindings Nat := Bindings.empty.bindAll names.zipIdx

theorem get?_positionsOf {names : List String} (h : names.Nodup) (name : String) :
    (positionsOf names).get? name = names.findIdx? (· == name) := by
  rw [positionsOf, Bindings.get?_bindAll, find?_reverse_zipIdx h, Bindings.get?_empty,
    Option.or_none]

theorem mem_positionsOf {names : List String} (h : names.Nodup) {name : String} :
    name ∈ (positionsOf names).names ↔ name ∈ names := by
  rw [← Bindings.get?_isSome, get?_positionsOf h]
  simp [List.findIdx?_isSome]

/-- Filling the map refuses the declarations that checking their names refuses. -/
theorem placeNames_eq {seen : List String} {positions : Bindings Nat} (place : Nat)
    (ds : List Declaration) (hseen : ∀ name, name ∈ seen ↔ name ∈ positions.names) :
    placeNames place positions ds = (checkNames seen ds).map fun _ =>
      positions.bindAll ((ds.map Declaration.name).zipIdx place) := by
  induction ds generalizing place seen positions with
  | nil => rfl
  | cons d rest ih =>
      have hcontains : positions.contains d.name = decide (d.name ∈ seen) := by
        rw [Bool.eq_iff_iff, decide_eq_true_iff, hseen, Bindings.contains, Bindings.get?_isSome]
      rw [placeNames, checkNames, hcontains]
      by_cases hid : isIdentifier d.name = true
      · by_cases hmem : d.name ∈ seen
        · simp [hid, hmem, Except.map]
        · have hseen' : ∀ name, name ∈ d.name :: seen ↔
              name ∈ (positions.insert d.name place).names := fun name => by
            rw [List.mem_cons, hseen]
            exact (Entries.mem_names_insert ..).symm
          simp only [hid, Bool.not_true, Bool.false_eq_true, if_false, hmem, decide_false,
            ih (place + 1) hseen']
          rfl
      · simp [hid, Except.map]

/-! ## The order of the dependencies -/

theorem placeIn_getElem {names : List String} (h : names.Nodup) {i : Nat}
    (hi : i < names.length) : placeIn (positionsOf names) names[i] = i := by
  rw [placeIn, get?_positionsOf h, findIdx?_getElem h hi]
  rfl

/-- Distinct names stand in their list by their places. -/
theorem places_increase {names : List String} (h : names.Nodup) :
    names.Pairwise fun a b => placeIn (positionsOf names) a < placeIn (positionsOf names) b := by
  rw [List.pairwise_iff_getElem]
  intro i j hi hj hij
  rwa [placeIn_getElem h hi, placeIn_getElem h hj]

theorem placeIn_inj {names : List String} (h : names.Nodup) {a b : String} (ha : a ∈ names)
    (hb : b ∈ names) (hplace : placeIn (positionsOf names) a = placeIn (positionsOf names) b) :
    a = b := by
  obtain ⟨i, hi, rfl⟩ := List.getElem_of_mem ha
  obtain ⟨j, hj, rfl⟩ := List.getElem_of_mem hb
  rw [placeIn_getElem h hi, placeIn_getElem h hj] at hplace
  subst hplace
  rfl

theorem pairwise_sorted_places (positions : Bindings Nat) (names : List String) :
    (names.mergeSort fun a b => placeIn positions a ≤ placeIn positions b).Pairwise
      fun a b => placeIn positions a ≤ placeIn positions b := by
  refine (List.pairwise_mergeSort (fun a b c hab hbc => ?_) (fun a b => ?_) names).imp
    of_decide_eq_true
  · rw [decide_eq_true_eq] at hab hbc ⊢
    exact Nat.le_trans hab hbc
  · simpa using Nat.le_total (placeIn positions a) (placeIn positions b)

/-- Sorting the references by their places gives them in declaration order. -/
theorem discovered_eq_references (ev : Evaluator) {names : List String} (h : names.Nodup)
    (d : Declaration) : d.discovered ev (positionsOf names) = d.references ev names := by
  have hcandidates : NameSet.ofBindings (positionsOf names) = NameSet.ofList names :=
    NameSet.ext fun name => by rw [NameSet.mem_ofBindings, mem_positionsOf h, NameSet.mem_ofList]
  unfold Declaration.discovered Declaration.references
  rw [hcandidates]
  generalize ev.freeReferences d.body (NameSet.ofList names) = refs
  -- Both lists hold the same names once, and both stand by their places.
  have hmem : ∀ name, name ∈ refs.toList.filter (fun r =>
      r != d.name && (positionsOf names).contains r) ↔
      name ∈ names.filter fun name => name != d.name && decide (name ∈ refs) := fun name => by
    simp only [List.mem_filter, Bool.and_eq_true, decide_eq_true_eq, Bindings.contains,
      Bindings.get?_isSome, mem_positionsOf h, NameSet.mem_toList]
    tauto
  have hrefs : refs.toList.Nodup := refs.sorted.imp String.ne_of_lt
  have hperm := (List.mergeSort_perm _ fun a b =>
      decide (placeIn (positionsOf names) a ≤ placeIn (positionsOf names) b)).trans
    ((List.perm_ext_iff_of_nodup (hrefs.filter _) (h.filter _)).2 hmem)
  have hlisted := (places_increase h).filter fun name => name != d.name && decide (name ∈ refs)
  refine hperm.eq_of_pairwise (fun a b ha hb hab hba => ?_) (pairwise_sorted_places _ _)
    (hlisted.imp Nat.le_of_lt)
  exact placeIn_inj h (List.mem_of_mem_filter (hperm.mem_iff.1 ha)) (List.mem_of_mem_filter hb)
    (Nat.le_antisymm hab hba)

namespace Skeleton

/-- Places that are found in the map are those that a search finds. -/
theorem discover_eq_build (ev : Evaluator) (ds : List Declaration) :
    discover ev ds = build ev ds := by
  have hempty : ∀ name, name ∈ ([] : List String) ↔ name ∈ (Bindings.empty : Bindings Nat).names :=
    fun _ => Iff.rfl
  unfold discover build
  rw [placeNames_eq 0 ds hempty]
  cases hcheck : checkNames [] ds with
  | error fault => rfl
  | ok u =>
      have hnodup := (checkNames_eq_ok.1 hcheck).2.1
      have hrefs : ∀ d : Declaration,
          d.discovered ev (Bindings.empty.bindAll ((ds.map Declaration.name).zipIdx))
            = d.references ev (ds.map Declaration.name) :=
        discovered_eq_references ev hnodup
      split
      · rfl
      · show Except.ok (⟨ds.map _⟩ : Skeleton) = .ok ⟨ds.map _⟩
        simp only [hrefs]

theorem get?_index {s : Skeleton} (h : s.names.Nodup) (name : String) :
    s.index.get? name = s.position? name := by
  rw [index, Bindings.get?_ofList, find?_reverse_zipIdx h]
  rfl

end Skeleton

/-! ## The first declaration that is refused -/

def IsAsciiLetter (c : Char) : Prop := ('a' ≤ c ∧ c ≤ 'z') ∨ ('A' ≤ c ∧ c ≤ 'Z')

def IsAsciiDigit (c : Char) : Prop := '0' ≤ c ∧ c ≤ '9'

/-- A letter or an underscore, then letters, digits and underscores. -/
def IsAsciiIdentifier (name : String) : Prop :=
  ∃ c rest, name.toList = c :: rest ∧ (IsAsciiLetter c ∨ c = '_') ∧
    ∀ x ∈ rest, IsAsciiLetter x ∨ IsAsciiDigit x ∨ x = '_'

theorem isAlpha_iff {c : Char} : c.isAlpha = true ↔ IsAsciiLetter c := by
  unfold Char.isAlpha Char.isUpper Char.isLower
  simp only [Bool.or_eq_true, Bool.and_eq_true, decide_eq_true_eq, IsAsciiLetter, Char.le_def]
  exact or_comm

theorem isAlphanum_iff {c : Char} : c.isAlphanum = true ↔ IsAsciiLetter c ∨ IsAsciiDigit c := by
  unfold Char.isAlphanum Char.isDigit
  simp only [Bool.or_eq_true, isAlpha_iff, Bool.and_eq_true, decide_eq_true_eq, IsAsciiDigit,
    Char.le_def]

theorem isIdentifier_iff {name : String} :
    isIdentifier name = true ↔ IsAsciiIdentifier name := by
  unfold isIdentifier IsAsciiIdentifier
  cases name.toList with
  | nil => simp
  | cons c rest =>
      simp [isAlpha_iff, isAlphanum_iff, or_assoc]

/-- The declared names are identifiers, and none comes twice. -/
def Proper (ds : List Declaration) : Prop :=
  (∀ d ∈ ds, IsAsciiIdentifier d.name) ∧ (ds.map Declaration.name).Nodup

theorem checkNames_nil_eq_ok {ds : List Declaration} : checkNames [] ds = .ok () ↔ Proper ds := by
  simp [checkNames_eq_ok, Proper, isIdentifier_iff]

/-- A name is refused after earlier ones: for its characters first, then for its repetition. -/
def Refuses (earlier : List String) (name : String) : DeclarationFault → Prop
  | .noNodes => False
  | .invalidName n => n = name ∧ ¬ IsAsciiIdentifier name
  | .duplicateName n => n = name ∧ IsAsciiIdentifier name ∧ name ∈ earlier

theorem checkNames_of_refuses {seen : List String} {d : Declaration} {fault : DeclarationFault}
    (h : Refuses seen d.name fault) (rest : List Declaration) :
    checkNames seen (d :: rest) = .error fault := by
  cases fault with
  | noNodes => exact h.elim
  | invalidName n =>
      obtain ⟨rfl, hid⟩ := h
      rw [← isIdentifier_iff] at hid
      simp [checkNames, hid]
  | duplicateName n =>
      obtain ⟨rfl, hid, hseen⟩ := h
      rw [← isIdentifier_iff] at hid
      simp [checkNames, hid, hseen]

theorem checkNames_cons_of_mem {seen : List String} {d : Declaration}
    (hid : IsAsciiIdentifier d.name) (hseen : d.name ∉ seen) (rest : List Declaration) :
    checkNames seen (d :: rest) = checkNames (d.name :: seen) rest := by
  rw [← isIdentifier_iff] at hid
  simp [checkNames, hid, hseen]

theorem Refuses.of_subset {earlier earlier' : List String} {name : String}
    {fault : DeclarationFault} (hsub : earlier ⊆ earlier') (h : Refuses earlier name fault) :
    Refuses earlier' name fault := by
  cases fault with
  | noNodes => exact h
  | invalidName n => exact h
  | duplicateName n => exact ⟨h.1, h.2.1, hsub h.2.2⟩

theorem checkNames_append_of_refuses {seen : List String} {before : List Declaration}
    {d : Declaration} {fault : DeclarationFault} (hbefore : checkNames seen before = .ok ())
    (h : Refuses (before.map Declaration.name ++ seen) d.name fault) (after : List Declaration) :
    checkNames seen (before ++ d :: after) = .error fault := by
  induction before generalizing seen with
  | nil => exact checkNames_of_refuses h after
  | cons first before ih =>
      have hall := checkNames_eq_ok.1 hbefore
      have hid : IsAsciiIdentifier first.name := isIdentifier_iff.1 (hall.1 first (by simp))
      have hseen : first.name ∉ seen := hall.2.2 first (by simp)
      rw [checkNames_cons_of_mem hid hseen] at hbefore
      rw [List.cons_append, checkNames_cons_of_mem hid hseen]
      exact ih hbefore (h.of_subset (by grind))

/-- The first name that is refused decides. -/
theorem checkNames_eq_error {seen : List String} {ds : List Declaration}
    {fault : DeclarationFault} :
    checkNames seen ds = .error fault ↔
      ∃ before d after, ds = before ++ d :: after ∧ checkNames seen before = .ok () ∧
        Refuses (before.map Declaration.name ++ seen) d.name fault := by
  constructor
  · intro h
    induction ds generalizing seen with
    | nil => cases h
    | cons d rest ih =>
        by_cases hid : IsAsciiIdentifier d.name
        · by_cases hseen : d.name ∈ seen
          · have hrefused : Refuses seen d.name (.duplicateName d.name) := ⟨rfl, hid, hseen⟩
            rw [checkNames_of_refuses hrefused] at h
            cases h
            exact ⟨[], d, rest, rfl, rfl, hrefused⟩
          · rw [checkNames_cons_of_mem hid hseen] at h
            obtain ⟨before, d', after, rfl, hbefore, hrefused⟩ := ih h
            refine ⟨d :: before, d', after, rfl, ?_, hrefused.of_subset (by grind)⟩
            rwa [checkNames_cons_of_mem hid hseen]
        · have hrefused : Refuses seen d.name (.invalidName d.name) := ⟨rfl, hid⟩
          rw [checkNames_of_refuses hrefused] at h
          cases h
          exact ⟨[], d, rest, rfl, rfl, hrefused⟩
  · rintro ⟨before, d, after, rfl, hbefore, hrefused⟩
    exact checkNames_append_of_refuses hbefore hrefused after

/-! ## What discovery gives -/

/-- The declarations are refused with a code, and with the nodes to blame. -/
def FailsWith (r : Except DeclarationFault Skeleton) (code : String) (nodes : List String) : Prop :=
  ∃ fault, r = .error fault ∧ fault.toValidationError.nodes = nodes ∧
    fault.toValidationError.info.map ErrorInfo.code = some code

theorem code_toValidationError (fault : DeclarationFault) :
    fault.toValidationError.info.map ErrorInfo.code = some fault.code := by
  cases fault <;> rfl

/-- The code and the nodes tell what the fault is. -/
theorem eq_of_code {fault fault' : DeclarationFault} (hcode : fault.code = fault'.code)
    (hnodes : fault.toValidationError.nodes = fault'.toValidationError.nodes) : fault = fault' := by
  cases fault with
  | noNodes =>
      cases fault' with
      | noNodes => rfl
      | _ => simp [DeclarationFault.code] at hcode
  | invalidName n =>
      cases fault' with
      | invalidName n' => exact congrArg _ (List.cons.inj hnodes).1
      | _ => simp [DeclarationFault.code] at hcode
  | duplicateName n =>
      cases fault' with
      | duplicateName n' => exact congrArg _ (List.cons.inj hnodes).1
      | _ => simp [DeclarationFault.code] at hcode

theorem failsWith_code (fault : DeclarationFault) {r : Except DeclarationFault Skeleton} :
    FailsWith r fault.code fault.toValidationError.nodes ↔ r = .error fault := by
  constructor
  · rintro ⟨fault', rfl, hnodes, hcode⟩
    rw [code_toValidationError, Option.some_inj] at hcode
    rw [eq_of_code hcode hnodes]
  · rintro rfl
    exact ⟨fault, rfl, rfl, code_toValidationError fault⟩

namespace Skeleton

/-- The skeleton has the declared nodes in their order, and its edges are the free
references of bodies to the names of other nodes. -/
structure Represents (s : Skeleton) (ev : Evaluator) (ds : List Declaration) : Prop where
  nodes : s.nodes.map (fun node => (node.name, node.body)) = ds.map fun d => (d.name, d.body)
  place : ∀ i d, ds[i]? = some d → s.position? d.name = some i
  noPlace : ∀ name, name ∉ ds.map Declaration.name → s.position? name = none
  index : ∀ name, s.index.get? name = s.position? name
  /-- Dependencies increase strictly in declaration order, so none is listed twice. -/
  increasing : ∀ node ∈ s.nodes, node.dependencies.Pairwise fun a b =>
    ∃ i j, s.position? a = some i ∧ s.position? b = some j ∧ i < j
  references : ∀ node ∈ s.nodes, ∀ m, m ∈ node.dependencies ↔
    m ∈ ds.map Declaration.name ∧ m ≠ node.name ∧
      m ∈ ev.freeReferences node.body (NameSet.ofList (ds.map Declaration.name))

theorem represents_of_build {ev : Evaluator} {ds : List Declaration} {s : Skeleton}
    (h : build ev ds = .ok s) : s.Represents ev ds := by
  have hs := wellFormed_of_build h
  have hnames := names_of_build h
  obtain ⟨-, -, rfl⟩ := build_eq_ok.1 h
  generalize hnodes : (⟨ds.map (vertexOf ev (ds.map Declaration.name))⟩ : Skeleton) = s at *
  constructor
  case nodes =>
    subst hnodes
    simp [vertexOf]
  case place =>
    intro i d hd
    obtain ⟨hi, rfl⟩ := List.getElem?_eq_some_iff.1 hd
    have hi' : i < s.names.length := by rwa [hnames, List.length_map]
    have hname : s.names[i] = ds[i].name := by simp [hnames]
    rw [← hname]
    exact findIdx?_getElem hs.nodup hi'
  case noPlace =>
    intro name hname
    rw [position?, hnames, List.findIdx?_eq_none_iff]
    intro other hother
    have hne : other ≠ name := fun heq => hname (heq ▸ hother)
    simpa using hne
  case index => exact get?_index hs.nodup
  case increasing =>
    intro node hnode
    refine List.Pairwise.sublist (hs.ordered node hnode) (List.pairwise_iff_getElem.2 ?_)
    intro i j hi hj hij
    exact ⟨i, j, findIdx?_getElem hs.nodup hi, findIdx?_getElem hs.nodup hj, hij⟩
  case references =>
    intro node hnode m
    subst hnodes
    obtain ⟨d, hd, rfl⟩ := List.mem_map.1 hnode
    simp [vertexOf, Declaration.references]

theorem discover_eq_noNodes {ev : Evaluator} {ds : List Declaration} :
    discover ev ds = .error .noNodes ↔ ds = [] := by
  rw [discover_eq_build]
  unfold build
  cases ds with
  | nil => simp
  | cons d rest =>
      rw [if_neg (by simp)]
      cases hcheck : checkNames [] (d :: rest) with
      | error fault =>
          obtain ⟨_, _, _, -, -, hrefused⟩ := checkNames_eq_error.1 hcheck
          have hne : fault ≠ .noNodes := by
            rintro rfl
            exact hrefused
          simpa [bind, Except.bind] using hne
      | ok u => simp [bind, Except.bind, pure, Except.pure]

theorem discover_eq_error {ev : Evaluator} {ds : List Declaration} {fault : DeclarationFault}
    (hfault : fault ≠ .noNodes) :
    discover ev ds = .error fault ↔ ∃ before d after, ds = before ++ d :: after ∧
      Proper before ∧ Refuses (before.map Declaration.name) d.name fault := by
  have hcheck : discover ev ds = .error fault ↔ checkNames [] ds = .error fault := by
    rw [discover_eq_build]
    unfold build
    cases ds with
    | nil => simpa [checkNames] using hfault.symm
    | cons d rest =>
        rw [if_neg (by simp)]
        cases hcheck : checkNames [] (d :: rest) with
        | error fault' => simp [bind, Except.bind]
        | ok u => simp [bind, Except.bind, pure, Except.pure]
  rw [hcheck, checkNames_eq_error]
  simp only [checkNames_nil_eq_ok, List.append_nil]

/-- **The graph of declarations is the relation of their free references.** An empty
list is refused; otherwise the first declaration decides whose name is no identifier
or repeats an earlier one; and if there is none, the nodes, their places and their
dependencies are those that the declarations have. -/
theorem discover_finds_the_references (ev : Evaluator) (ds : List Declaration) :
    discover ev ds = build ev ds ∧
    (FailsWith (discover ev ds) "PIPELINE-EMPTY" [] ↔ ds = []) ∧
    (∀ name, FailsWith (discover ev ds) "PIPELINE-INVALID-NAME" [name] ↔
      ∃ before d after, ds = before ++ d :: after ∧ Proper before ∧ d.name = name ∧
        ¬ IsAsciiIdentifier name) ∧
    (∀ name, FailsWith (discover ev ds) "PIPELINE-DUPLICATE" [name] ↔
      ∃ before d after, ds = before ++ d :: after ∧ Proper before ∧ d.name = name ∧
        IsAsciiIdentifier name ∧ name ∈ before.map Declaration.name) ∧
    (ds ≠ [] ∧ Proper ds ↔ ∃ s, discover ev ds = .ok s ∧ s.Represents ev ds) := by
  refine ⟨discover_eq_build ev ds, ?_, fun name => ?_, fun name => ?_, ?_⟩
  · exact (failsWith_code .noNodes).trans discover_eq_noNodes
  · refine (failsWith_code (.invalidName name)).trans ?_
    rw [discover_eq_error (by simp)]
    simp only [Refuses]
    grind
  · refine (failsWith_code (.duplicateName name)).trans ?_
    rw [discover_eq_error (by simp)]
    simp only [Refuses]
    grind
  · constructor
    · rintro ⟨hne, hproper⟩
      have hbuild : build ev ds = .ok _ :=
        build_eq_ok.2 ⟨hne, checkNames_nil_eq_ok.2 hproper, rfl⟩
      exact ⟨_, (discover_eq_build ev ds).trans hbuild, represents_of_build hbuild⟩
    · rintro ⟨s, hs, -⟩
      rw [discover_eq_build] at hs
      obtain ⟨hne, hcheck, -⟩ := build_eq_ok.1 hs
      exact ⟨hne, checkNames_nil_eq_ok.1 hcheck⟩

end Skeleton

end NodePipeline

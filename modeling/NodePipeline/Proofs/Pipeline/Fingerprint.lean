import NodePipeline.Proofs.Expr.FreeNames
import NodePipeline.Proofs.Pipeline.Run
import NodePipeline.Proofs.Value.Encoding

/-!
# What fingerprints cover

A fingerprint is the hash of a message that lists the fingerprints of the
dependencies and the digests of the names that are read from outside. The message
determines both lists. `Skeleton.hashed` collects the messages and the encodings
that a fresh run hashes; laws that need a hash without collisions need it for
these byte strings only.
-/

namespace NodePipeline

/-! ## Messages -/

theorem lookupAll_eq_some {find : String → Option String} {names : List String}
    {pairs : List (String × String)} :
    lookupAll find names = some pairs ↔
      pairs.map Prod.fst = names ∧ ∀ pair ∈ pairs, find pair.1 = some pair.2 := by
  induction names generalizing pairs with
  | nil =>
      simp only [lookupAll, Option.some.injEq, List.map_eq_nil_iff]
      constructor
      · rintro rfl
        exact ⟨rfl, by simp⟩
      · rintro ⟨rfl, -⟩
        rfl
  | cons name rest ih =>
      simp only [lookupAll, Option.bind_eq_bind, Option.bind_eq_some_iff, Option.pure_def,
        Option.some.injEq, ih]
      constructor
      · rintro ⟨found, hfound, more, ⟨hmore, hall⟩, rfl⟩
        refine ⟨by rw [List.map_cons, hmore], ?_⟩
        intro pair hpair
        rcases List.mem_cons.1 hpair with rfl | hpair
        · exact hfound
        · exact hall pair hpair
      · rintro ⟨hnames, hall⟩
        cases pairs with
        | nil => simp at hnames
        | cons pair more =>
            obtain ⟨rfl, hmore⟩ := List.cons.inj hnames
            exact ⟨pair.2, hall pair List.mem_cons_self, more,
              ⟨hmore, fun other hother => hall other (List.mem_cons_of_mem _ hother)⟩, rfl⟩

theorem lookupAll_congr {find find' : String → Option String} {names : List String}
    (h : ∀ name ∈ names, find name = find' name) : lookupAll find names = lookupAll find' names := by
  induction names with
  | nil => rfl
  | cons name rest ih =>
      rw [lookupAll, lookupAll, h name List.mem_cons_self,
        ih fun n hn => h n (List.mem_cons_of_mem _ hn)]

theorem exists_lookupAll {find : String → Option String} {names : List String}
    (h : ∀ name ∈ names, ∃ found, find name = some found) :
    ∃ pairs, lookupAll find names = some pairs := by
  refine ⟨names.map fun name => (name, (find name).getD ""), ?_⟩
  refine lookupAll_eq_some.2 ⟨by simp [Function.comp_def], fun pair hpair => ?_⟩
  obtain ⟨name, hname, rfl⟩ := List.mem_map.1 hpair
  obtain ⟨found, hfind⟩ := h name hname
  rw [hfind]
  rfl

/-- Two lookups list the same if they are for the same names and find the same for each. -/
theorem exists_lookupAll_iff {find find' : String → Option String} {names names' : List String} :
    (∃ pairs, lookupAll find names = some pairs ∧ lookupAll find' names' = some pairs) ↔
      names = names' ∧
        ∀ name ∈ names, ∃ found, find name = some found ∧ find' name = some found := by
  constructor
  · rintro ⟨pairs, hpairs, hpairs'⟩
    obtain ⟨rfl, hall⟩ := lookupAll_eq_some.1 hpairs
    obtain ⟨rfl, hall'⟩ := lookupAll_eq_some.1 hpairs'
    refine ⟨rfl, fun name hname => ?_⟩
    obtain ⟨pair, hpair, rfl⟩ := List.mem_map.1 hname
    exact ⟨pair.2, hall pair hpair, hall' pair hpair⟩
  · rintro ⟨rfl, h⟩
    obtain ⟨pairs, hpairs⟩ := exists_lookupAll fun name hname => (h name hname).imp fun _ => And.left
    have hsame : ∀ name ∈ names, find' name = find name := by
      intro name hname
      obtain ⟨found, hfind, hfind'⟩ := h name hname
      rw [hfind, hfind']
    exact ⟨pairs, hpairs, lookupAll_congr hsame ▸ hpairs⟩

/-- Names and digests whose lengths fit into eight bytes. -/
def ShortPairs (pairs : List (String × String)) : Prop :=
  ∀ pair ∈ pairs, pair.1.utf8ByteSize < 2 ^ 64 ∧ pair.2.utf8ByteSize < 2 ^ 64

theorem ShortPairs.tail {pair : String × String} {rest : List (String × String)}
    (h : ShortPairs (pair :: rest)) : ShortPairs rest :=
  fun other hother => h other (List.mem_cons_of_mem _ hother)

theorem fingerprintPart_append {mark : String} {a b : String × String} {r r' : Bytes}
    (ha : a.1.utf8ByteSize < 2 ^ 64 ∧ a.2.utf8ByteSize < 2 ^ 64)
    (hb : b.1.utf8ByteSize < 2 ^ 64 ∧ b.2.utf8ByteSize < 2 ^ 64)
    (h : fingerprintPart mark a ++ r = fingerprintPart mark b ++ r') : a = b ∧ r = r' := by
  unfold fingerprintPart at h
  simp only [List.append_assoc] at h
  obtain ⟨hname, hmore⟩ := Value.textBytes_append ha.1 hb.1 (List.append_cancel_left h)
  obtain ⟨hdigest, hrest⟩ := Value.textBytes_append ha.2 hb.2 hmore
  exact ⟨Prod.ext hname hdigest, hrest⟩

theorem fingerprintParts_inj {mark : String} {as bs : List (String × String)}
    (hmark : Bytes.ofString mark ≠ []) (has : ShortPairs as) (hbs : ShortPairs bs)
    (h : as.flatMap (fingerprintPart mark) = bs.flatMap (fingerprintPart mark)) : as = bs := by
  induction as generalizing bs with
  | nil =>
      cases bs with
      | nil => rfl
      | cons b rest => simp [fingerprintPart, hmark] at h
  | cons a rest ih =>
      cases bs with
      | nil => simp [fingerprintPart, hmark] at h
      | cons b more =>
          rw [List.flatMap_cons, List.flatMap_cons] at h
          obtain ⟨rfl, hrest⟩ :=
            fingerprintPart_append (has a List.mem_cons_self) (hbs b List.mem_cons_self) h
          rw [ih has.tail hbs.tail hrest]

/-- The marks differ in their first bytes, so that the dependencies end where the
names from outside begin. -/
theorem fingerprintMarks_ne {a b : String × String} {r r' : Bytes} :
    fingerprintPart "dep" a ++ r ≠ fingerprintPart "env" b ++ r' := by
  intro h
  have hdep : Bytes.ofString "dep" = 100 :: Bytes.ofString "ep" := by decide +kernel
  have henv : Bytes.ofString "env" = 101 :: Bytes.ofString "nv" := by decide +kernel
  rw [fingerprintPart, fingerprintPart, hdep, henv] at h
  exact absurd (List.cons.inj h).1 (by decide)

/-- A message determines what it lists. -/
theorem fingerprintBytes_inj {body : Body} {deps deps' ext ext' : List (String × String)}
    (hdeps : ShortPairs deps) (hdeps' : ShortPairs deps') (hext : ShortPairs ext)
    (hext' : ShortPairs ext')
    (h : fingerprintBytes body deps ext = fingerprintBytes body deps' ext') :
    deps = deps' ∧ ext = ext' := by
  unfold fingerprintBytes at h
  simp only [List.append_assoc] at h
  replace h := List.append_cancel_left (List.append_cancel_left h)
  have hmark : Bytes.ofString "env" ≠ [] := by decide +kernel
  induction deps generalizing deps' with
  | nil =>
      cases deps' with
      | nil => exact ⟨rfl, fingerprintParts_inj hmark hext hext' h⟩
      | cons d rest =>
          rw [List.flatMap_nil, List.nil_append, List.flatMap_cons, List.append_assoc] at h
          cases ext with
          | nil => simp [fingerprintPart, show Bytes.ofString "dep" ≠ [] by decide +kernel] at h
          | cons e more => exact absurd h.symm fingerprintMarks_ne
  | cons d rest ih =>
      rw [List.flatMap_cons, List.append_assoc] at h
      cases deps' with
      | nil =>
          rw [List.flatMap_nil, List.nil_append] at h
          cases ext' with
          | nil => simp [fingerprintPart, show Bytes.ofString "dep" ≠ [] by decide +kernel] at h
          | cons e more => exact absurd h fingerprintMarks_ne
      | cons d' rest' =>
          rw [List.flatMap_cons, List.append_assoc] at h
          obtain ⟨rfl, hrest⟩ :=
            fingerprintPart_append (hdeps d List.mem_cons_self) (hdeps' d' List.mem_cons_self) h
          obtain ⟨rfl, rfl⟩ := ih hdeps.tail hdeps'.tail hrest
          exact ⟨rfl, rfl⟩

/-! ## What a run hashes -/

namespace RunContext

variable {ctx : RunContext} {outer : NameSet} {done : List (Node Value)} {node : Vertex}

/-- The digest of what the enclosing environment binds to a name. -/
def digestOf (ctx : RunContext) (name : String) : Option String :=
  (ctx.enclosing.get? name).bind (·.digest ctx.primitives)

/-- The message that a node's fingerprint is the hash of. -/
def messageOf (ctx : RunContext) (outer : NameSet) (done : List (Node Value)) (node : Vertex) :
    Option Bytes := do
  let dependencies ←
    lookupAll (fun name => (finished? done name).bind Node.fingerprint) node.dependencies
  let digests ← lookupAll ctx.digestOf (ctx.externalOf outer node)
  return fingerprintBytes node.body dependencies digests

theorem printOf_eq_map :
    ctx.printOf outer done node = (ctx.messageOf outer done node).map ctx.primitives.hash := by
  unfold printOf messageOf fingerprint digestOf
  cases lookupAll (fun name => (finished? done name).bind Node.fingerprint) node.dependencies with
  | none => rfl
  | some dependencies =>
      cases lookupAll (fun name => (ctx.enclosing.get? name).bind (·.digest ctx.primitives))
          (ctx.externalOf outer node) with
      | none => rfl
      | some digests => rfl

/-- The encodings of what a node reads from outside, and its message. -/
def hashedFor (ctx : RunContext) (outer : NameSet) (done : List (Node Value)) (node : Vertex) :
    List Bytes :=
  (ctx.externalOf outer node).filterMap (fun name =>
      (ctx.enclosing.get? name).bind (·.encoding ctx.primitives.writeTable))
    ++ (ctx.messageOf outer done node).toList

/-- What the steps for the given nodes hash. -/
def hashed (ctx : RunContext) (outer : NameSet) : List Vertex → List (Node Value) → List Bytes
  | [], _ => []
  | node :: rest, done =>
      ctx.hashedFor outer done node ++
        match (ctx.step outer done node).2 with
        | .ok finished => ctx.hashed outer rest (done ++ [finished])
        | .error _ => []

theorem hashedFor_subset {rest : List Vertex} :
    ∀ m ∈ ctx.hashedFor outer done node, m ∈ ctx.hashed outer (node :: rest) done :=
  fun _ hm => List.mem_append_left _ hm

theorem hashed_cons_subset {rest : List Vertex} {finished : Node Value}
    (h : (ctx.step outer done node).2 = .ok finished) :
    ∀ m ∈ ctx.hashed outer rest (done ++ [finished]), m ∈ ctx.hashed outer (node :: rest) done := by
  intro m hm
  rw [hashed, h]
  exact List.mem_append_right _ hm

theorem messageOf_mem_hashedFor {m : Bytes} (h : ctx.messageOf outer done node = some m) :
    m ∈ ctx.hashedFor outer done node := by
  refine List.mem_append_right _ ?_
  rw [h]
  exact List.mem_singleton.2 rfl

theorem encoding_mem_hashedFor {name : String} {v : Value} {m : Bytes}
    (hname : name ∈ ctx.externalOf outer node) (hv : ctx.enclosing.get? name = some v)
    (hm : v.encoding ctx.primitives.writeTable = some m) : m ∈ ctx.hashedFor outer done node := by
  refine List.mem_append_left _ (List.mem_filterMap.2 ⟨name, hname, ?_⟩)
  rw [hv]
  exact hm

/-- The parts of a node's message. -/
theorem messageOf_eq_some {m : Bytes} :
    ctx.messageOf outer done node = some m ↔ ∃ dependencies digests,
      lookupAll (fun name => (finished? done name).bind Node.fingerprint) node.dependencies
        = some dependencies ∧
      lookupAll ctx.digestOf (ctx.externalOf outer node) = some digests ∧
      m = fingerprintBytes node.body dependencies digests := by
  simp only [messageOf, Option.bind_eq_bind, Option.bind_eq_some_iff, Option.pure_def,
    Option.some.injEq]
  constructor
  · rintro ⟨dependencies, hdeps, digests, hdigests, rfl⟩
    exact ⟨dependencies, digests, hdeps, hdigests, rfl⟩
  · rintro ⟨dependencies, digests, hdeps, hdigests, rfl⟩
    exact ⟨dependencies, hdeps, digests, hdigests, rfl⟩

/-- What a node's message lists has lengths that fit into eight bytes. -/
structure ShortMessage (ctx : RunContext) (outer : NameSet) (done : List (Node Value))
    (node : Vertex) : Prop where
  dependencies : ∀ pairs, lookupAll (fun name => (finished? done name).bind Node.fingerprint)
    node.dependencies = some pairs → ShortPairs pairs
  digests : ∀ pairs,
    lookupAll ctx.digestOf (ctx.externalOf outer node) = some pairs → ShortPairs pairs

/-- **What a message stands for.** A node has the same message in two runs if each dependency has
the same fingerprint in both, and the same names are read from outside and have the same digests
in both. -/
theorem exists_message_iff {ctx' : RunContext} {outer' : NameSet} {done' : List (Node Value)}
    (hshort : ctx.ShortMessage outer done node) (hshort' : ctx'.ShortMessage outer' done' node) :
    (∃ m, ctx.messageOf outer done node = some m ∧ ctx'.messageOf outer' done' node = some m) ↔
      (∀ d ∈ node.dependencies, ∃ print, (finished? done d).bind Node.fingerprint = some print ∧
        (finished? done' d).bind Node.fingerprint = some print) ∧
      ctx.externalOf outer node = ctx'.externalOf outer' node ∧
      ∀ name ∈ ctx.externalOf outer node, ∃ digest,
        ctx.digestOf name = some digest ∧ ctx'.digestOf name = some digest := by
  constructor
  · rintro ⟨m, hm, hm'⟩
    obtain ⟨deps, digests, hdeps, hdigests, rfl⟩ := messageOf_eq_some.1 hm
    obtain ⟨deps', digests', hdeps', hdigests', heq⟩ := messageOf_eq_some.1 hm'
    obtain ⟨rfl, rfl⟩ := fingerprintBytes_inj (hshort.dependencies deps hdeps)
      (hshort'.dependencies deps' hdeps') (hshort.digests digests hdigests)
      (hshort'.digests digests' hdigests') heq
    exact ⟨(exists_lookupAll_iff.1 ⟨deps, hdeps, hdeps'⟩).2,
      exists_lookupAll_iff.1 ⟨digests, hdigests, hdigests'⟩⟩
  · rintro ⟨hprints, hexternal⟩
    obtain ⟨deps, hdeps, hdeps'⟩ := exists_lookupAll_iff.2 ⟨rfl, hprints⟩
    obtain ⟨digests, hdigests, hdigests'⟩ := exists_lookupAll_iff.2 hexternal
    exact ⟨_, messageOf_eq_some.2 ⟨deps, digests, hdeps, hdigests, rfl⟩,
      messageOf_eq_some.2 ⟨deps, digests, hdeps', hdigests', rfl⟩⟩

end RunContext

/-- The byte strings that a fresh run hashes. -/
def Skeleton.hashed (s : Skeleton) (p : Primitives) (ev : Evaluator) (enclosing : Environment) :
    List Bytes :=
  (⟨p, ev, enclosing, none⟩ : RunContext).hashed (outerNames enclosing s) s.order []

end NodePipeline

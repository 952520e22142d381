import NodePipeline.Proofs.Expr.Recognition
import NodePipeline.Proofs.Expr.Words
import NodePipeline.Proofs.Pipeline.Rerun
import NodePipeline.Proofs.Text.Blank

/-!
# Names of nodes

A block accepts as names of its nodes the texts that are one word. Those of them that are
not reserved are the names that bodies refer to: another node with such a name as its body
depends on the node and has its value. A node with a reserved word as its name is accepted
too, but no node depends on it.
-/

namespace NodePipeline

open NodePipeline.Expr (reservedWords references)

/-! ## Identifiers are words -/

/-- The text is one token, a name or a reserved word. -/
def IsWord (text : String) : Prop :=
  ∃ t, Expr.tokens text.toList = .ok [t] ∧ t.lexeme.isWord = true ∧ t.text = text.toList

theorem isIdentifier_iff_spellsWord {name : String} :
    isIdentifier name = true ↔ Expr.SpellsWord name.toList := by
  unfold isIdentifier Expr.SpellsWord
  cases name.toList with
  | nil => simp
  | cons c rest => simp [Expr.isNameStart, Expr.isNamePart]

theorem isIdentifier_iff_isWord {name : String} : isIdentifier name = true ↔ IsWord name := by
  rw [isIdentifier_iff_spellsWord]
  constructor
  · exact fun h => ⟨_, Expr.tokens_of_spellsWord h, Expr.isWord_wordLexeme _, rfl⟩
  · rintro ⟨t, htokens, hword, htext⟩
    exact Expr.spellsWord_of_tokens htokens hword htext

/-- A name that is not reserved is an expression. -/
theorem parse_of_isIdentifier {name : String} (h : isIdentifier name = true)
    (hfree : name ∉ reservedWords) : Expr.parse name = .ok (.var name) := by
  have htokens := Expr.tokens_of_spellsWord (isIdentifier_iff_spellsWord.1 h)
  have hlexeme : Expr.wordLexeme name.toList = .name name :=
    Expr.wordLexeme_eq_name.2 ⟨String.ofList_toList, hfree⟩
  rw [hlexeme] at htokens
  have hderives : Expr.Derives .expr
      ([⟨.name name, [], name.toList⟩].map Expr.Token.lexeme) (.var name) :=
    .sum (.product (.unary (.applied (.primary .var))))
  obtain ⟨e, hparse, he⟩ := Expr.parseTokens_of_derives hderives
  rw [Expr.parse_of_tokens htokens, hparse]
  cases e with
  | var n =>
      obtain rfl := Expr.var.inj he
      rfl
  | _ => cases he

theorem references_of_isIdentifier {name : String} (h : isIdentifier name = true)
    (hfree : name ∉ reservedWords) : references ⟨name⟩ = [name] := by
  unfold references
  rw [parse_of_isIdentifier h hfree]
  rfl

theorem evaluate_of_isIdentifier {name : String} (h : isIdentifier name = true)
    (hfree : name ∉ reservedWords) {depth : Nat} (hdepth : 0 < depth) {env : Environment}
    {v : Value} (hv : env.get? name = some v) : Expr.evaluate depth ⟨name⟩ env = .ok v := by
  obtain ⟨depth, rfl⟩ := Nat.exists_eq_add_one.2 hdepth
  unfold Expr.evaluate Expr.evalBody
  rw [parse_of_isIdentifier h hfree]
  simp only [Expr.eval, hv]
  rfl

/-- A name is kept as a body. -/
theorem ofText_of_isIdentifier {name : String} (h : isIdentifier name = true) :
    Body.ofText name = ⟨name⟩ := by
  have hparts : ∀ c ∈ name.toList, Text.isBlank c = false := by
    obtain ⟨c, rest, hname, hstart, hrest⟩ := isIdentifier_iff_spellsWord.1 h
    rw [hname]
    intro x hx
    rcases List.mem_cons.1 hx with rfl | hx
    · exact Expr.isBlank_of_isNamePart (Expr.isNamePart_of_isNameStart hstart)
    · exact Expr.isBlank_of_isNamePart (hrest x hx)
  have htrim := Text.trim_of_trimmed (Text.trimmed_of_forall hparts)
  rw [String.ofList_toList] at htrim
  rw [Body.ofText, htrim]

/-! ## A node that names another one -/

/-- A node, and another one whose body is the first one's name. -/
def readingBlock (a b : String) : List Declaration := [⟨a, .ofText "1"⟩, ⟨b, .ofText a⟩]

/-- The nodes of the block, if the body is read as the name. -/
def readingSkeleton (a b : String) : Skeleton := ⟨[⟨a, ⟨"1"⟩, []⟩, ⟨b, ⟨a⟩, [a]⟩]⟩

theorem evaluate_one {depth : Nat} (hdepth : 0 < depth) (env : Environment) :
    Expr.evaluate depth ⟨"1"⟩ env = .ok (.int 1) := by
  have hparse : Expr.parse "1" = .ok (.literal (.int 1)) := by cbv
  obtain ⟨depth, rfl⟩ := Nat.exists_eq_add_one.2 hdepth
  unfold Expr.evaluate Expr.evalBody
  rw [hparse]
  rfl

section Reading

variable {a b : String} (ha : isIdentifier a = true) (hb : isIdentifier b = true) (hne : a ≠ b)

include hne in
theorem acyclic_readingSkeleton : (readingSkeleton a b).Acyclic := by
  have honly : ∀ {x y}, (readingSkeleton a b).DependsOn x y → x = b ∧ y = a := by
    intro x y h
    obtain ⟨node, hnode, rfl, hy⟩ := Skeleton.dependsOn_elim h
    rcases List.mem_cons.1 hnode with rfl | hnode
    · cases hy
    · obtain rfl := List.mem_singleton.1 hnode
      exact ⟨rfl, List.mem_singleton.1 hy⟩
  intro x hloop
  obtain ⟨_, hfirst, _⟩ := Relation.TransGen.head'_iff.1 hloop
  obtain ⟨_, _, hlast⟩ := Relation.TransGen.tail'_iff.1 hloop
  exact hne ((honly hlast).2.symm.trans (honly hfirst).1)

include ha hb hne

theorem build_readingBlock (hfree : a ∉ reservedWords) (depth : Nat) :
    Skeleton.build (Expr.evaluator depth) (readingBlock a b) = .ok (readingSkeleton a b) := by
  have hone : Body.ofText "1" = ⟨"1"⟩ := by decide
  have hnone : references ⟨"1"⟩ = [] := by cbv
  have hrefs := references_of_isIdentifier ha hfree
  have hreads := (Expr.evaluator_reads depth).mem_freeReferences
  unfold readingBlock readingSkeleton
  rw [hone, ofText_of_isIdentifier ha]
  refine Skeleton.build_eq_ok.2 ⟨List.cons_ne_nil _ _, checkNames_eq_ok.2 ⟨?_, ?_, ?_⟩, ?_⟩
  · simp [ha, hb]
  · simp [hne]
  · simp
  · simp [Skeleton.vertexOf, Declaration.references, hreads, hnone, hrefs, hne]

theorem run_readingBlock (hfree : a ∉ reservedWords) {depth : Nat} (hdepth : 0 < depth)
    (p : Primitives) (enclosing : Environment) :
    ∃ q, (evaluateBlock p (Expr.evaluator depth) enclosing (readingBlock a b)).result = .ok q ∧
      q.value b = .ok (.int 1) := by
  have hbuild := build_readingBlock ha hb hne hfree depth
  have hwell := Skeleton.wellFormed_of_build hbuild
  have hsolves : (readingSkeleton a b).Solves (Expr.evaluator depth) enclosing
      (fun _ => .int 1) := by
    intro node hnode
    rcases List.mem_cons.1 hnode with rfl | hnode
    · exact evaluate_one hdepth _
    · obtain rfl := List.mem_singleton.1 hnode
      refine evaluate_of_isIdentifier ha hfree hdepth ?_
      rw [get?_overlay, if_pos (List.mem_singleton_self a)]
  obtain ⟨q, hq, houtline, -⟩ :=
    Skeleton.run_of_solves (p := p) hwell (acyclic_readingSkeleton hne) hsolves
  have hmem : (⟨b, ⟨a⟩, [a]⟩ : Vertex) ∈ (readingSkeleton a b).nodes := .tail _ (.head _)
  refine ⟨q, ?_, value_of_outline (v := fun _ => .int 1) hwell houtline hmem⟩
  rw [evaluateBlock, hbuild]
  exact hq

end Reading

/-! ## Accepted names -/

theorem exists_build_iff {ev : Evaluator} {ds : List Declaration} :
    (∃ s, Skeleton.build ev ds = .ok s) ↔
      ds ≠ [] ∧ (∀ d ∈ ds, IsWord d.name) ∧ (ds.map Declaration.name).Nodup := by
  simp only [Skeleton.build_eq_ok, checkNames_eq_ok, isIdentifier_iff_isWord]
  constructor
  · rintro ⟨s, hne, ⟨hwords, hnodup, -⟩, -⟩
    exact ⟨hne, hwords, hnodup⟩
  · rintro ⟨hne, hwords, hnodup⟩
    exact ⟨_, hne, ⟨hwords, hnodup, fun _ _ => List.not_mem_nil⟩, rfl⟩

theorem build_eq_invalidName_iff {ev : Evaluator} {name : String} {body : Body} :
    Skeleton.build ev [⟨name, body⟩] = .error (.invalidName name) ↔ ¬IsWord name := by
  rw [← isIdentifier_iff_isWord, Bool.not_eq_true]
  cases hname : isIdentifier name <;>
    simp [Skeleton.build, checkNames, hname, bind, Except.bind, pure, Except.pure]

/-- **Names are words.** Whatever the language of the bodies, a block is accepted if it has
nodes, their names differ and each is one word. If the word is not reserved, another node
refers to the node by its name: with the name as its body it depends on the node and has
its value. No node depends on a node with a reserved name. -/
theorem accepted_names_are_words :
    (∀ (ev : Evaluator) (ds : List Declaration), (∃ s, Skeleton.build ev ds = .ok s) ↔
      ds ≠ [] ∧ (∀ d ∈ ds, IsWord d.name) ∧ (ds.map Declaration.name).Nodup) ∧
    (∀ (ev : Evaluator) (name : String) (body : Body),
      Skeleton.build ev [⟨name, body⟩] = .error (.invalidName name) ↔ ¬IsWord name) ∧
    (∀ a b : String, IsWord a → IsWord b → a ≠ b → a ∉ reservedWords → ∀ depth : Nat, 0 < depth →
      (∃ s, Skeleton.build (Expr.evaluator depth) (readingBlock a b) = .ok s ∧
        s.dependencies b = [a]) ∧
      ∀ (p : Primitives) (enclosing : Environment), ∃ q,
        (evaluateBlock p (Expr.evaluator depth) enclosing (readingBlock a b)).result = .ok q ∧
          q.value b = .ok (.int 1)) ∧
    ∀ (depth : Nat) (ds : List Declaration) (s : Skeleton),
      Skeleton.build (Expr.evaluator depth) ds = .ok s →
        ∀ a ∈ reservedWords, ∀ name, ¬s.DependsOn name a := by
  refine ⟨fun _ _ => exists_build_iff, fun _ _ _ => build_eq_invalidName_iff, ?_, ?_⟩
  · intro a b ha hb hne hfree depth hdepth
    rw [← isIdentifier_iff_isWord] at ha hb
    have hbuild := build_readingBlock ha hb hne hfree depth
    have hmem : (⟨b, ⟨a⟩, [a]⟩ : Vertex) ∈ (readingSkeleton a b).nodes := .tail _ (.head _)
    exact ⟨⟨_, hbuild, Skeleton.dependencies_of_mem (Skeleton.wellFormed_of_build hbuild) hmem⟩,
      run_readingBlock ha hb hne hfree hdepth⟩
  · intro depth ds s hbuild a hreserved name hdepends
    obtain ⟨node, hnode, -, hdep⟩ := Skeleton.dependsOn_elim hdepends
    obtain ⟨-, -, href⟩ :=
      (Skeleton.mem_dependencies_of_build (Expr.evaluator_reads depth) hbuild hnode a).1 hdep
    exact Expr.notMem_reservedWords_of_references href hreserved

/-- A name may begin like a reserved word, and what reads it may be named by one. -/
theorem letter_is_read_by_in :
    IsWord "letter" ∧ IsWord "in" ∧ "letter" ≠ "in" ∧ "letter" ∉ reservedWords ∧
    (∃ s, Skeleton.build (Expr.evaluator Expr.defaultDepth) (readingBlock "letter" "in") = .ok s ∧
      s.dependencies "in" = ["letter"]) ∧
    ∀ (p : Primitives) (enclosing : Environment), ∃ q,
      (evaluateBlock p (Expr.evaluator Expr.defaultDepth) enclosing
        (readingBlock "letter" "in")).result = .ok q ∧ q.value "in" = .ok (.int 1) := by
  have hletter : IsWord "letter" := isIdentifier_iff_isWord.1 (by decide)
  have hin : IsWord "in" := isIdentifier_iff_isWord.1 (by decide)
  have hne : "letter" ≠ "in" := by decide
  have hfree : "letter" ∉ reservedWords := by decide
  exact ⟨hletter, hin, hne, hfree,
    accepted_names_are_words.2.2.1 "letter" "in" hletter hin hne hfree Expr.defaultDepth
      (by decide)⟩

/-- A reserved word is accepted as a name, but it is no name of the language, and a node
with it as the body reads nothing. -/
theorem let_is_accepted_and_never_read :
    (∃ s, Skeleton.build (Expr.evaluator Expr.defaultDepth) [⟨"let", .ofText "1"⟩] = .ok s) ∧
    ¬(∃ t name, Expr.tokens "let".toList = .ok [t] ∧ t.lexeme = .name name ∧
      t.text = "let".toList) ∧
    ∃ s, Skeleton.build (Expr.evaluator Expr.defaultDepth) (readingBlock "let" "b") = .ok s ∧
      s.dependencies "b" = [] := by
  have hlet : IsWord "let" := isIdentifier_iff_isWord.1 (by decide)
  refine ⟨exists_build_iff.2 ⟨by simp, by simpa using hlet, by simp⟩, ?_, ?_⟩
  · rintro ⟨t, name, htokens, hlexeme, -⟩
    have hword : Expr.tokens "let".toList = .ok [⟨.letWord, [], "let".toList⟩] := by cbv
    obtain rfl : ⟨.letWord, [], "let".toList⟩ = t := by
      simpa using hword.symm.trans htokens
    cases hlexeme
  · exact ⟨⟨[⟨"let", ⟨"1"⟩, []⟩, ⟨"b", ⟨"let"⟩, []⟩]⟩, by cbv, by decide⟩

end NodePipeline

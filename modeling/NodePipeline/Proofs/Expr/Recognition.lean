import NodePipeline.Expr.Language
import NodePipeline.Proofs.Expr.Grammar
import NodePipeline.Proofs.Expr.Parsing

/-!
# Every derivation is found

Whatever the rules of the grammar derive from lexemes, the parser makes of tokens with
these lexemes, if the depth suffices and nothing follows that it would go on with. A
chain is found by what is still to be read of it, since the parser reads it from
its left end and the rules build it at its right end. With the tokens of a source this
decides which sources parse, and to what.
-/

namespace NodePipeline.Expr

variable {α β γ : Type} {ts more rest : List Token} {a : α} {b : β} {c : γ} {e : Expr}

/-! ## Reading with enough depth -/

/-- With enough depth the level reads `a` and leaves the rest. -/
def Reads (level : Level α) (ts : List Token) (a : α) (rest : List Token) : Prop :=
  ∃ bound, ∀ fuel, bound ≤ fuel → level fuel ts = .ok (a, rest)

/-- What can be read in one step, to any bound above zero. -/
theorem reads_of_succ {level : Level α} (h : ∀ fuel, level (fuel + 1) ts = .ok (a, rest)) :
    Reads level ts a rest := by
  refine ⟨1, fun fuel hfuel => ?_⟩
  obtain ⟨fuel, rfl⟩ : ∃ k, fuel = k + 1 := ⟨fuel - 1, by omega⟩
  exact h fuel

section Parts

variable {first : Level α} {second : Level β} {level : Level γ} {us vs middle behind : List Token}

/-- Two parts that have been read, one step deeper. -/
theorem Reads.both (h₁ : Reads first us a middle) (h₂ : Reads second vs b behind)
    (hlevel : ∀ fuel, first fuel us = .ok (a, middle) → second fuel vs = .ok (b, behind) →
      level (fuel + 1) ts = .ok (c, rest)) : Reads level ts c rest := by
  obtain ⟨bound₁, hbound₁⟩ := h₁
  obtain ⟨bound₂, hbound₂⟩ := h₂
  refine ⟨max bound₁ bound₂ + 1, fun fuel hfuel => ?_⟩
  obtain ⟨fuel, rfl⟩ : ∃ k, fuel = k + 1 := ⟨fuel - 1, by omega⟩
  exact hlevel fuel (hbound₁ fuel (by omega)) (hbound₂ fuel (by omega))

/-- A part that has been read, one step deeper. -/
theorem Reads.deeper (h : Reads first us a middle)
    (hlevel : ∀ fuel, first fuel us = .ok (a, middle) → level (fuel + 1) ts = .ok (c, rest)) :
    Reads level ts c rest :=
  h.both h fun fuel hread _ => hlevel fuel hread

end Parts

/-! ## What may follow -/

def afterProduct : List Lexeme := .star :: .slash :: afterApplied

def afterSum : List Lexeme := .plus :: .minus :: afterProduct

/-- From tokens with the lexemes the level recovers the tree, where none of the lexemes
in `after` comes next. -/
def Recovers (level : Level α) (tree : α → β) (after ls : List Lexeme) (b : β) : Prop :=
  ∀ ts more, ts.map Token.lexeme = ls → Clear after more →
    ∃ a, tree a = b ∧ Reads level (ts ++ more) a more

/-- From tokens with the lexemes the level recovers a chain, and goes on reading it. -/
def RecoversChain (level : Level Expr) (continuation : Following Expr Expr)
    (after ls : List Lexeme) (b : Expr) : Prop :=
  ∀ ts more, ts.map Token.lexeme = ls → Clear after more →
    ∃ e, e.withoutSources = b ∧ ∀ e' rest, Reads (continuation · e) more e' rest →
      Reads level (ts ++ more) e' rest

section Chains

variable {level next : Level Expr} {continuation : Following Expr Expr} {after ls ms : List Lexeme}
  {left right : Expr}

theorem Recovers.chain (h : Recovers next withoutSources after ls e)
    (hlevel : ∀ fuel ts,
      level (fuel + 1) ts = next fuel ts >>= fun r => continuation fuel r.1 r.2) :
    RecoversChain level continuation after ls e := by
  intro ts more hts hmore
  obtain ⟨e', he', hreads⟩ := h ts more hts hmore
  refine ⟨e', he', fun _ _ hcont => ?_⟩
  refine hreads.both hcont fun fuel hread hcont => ?_
  rw [hlevel]
  exact bind_eq_ok.2 ⟨_, hread, hcont⟩

/-- A chain ends where none of the lexemes comes next that go on with it. -/
theorem RecoversChain.ended (h : RecoversChain level continuation after ls e)
    {after' : List Lexeme} (hsub : ∀ l ∈ after, l ∈ after')
    (hends : ∀ fuel e more, Clear after' more → continuation (fuel + 1) e more = .ok (e, more)) :
    Recovers level withoutSources after' ls e := by
  intro ts more hts hmore
  obtain ⟨e', he', hcont⟩ := h ts more hts (hmore.mono hsub)
  exact ⟨e', he', hcont _ _ (reads_of_succ fun fuel => hends fuel e' more hmore)⟩

/-- A chain with one more operand. -/
theorem RecoversChain.operand {op? : Lexeme → Option BinaryOp} {l : Lexeme} {op : BinaryOp}
    (hself : ∀ fuel left ts,
      continuation (fuel + 1) left ts = operandStep op? next continuation fuel left ts)
    (hop : op? l = some op) (hl : l ∉ after) (h : RecoversChain level continuation after ls left)
    (hnext : Recovers next withoutSources after ms right) :
    RecoversChain level continuation after (ls ++ l :: ms) (.binary op left right) := by
  intro ts more hts hmore
  obtain ⟨ts₁, ts', rfl, hts₁, hts'⟩ := List.map_eq_append_iff.1 hts
  obtain ⟨gap, text, ts₂, rfl, hts₂⟩ := tokens_of_cons hts'
  obtain ⟨right', rfl, hright⟩ := hnext ts₂ more hts₂ hmore
  obtain ⟨left', rfl, hleft⟩ := h ts₁ (⟨l, gap, text⟩ :: (ts₂ ++ more)) hts₁ (clear_cons hl)
  refine ⟨.binary op left' right', rfl, fun e' rest hcont => ?_⟩
  rw [List.append_assoc]
  refine hleft e' rest (hright.both hcont fun fuel hright hcont => ?_)
  rw [hself]
  exact operandStep_eq_ok.2 (.operand ⟨l, gap, text⟩ hop hright hcont)

end Chains

/-! ## One rule at a time -/

section Rules

variable {ls ms : List Lexeme}

/-- A level that leaves what the category begins with to another level. -/
theorem Recovers.deeper {level inner : Level α} {tree : α → β} {after : List Lexeme} {b : β}
    (h : Recovers inner tree after ls b) {c : Category} (hbegins : Begins c ls)
    (hlevel : ∀ fuel t us, c.opens t.lexeme = true →
      level (fuel + 1) (t :: us) = inner fuel (t :: us)) : Recovers level tree after ls b := by
  intro ts more hts hmore
  obtain ⟨l, ls', rfl, hl⟩ := hbegins
  obtain ⟨a, ha, hreads⟩ := h ts more hts hmore
  obtain ⟨t, us, rfl, rfl, -⟩ := List.map_eq_cons_iff.1 hts
  exact ⟨a, ha, hreads.deeper fun fuel hread => (hlevel fuel t _ hl).trans hread⟩

theorem recovers_bind {name : String} {value body : Expr}
    (hvalue : Recovers parseExpr withoutSources afterSum ls value)
    (hbody : Recovers parseExpr withoutSources afterSum ms body) :
    Recovers parseExpr withoutSources afterSum
      (.letWord :: .name name :: .equals :: (ls ++ .inWord :: ms)) (.bind name value body) := by
  intro ts more hts hmore
  obtain ⟨gap₁, text₁, us₁, rfl, hus₁⟩ := tokens_of_cons hts
  obtain ⟨gap₂, text₂, us₂, rfl, hus₂⟩ := tokens_of_cons hus₁
  obtain ⟨gap₃, text₃, us₃, rfl, hus₃⟩ := tokens_of_cons hus₂
  obtain ⟨ts₁, us₄, rfl, hts₁, hus₄⟩ := List.map_eq_append_iff.1 hus₃
  obtain ⟨gap₄, text₄, ts₂, rfl, hts₂⟩ := tokens_of_cons hus₄
  obtain ⟨value', rfl, hreads₁⟩ :=
    hvalue ts₁ (⟨.inWord, gap₄, text₄⟩ :: (ts₂ ++ more)) hts₁ (clear_cons (by decide))
  obtain ⟨body', rfl, hreads₂⟩ := hbody ts₂ more hts₂ hmore
  refine ⟨.bind name value' body', rfl, hreads₁.both hreads₂ fun fuel hvalue hbody => ?_⟩
  simp only [List.cons_append, List.append_assoc]
  exact parseExpr_eq_ok.2 (.bind gap₁ text₁ gap₂ text₂ gap₃ text₃ gap₄ text₄ name hvalue hbody)

theorem recovers_lambda {params : List String} {body : Expr}
    (hbody : Recovers parseExpr withoutSources afterSum ls body) :
    Recovers parseExpr withoutSources afterSum
      (.fnWord :: .openParen :: (parameterLexemes params ++ .closeParen :: .arrow :: ls))
      (.lambda params body "") := by
  intro ts more hts hmore
  obtain ⟨gap₁, text₁, us₁, rfl, hus₁⟩ := tokens_of_cons hts
  obtain ⟨gap₂, text₂, us₂, rfl, hus₂⟩ := tokens_of_cons hus₁
  obtain ⟨names, us₃, rfl, hnames, hus₃⟩ := List.map_eq_append_iff.1 hus₂
  obtain ⟨gap₃, text₃, us₄, rfl, hus₄⟩ := tokens_of_cons hus₃
  obtain ⟨gap₄, text₄, ts₁, rfl, hts₁⟩ := tokens_of_cons hus₄
  obtain ⟨body', rfl, hreads⟩ := hbody ts₁ more hts₁ hmore
  refine ⟨.lambda params body' (sourceBetween (ts₁ ++ more) more), rfl,
    hreads.deeper fun fuel hbody => ?_⟩
  refine parseExpr_eq_ok.2 (.lambda gap₁ text₁ gap₂ text₂ gap₄ text₄ params ?_ hbody)
  refine parseParams_eq_ok.2 ⟨names ++ [⟨.closeParen, gap₃, text₃⟩], by simp, ?_⟩
  rw [List.map_append, hnames]
  rfl

theorem recovers_neg (h : Recovers parseUnary withoutSources afterApplied ls e) :
    Recovers parseUnary withoutSources afterApplied (.minus :: ls) (.neg e) := by
  intro ts more hts hmore
  obtain ⟨gap, text, us, rfl, hus⟩ := tokens_of_cons hts
  obtain ⟨e', rfl, hreads⟩ := h us more hus hmore
  exact ⟨.neg e', rfl, hreads.deeper fun _ hread => parseUnary_eq_ok.2 (.neg gap text hread)⟩

/-- A primary expression with the calls and field accesses after it. -/
def parseApplied : Level Expr := fun fuel ts =>
  parsePrimary fuel ts >>= fun r => parsePostfixRest fuel r.1 r.2

theorem recovers_applied (h : Recovers parsePrimary withoutSources [] ls e) :
    RecoversChain parseApplied parsePostfixRest [] ls e := by
  intro ts more hts hmore
  obtain ⟨e', he', bound, hbound⟩ := h ts more hts hmore
  refine ⟨e', he', fun e'' rest hcont => ?_⟩
  obtain ⟨bound', hbound'⟩ := hcont
  refine ⟨max bound bound', fun fuel hfuel => ?_⟩
  exact bind_eq_ok.2 ⟨_, hbound fuel (by omega), hbound' fuel (by omega)⟩

theorem recovers_call {callee : Expr} {args : List Expr}
    (hcallee : RecoversChain parseApplied parsePostfixRest [] ls callee)
    (hargs :
      Recovers (parseItems · .closeParen) itemsWithoutSources [] (ms ++ [.closeParen]) args) :
    RecoversChain parseApplied parsePostfixRest [] (ls ++ .openParen :: (ms ++ [.closeParen]))
      (.call callee args) := by
  intro ts more hts _
  obtain ⟨ts₁, us, rfl, hts₁, hus⟩ := List.map_eq_append_iff.1 hts
  obtain ⟨gap, text, ts₂, rfl, hts₂⟩ := tokens_of_cons hus
  obtain ⟨args', rfl, hreads⟩ := hargs ts₂ more hts₂ (by simp [Clear])
  obtain ⟨callee', rfl, hcont⟩ := hcallee ts₁ (⟨.openParen, gap, text⟩ :: (ts₂ ++ more)) hts₁
    (by simp [Clear])
  refine ⟨.call callee' args', rfl, fun e' rest hrest => ?_⟩
  rw [List.append_assoc]
  exact hcont e' rest (hreads.both hrest fun _ hargs hrest =>
    parsePostfixRest_eq_ok.2 (.call gap text hargs hrest))

theorem recovers_field {target : Expr} {name : String}
    (h : RecoversChain parseApplied parsePostfixRest [] ls target) :
    RecoversChain parseApplied parsePostfixRest [] (ls ++ [.dot, .name name])
      (.field target name) := by
  intro ts more hts _
  obtain ⟨ts₁, us₁, rfl, hts₁, hus₁⟩ := List.map_eq_append_iff.1 hts
  obtain ⟨gap₁, text₁, us₂, rfl, hus₂⟩ := tokens_of_cons hus₁
  obtain ⟨gap₂, text₂, rfl⟩ := token_of_singleton hus₂
  obtain ⟨target', rfl, hcont⟩ := h ts₁
    (⟨.dot, gap₁, text₁⟩ :: ⟨.name name, gap₂, text₂⟩ :: more) hts₁ (by simp [Clear])
  refine ⟨.field target' name, rfl, fun e' rest hrest => ?_⟩
  rw [List.append_assoc]
  exact hcont e' rest (hrest.deeper fun _ hrest =>
    parsePostfixRest_eq_ok.2 (.field gap₁ text₁ gap₂ text₂ name hrest))

theorem recovers_literal {l : Lexeme} {v : Value} (h : literalOf l = some v) :
    Recovers parsePrimary withoutSources [] [l] (.literal v) := by
  intro ts more hts _
  obtain ⟨gap, text, rfl⟩ := token_of_singleton hts
  exact ⟨.literal v, rfl, reads_of_succ fun _ =>
    parsePrimary_eq_ok.2 (.literal ⟨l, gap, text⟩ h)⟩

theorem recovers_var {name : String} :
    Recovers parsePrimary withoutSources [] [.name name] (.var name) := by
  intro ts more hts _
  obtain ⟨gap, text, rfl⟩ := token_of_singleton hts
  exact ⟨.var name, rfl, reads_of_succ fun _ => parsePrimary_eq_ok.2 (.var gap text name)⟩

theorem recovers_group (h : Recovers parseExpr withoutSources afterSum ls e) :
    Recovers parsePrimary withoutSources [] (.openParen :: (ls ++ [.closeParen])) e := by
  intro ts more hts _
  obtain ⟨gap₁, text₁, us₁, rfl, hus₁⟩ := tokens_of_cons hts
  obtain ⟨ts₁, us₂, rfl, hts₁, hus₂⟩ := List.map_eq_append_iff.1 hus₁
  obtain ⟨gap₂, text₂, rfl⟩ := token_of_singleton hus₂
  obtain ⟨e', rfl, hreads⟩ := h ts₁ (⟨.closeParen, gap₂, text₂⟩ :: more) hts₁
    (clear_cons (by decide))
  refine ⟨e', rfl, hreads.deeper fun _ hread => ?_⟩
  simp only [List.cons_append, List.append_assoc]
  exact parsePrimary_eq_ok.2 (.group gap₁ text₁ gap₂ text₂ hread)

theorem recovers_list {items : List Expr}
    (h :
      Recovers (parseItems · .closeBracket) itemsWithoutSources [] (ls ++ [.closeBracket]) items) :
    Recovers parsePrimary withoutSources [] (.openBracket :: (ls ++ [.closeBracket]))
      (.list items) := by
  intro ts more hts hmore
  obtain ⟨gap, text, us, rfl, hus⟩ := tokens_of_cons hts
  obtain ⟨items', rfl, hreads⟩ := h us more hus hmore
  exact ⟨.list items', rfl, hreads.deeper fun _ hread =>
    parsePrimary_eq_ok.2 (.list gap text hread)⟩

theorem recovers_dict {entries : List (String × Expr)}
    (h : Recovers parseEntries entriesWithoutSources [] (ls ++ [.closeBrace]) entries) :
    Recovers parsePrimary withoutSources [] (.openBrace :: (ls ++ [.closeBrace]))
      (.dict entries) := by
  intro ts more hts hmore
  obtain ⟨gap, text, us, rfl, hus⟩ := tokens_of_cons hts
  obtain ⟨entries', rfl, hreads⟩ := h us more hus hmore
  exact ⟨.dict entries', rfl, hreads.deeper fun _ hread =>
    parsePrimary_eq_ok.2 (.dict gap text hread)⟩

theorem recovers_entry {l : Lexeme} {key : String} (hkey : keyOf l = some key)
    (h : Recovers parseExpr withoutSources afterSum ls e) :
    Recovers parseEntry (fun entry => (entry.1, entry.2.withoutSources)) afterSum
      (l :: .colon :: ls) (key, e) := by
  intro ts more hts hmore
  obtain ⟨gap₁, text₁, us₁, rfl, hus₁⟩ := tokens_of_cons hts
  obtain ⟨gap₂, text₂, us, rfl, hus⟩ := tokens_of_cons hus₁
  obtain ⟨e', rfl, bound, hbound⟩ := h us more hus hmore
  refine ⟨(key, e'), rfl, bound, fun fuel hfuel => ?_⟩
  exact parseEntry_eq_ok.2 ⟨⟨l, gap₁, text₁⟩, gap₂, text₂, us ++ more, rfl, hkey, hbound fuel hfuel⟩

section Separated

variable {element : Level α} {self : Level (List α)} {tree : α → β} {trees : List α → List β}
  {close : Lexeme} {what : String} {b : β} {bs : List β}
  (hself : ∀ fuel ts, self (fuel + 1) ts
    = element fuel ts >>= fun r => separatedStep close what self fuel r.1 r.2)
  (htrees : ∀ a as, trees (a :: as) = tree a :: trees as)

include hself htrees

theorem recovers_last (hnil : trees [] = []) (hclose : close ∉ afterSum)
    (h : Recovers element tree afterSum ls b) :
    Recovers self trees [] (ls ++ [close]) [b] := by
  intro ts more hts _
  obtain ⟨ts₁, us, rfl, hts₁, hus⟩ := List.map_eq_append_iff.1 hts
  obtain ⟨gap, text, rfl⟩ := token_of_singleton hus
  obtain ⟨a, rfl, hreads⟩ := h ts₁ (⟨close, gap, text⟩ :: more) hts₁ (clear_cons hclose)
  refine ⟨[a], by rw [htrees, hnil], hreads.deeper fun fuel hread => ?_⟩
  rw [List.append_assoc, hself]
  exact bind_eq_ok.2 ⟨_, hread, separatedStep_eq_ok.2 (.last gap text)⟩

theorem recovers_more (hclose : close ≠ .comma) (h : Recovers element tree afterSum ls b)
    (hrest : Recovers self trees [] (ms ++ [close]) bs) :
    Recovers self trees [] ((ls ++ .comma :: ms) ++ [close]) (b :: bs) := by
  intro ts more hts hmore
  rw [List.append_assoc] at hts
  obtain ⟨ts₁, us, rfl, hts₁, hus⟩ := List.map_eq_append_iff.1 hts
  obtain ⟨gap, text, ts₂, rfl, hts₂⟩ := tokens_of_cons hus
  obtain ⟨as, rfl, hothers⟩ := hrest ts₂ more hts₂ hmore
  obtain ⟨a, rfl, hreads⟩ := h ts₁ (⟨.comma, gap, text⟩ :: (ts₂ ++ more)) hts₁
    (clear_cons (by decide))
  refine ⟨a :: as, htrees a as, hreads.both hothers fun fuel hread hothers => ?_⟩
  rw [List.append_assoc, hself]
  exact bind_eq_ok.2 ⟨_, hread, separatedStep_eq_ok.2 (.more gap text hclose hothers)⟩

end Separated

section Delimited

variable {next : Level (List α)} (self : Level (List α)) {trees : List α → List β} {close : Lexeme}
  (hself : ∀ fuel ts, self (fuel + 1) ts = delimitedStep close next fuel ts)

include hself

theorem recovers_none : Recovers self trees [] [close] (trees []) := by
  intro ts more hts _
  obtain ⟨gap, text, rfl⟩ := token_of_singleton hts
  refine ⟨[], rfl, reads_of_succ fun fuel => ?_⟩
  rw [hself]
  exact delimitedStep_eq_ok.2 (.empty gap text)

theorem delimited_of_opens {c : Category} (hclose : c.opens close = false) (fuel : Nat) (t : Token)
    (us : List Token) (h : c.opens t.lexeme = true) :
    self (fuel + 1) (t :: us) = next fuel (t :: us) := by
  have hne : t.lexeme ≠ close := fun heq => by rw [heq, hclose] at h; cases h
  rw [hself, delimitedStep, expect, if_neg hne]

end Delimited

end Rules

/-! ## Levels that hand over to the next one -/

theorem clear_of_opens {c : Category} {ls : List Lexeme} (hls : ∀ l ∈ ls, c.opens l = false)
    {t : Token} (h : c.opens t.lexeme = true) : Clear ls (t :: ts) :=
  clear_cons fun hmem => by rw [hls _ hmem] at h; cases h

theorem parseUnary_of_opens (fuel : Nat) (t : Token) (us : List Token)
    (h : Category.opens .applied t.lexeme = true) :
    parseUnary (fuel + 1) (t :: us) = parseApplied fuel (t :: us) :=
  parseUnary_of_clear (clear_of_opens (by decide) h)

theorem parseExpr_of_opens (fuel : Nat) (t : Token) (us : List Token)
    (h : Category.opens .sum t.lexeme = true) :
    parseExpr (fuel + 1) (t :: us) = parseSum fuel (t :: us) :=
  parseExpr_of_clear (clear_of_opens (by decide) h)

/-- A chain of operators stops before what is none of them. -/
theorem operands_of_clear {op? : Lexeme → Option BinaryOp} {next : Level Expr}
    {self : Following Expr Expr} {ls : List Lexeme}
    (hself : ∀ fuel left ts, self (fuel + 1) left ts = operandStep op? next self fuel left ts)
    (hops : ∀ l ∉ ls, op? l = none) (fuel : Nat) (e : Expr) (ts : List Token) (h : Clear ls ts) :
    self (fuel + 1) e ts = .ok (e, ts) := by
  rw [hself]
  exact operandStep_eq_ok.2 (.stop fun t ht => hops _ (h t ht))

theorem parseSumRest_of_clear : ∀ fuel e ts, Clear afterSum ts →
    parseSumRest (fuel + 1) e ts = .ok (e, ts) :=
  operands_of_clear parseSumRest_succ fun l hl => by cases l <;> simp_all [sumOp?, afterSum]

theorem parseProductRest_of_clear : ∀ fuel e ts, Clear afterProduct ts →
    parseProductRest (fuel + 1) e ts = .ok (e, ts) :=
  operands_of_clear parseProductRest_succ fun l hl => by
    cases l <;> simp_all [productOp?, afterProduct]

/-! ## Every derivation -/

/-- The lexemes that end items: of a call, and of a list. -/
def itemClosers : List Lexeme := [.closeParen, .closeBracket]

theorem itemClosers_close : ∀ close ∈ itemClosers,
    Category.opens .someItems close = false ∧ close ∉ afterSum ∧ close ≠ .comma := by
  decide

/-- What the parser makes of tokens with the lexemes, for each category. -/
def Recognised : (c : Category) → List Lexeme → c.Tree → Prop
  | .expr, ls, e => Recovers parseExpr withoutSources afterSum ls e
  | .sum, ls, e => RecoversChain parseSum parseSumRest afterProduct ls e
  | .product, ls, e => RecoversChain parseProduct parseProductRest afterApplied ls e
  | .unary, ls, e => Recovers parseUnary withoutSources afterApplied ls e
  | .applied, ls, e => RecoversChain parseApplied parsePostfixRest [] ls e
  | .primary, ls, e => Recovers parsePrimary withoutSources [] ls e
  | .items, ls, es => ∀ close ∈ itemClosers,
      Recovers (parseItems · close) itemsWithoutSources [] (ls ++ [close]) es
  | .someItems, ls, es => ∀ close ∈ itemClosers,
      Recovers (parseSomeItems · close) itemsWithoutSources [] (ls ++ [close]) es
  | .entry, ls, entry =>
      Recovers parseEntry (fun entry => (entry.1, entry.2.withoutSources)) afterSum ls entry
  | .entries, ls, es => Recovers parseEntries entriesWithoutSources [] (ls ++ [.closeBrace]) es
  | .someEntries, ls, es =>
      Recovers parseSomeEntries entriesWithoutSources [] (ls ++ [.closeBrace]) es

/-- **Completeness, level by level.** -/
theorem Derives.recognised {c : Category} {ls : List Lexeme} {t : c.Tree} (h : Derives c ls t) :
    Recognised c ls t := by
  -- A tree of a lower level is recognised one level up where its chain comes to an end.
  induction h with
  | bind _ _ hvalue hbody => exact recovers_bind hvalue hbody
  | lambda _ ih => exact recovers_lambda ih
  | sum hsum ih =>
      exact (ih.ended (by decide) parseSumRest_of_clear).deeper (hsum.begins rfl) parseExpr_of_opens
  | add _ _ hleft hright =>
      exact hleft.operand parseSumRest_succ rfl (by decide)
        (hright.ended (by decide) parseProductRest_of_clear)
  | sub _ _ hleft hright =>
      exact hleft.operand parseSumRest_succ rfl (by decide)
        (hright.ended (by decide) parseProductRest_of_clear)
  | product _ ih =>
      exact (ih.ended (by decide) parseProductRest_of_clear).chain fun _ _ => by rw [parseSum]
  | mul _ _ hleft hright =>
      exact hleft.operand parseProductRest_succ rfl (by decide) hright
  | div _ _ hleft hright =>
      exact hleft.operand parseProductRest_succ rfl (by decide) hright
  | unary _ ih => exact ih.chain fun _ _ => by rw [parseProduct]
  | neg _ ih => exact recovers_neg ih
  | applied happlied ih =>
      exact (ih.ended (by decide) fun _ _ _ => parsePostfixRest_of_clear).deeper
        (happlied.begins rfl) parseUnary_of_opens
  | call _ _ hcallee hargs => exact recovers_call hcallee (hargs _ (by decide))
  | field _ ih => exact recovers_field ih
  | primary _ ih => exact recovers_applied ih
  | literal hl => exact recovers_literal hl
  | var => exact recovers_var
  | group _ ih => exact recovers_group ih
  | list _ ih => exact recovers_list (ih _ (by decide))
  | dict _ ih => exact recovers_dict ih
  | noItems => exact fun close _ => recovers_none (parseItems · close) (parseItems_succ · close)
  | items hsome ih =>
      intro close hclose
      refine (ih close hclose).deeper ((hsome.begins rfl).append [close]) ?_
      exact delimited_of_opens (parseItems · close) (parseItems_succ · close)
        (itemClosers_close close hclose).1
  | lastItem _ ih =>
      intro close hclose
      refine recovers_last (parseSomeItems_succ · close)
        (fun _ _ => rfl) rfl ?_ ih
      exact (itemClosers_close close hclose).2.1
  | moreItems _ _ ih hrest =>
      intro close hclose
      refine recovers_more (parseSomeItems_succ · close)
        (fun _ _ => rfl) ?_ ih (hrest close hclose)
      exact (itemClosers_close close hclose).2.2
  | entry hkey _ ih => exact recovers_entry hkey ih
  | noEntries => exact recovers_none parseEntries parseEntries_succ
  | entries hsome ih =>
      exact ih.deeper ((hsome.begins rfl).append [.closeBrace])
        (delimited_of_opens parseEntries parseEntries_succ rfl)
  | lastEntry _ ih =>
      exact recovers_last parseSomeEntries_succ (fun _ _ => rfl) rfl (by decide) ih
  | moreEntries _ _ ih hrest =>
      exact recovers_more parseSomeEntries_succ (fun _ _ => rfl) (by decide) ih hrest

/-! ## Whole sources -/

/-- The depth that the parser allows itself suffices for every derivation. -/
theorem parseTokens_of_derives (h : Derives .expr (ts.map Token.lexeme) e) :
    ∃ e', parseTokens ts = .ok e' ∧ e'.withoutSources = e := by
  obtain ⟨e', he', bound, hbound⟩ := h.recognised ts [] rfl nofun
  have hparse := hbound bound (Nat.le_refl _)
  rw [List.append_nil] at hparse
  obtain ⟨used, hts, -, -, hread⟩ := (local_all bound).expr hparse
  rw [List.append_nil] at hts
  subst hts
  have hdepth := hread (10 * (ts.length + 1)) [] (List.prefix_refl []) (by omega)
  rw [List.append_nil] at hdepth
  exact ⟨e', parseTokens_eq_ok.2 hdepth, he'⟩

/-- Lexemes spell one expression at most. -/
theorem Derives.unique {ls : List Lexeme} {e e' : Expr} (h : Derives .expr ls e)
    (h' : Derives .expr ls e') : e = e' := by
  -- tokens with these lexemes, for the parser to read
  have hlexemes : (ls.map fun l => (⟨l, [], []⟩ : Token)).map Token.lexeme = ls := by
    rw [List.map_map]
    exact List.map_id ls
  rw [← hlexemes] at h h'
  obtain ⟨e₁, hparse₁, rfl⟩ := parseTokens_of_derives h
  obtain ⟨e₂, hparse₂, rfl⟩ := parseTokens_of_derives h'
  rw [Except.ok.inj (hparse₁.symm.trans hparse₂)]

theorem parse_of_tokens {source : String} (h : tokens source.toList = .ok ts) :
    parse source = parseTokens ts := by
  rw [parse, h]
  rfl

/-- A body that is not an expression has that as its error, wherever it is evaluated. -/
theorem evaluate_malformed {source : String} {fault : SyntaxFault} (h : parse source = .error fault)
    (depth : Nat) (env : Environment) :
    evaluate depth ⟨source⟩ env = .error ⟨"SyntaxError", fault.message⟩ := by
  unfold evaluate evalBody
  rw [h]
  rfl

/-- **The parser accepts its grammar.** A source whose characters make tokens parses to
an expression exactly if the grammar derives this expression from all the tokens; it
derives no other one; and where it derives none, the source is a syntax error. -/
theorem parse_accepts_the_grammar (source : String) (ts : List Token)
    (htokens : tokens source.toList = .ok ts) :
    (∀ e, (∃ e', parse source = .ok e' ∧ e'.withoutSources = e) ↔
      Derives .expr (ts.map Token.lexeme) e) ∧
    (∀ e e', Derives .expr (ts.map Token.lexeme) e → Derives .expr (ts.map Token.lexeme) e' →
      e = e') ∧
    ((∀ e, ¬ Derives .expr (ts.map Token.lexeme) e) →
      ∃ fault, parse source = .error fault ∧ (Fault.malformed fault).code = "SyntaxError" ∧
        ∀ depth env, evaluate depth ⟨source⟩ env = .error ⟨"SyntaxError", fault.message⟩) := by
  rw [parse_of_tokens htokens]
  refine ⟨fun e => ⟨?_, parseTokens_of_derives⟩, fun e e' => Derives.unique, fun hnone => ?_⟩
  · rintro ⟨e', hparse, rfl⟩
    exact derives_of_parseTokens hparse
  · cases hparse : parseTokens ts with
    | ok e => exact absurd (derives_of_parseTokens hparse) (hnone _)
    | error fault =>
        have hsource := (parse_of_tokens htokens).trans hparse
        exact ⟨fault, rfl, rfl, evaluate_malformed hsource⟩

/-- The tokens of `1 - x - f(2)`. -/
def chainedTokens : List Token :=
  [⟨.int 1, [], ['1']⟩, ⟨.minus, [' '], ['-']⟩, ⟨.name "x", [' '], ['x']⟩,
    ⟨.minus, [' '], ['-']⟩, ⟨.name "f", [' '], ['f']⟩, ⟨.openParen, [], ['(']⟩,
    ⟨.int 2, [], ['2']⟩, ⟨.closeParen, [], [')']⟩]

/-- Differences group to the left, around a call; a difference without its right
operand is a syntax error. -/
theorem difference_chain_parses :
    (∃ e', parse "1 - x - f(2)" = .ok e' ∧ e'.withoutSources =
      .binary .sub (.binary .sub (.literal (.int 1)) (.var "x"))
        (.call (.var "f") [.literal (.int 2)])) ∧
    ∃ fault, parse "1 -" = .error fault ∧ fault.message = "Expected an expression." := by
  have hchain : tokens "1 - x - f(2)".toList = .ok chainedTokens := by decide
  have hcut : tokens "1 -".toList = .ok (chainedTokens.take 2) := by decide
  have herror : parse "1 -" = .error (.expected "an expression") := rfl
  constructor
  · refine ((parse_accepts_the_grammar _ _ hchain).1 _).2 ?_
    have hone : Derives .product [.int 1] (.literal (.int 1)) :=
      .unary (.applied (.primary (.literal rfl)))
    have hx : Derives .product [.name "x"] (.var "x") := .unary (.applied (.primary .var))
    have htwo : Derives .expr [.int 2] (.literal (.int 2)) :=
      .sum (.product (.unary (.applied (.primary (.literal rfl)))))
    have hcall : Derives .product [.name "f", .openParen, .int 2, .closeParen]
        (.call (.var "f") [.literal (.int 2)]) :=
      .unary (.applied (.call (.primary .var) (.items (.lastItem htwo))))
    exact .sum (.sub (.sub (.product hone) hx) hcall)
  · obtain ⟨fault, hfault, -⟩ := (parse_accepts_the_grammar _ _ hcut).2.2 fun e h => by
      obtain ⟨e', hparse, -⟩ := ((parse_accepts_the_grammar _ _ hcut).1 e).2 h
      rw [herror] at hparse
      cases hparse
    refine ⟨fault, hfault, ?_⟩
    rw [← Except.error.inj (herror.symm.trans hfault)]
    rfl

end NodePipeline.Expr

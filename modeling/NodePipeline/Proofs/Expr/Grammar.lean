import NodePipeline.Proofs.Expr.Levels

/-!
# The grammar

Which lexemes spell which tree, as rules that mention no parser. Chains of operators
and of calls and fields grow to the left. What the parser reads off the front of its
tokens follows these rules, at every level and to every bound on the depth.

Trees are compared without the source texts that function expressions keep.
-/

namespace NodePipeline.Expr

/-! ## Trees without source texts -/

mutual

/-- The expression with no text for its functions. -/
def withoutSources : Expr → Expr
  | .literal v => .literal v
  | .var name => .var name
  | .neg e => .neg e.withoutSources
  | .binary op left right => .binary op left.withoutSources right.withoutSources
  | .list items => .list (itemsWithoutSources items)
  | .dict entries => .dict (entriesWithoutSources entries)
  | .bind name value body => .bind name value.withoutSources body.withoutSources
  | .lambda params body _ => .lambda params body.withoutSources ""
  | .call callee args => .call callee.withoutSources (itemsWithoutSources args)
  | .field target name => .field target.withoutSources name

def itemsWithoutSources : List Expr → List Expr
  | [] => []
  | e :: rest => e.withoutSources :: itemsWithoutSources rest

def entriesWithoutSources : List (String × Expr) → List (String × Expr)
  | [] => []
  | (key, e) :: rest => (key, e.withoutSources) :: entriesWithoutSources rest

end

/-! ## The rules -/

/-- What lexemes can be derived as. -/
inductive Category
  | expr | sum | product | unary | applied | primary
  | items | someItems | entry | entries | someEntries
deriving DecidableEq

/-- The trees of a category. -/
abbrev Category.Tree : Category → Type
  | .expr | .sum | .product | .unary | .applied | .primary => Expr
  | .items | .someItems => List Expr
  | .entry => String × Expr
  | .entries | .someEntries => List (String × Expr)

/-- **The grammar.** The lexemes, all together and in their order, spell the tree. -/
inductive Derives : (c : Category) → List Lexeme → c.Tree → Prop
  | bind {name : String} {ls ms : List Lexeme} {value body : Expr} :
      Derives .expr ls value → Derives .expr ms body →
      Derives .expr (.letWord :: .name name :: .equals :: (ls ++ .inWord :: ms))
        (.bind name value body)
  | lambda {params : List String} {ls : List Lexeme} {body : Expr} :
      Derives .expr ls body →
      Derives .expr
        (.fnWord :: .openParen :: (parameterLexemes params ++ .closeParen :: .arrow :: ls))
        (.lambda params body "")
  | sum {ls : List Lexeme} {e : Expr} : Derives .sum ls e → Derives .expr ls e
  | add {ls ms : List Lexeme} {left right : Expr} :
      Derives .sum ls left → Derives .product ms right →
      Derives .sum (ls ++ .plus :: ms) (.binary .add left right)
  | sub {ls ms : List Lexeme} {left right : Expr} :
      Derives .sum ls left → Derives .product ms right →
      Derives .sum (ls ++ .minus :: ms) (.binary .sub left right)
  | product {ls : List Lexeme} {e : Expr} : Derives .product ls e → Derives .sum ls e
  | mul {ls ms : List Lexeme} {left right : Expr} :
      Derives .product ls left → Derives .unary ms right →
      Derives .product (ls ++ .star :: ms) (.binary .mul left right)
  | div {ls ms : List Lexeme} {left right : Expr} :
      Derives .product ls left → Derives .unary ms right →
      Derives .product (ls ++ .slash :: ms) (.binary .div left right)
  | unary {ls : List Lexeme} {e : Expr} : Derives .unary ls e → Derives .product ls e
  | neg {ls : List Lexeme} {e : Expr} : Derives .unary ls e → Derives .unary (.minus :: ls) (.neg e)
  | applied {ls : List Lexeme} {e : Expr} : Derives .applied ls e → Derives .unary ls e
  | call {ls ms : List Lexeme} {callee : Expr} {args : List Expr} :
      Derives .applied ls callee → Derives .items ms args →
      Derives .applied (ls ++ .openParen :: (ms ++ [.closeParen])) (.call callee args)
  | field {ls : List Lexeme} {target : Expr} {name : String} :
      Derives .applied ls target →
      Derives .applied (ls ++ [.dot, .name name]) (.field target name)
  | primary {ls : List Lexeme} {e : Expr} : Derives .primary ls e → Derives .applied ls e
  | literal {l : Lexeme} {v : Value} : literalOf l = some v → Derives .primary [l] (.literal v)
  | var {name : String} : Derives .primary [.name name] (.var name)
  | group {ls : List Lexeme} {e : Expr} :
      Derives .expr ls e → Derives .primary (.openParen :: (ls ++ [.closeParen])) e
  | list {ls : List Lexeme} {items : List Expr} :
      Derives .items ls items →
      Derives .primary (.openBracket :: (ls ++ [.closeBracket])) (.list items)
  | dict {ls : List Lexeme} {entries : List (String × Expr)} :
      Derives .entries ls entries →
      Derives .primary (.openBrace :: (ls ++ [.closeBrace])) (.dict entries)
  | noItems : Derives .items [] []
  | items {ls : List Lexeme} {es : List Expr} : Derives .someItems ls es → Derives .items ls es
  | lastItem {ls : List Lexeme} {e : Expr} : Derives .expr ls e → Derives .someItems ls [e]
  | moreItems {ls ms : List Lexeme} {e : Expr} {es : List Expr} :
      Derives .expr ls e → Derives .someItems ms es →
      Derives .someItems (ls ++ .comma :: ms) (e :: es)
  | entry {l : Lexeme} {key : String} {ls : List Lexeme} {e : Expr} :
      keyOf l = some key → Derives .expr ls e → Derives .entry (l :: .colon :: ls) (key, e)
  | noEntries : Derives .entries [] []
  | entries {ls : List Lexeme} {es : List (String × Expr)} :
      Derives .someEntries ls es → Derives .entries ls es
  | lastEntry {ls : List Lexeme} {entry : String × Expr} :
      Derives .entry ls entry → Derives .someEntries ls [entry]
  | moreEntries {ls ms : List Lexeme} {entry : String × Expr} {es : List (String × Expr)} :
      Derives .entry ls entry → Derives .someEntries ms es →
      Derives .someEntries (ls ++ .comma :: ms) (entry :: es)

/-! ## How trees begin -/

def opensPrimary (l : Lexeme) : Bool :=
  (literalOf l).isSome || (keyOf l).isSome || l = .openParen || l = .openBracket || l = .openBrace

/-- A tree of the category can begin with the lexeme. -/
def Category.opens (c : Category) (l : Lexeme) : Bool :=
  match c with
  | .primary | .applied => opensPrimary l
  | .unary | .product | .sum => l = .minus || opensPrimary l
  | .expr | .items | .someItems => l = .letWord || l = .fnWord || l = .minus || opensPrimary l
  | .entry | .entries | .someEntries => (keyOf l).isSome

/-- Items and entries alone can be missing altogether. -/
def Category.isNullable : Category → Bool
  | .items | .entries => true
  | _ => false

/-- The first of the lexemes can begin a tree of the category. -/
def Begins (c : Category) (ls : List Lexeme) : Prop :=
  ∃ l rest, ls = l :: rest ∧ c.opens l = true

theorem Begins.append {c : Category} {ls : List Lexeme} (h : Begins c ls) (ms : List Lexeme) :
    Begins c (ls ++ ms) := by
  obtain ⟨l, rest, rfl, hl⟩ := h
  exact ⟨l, rest ++ ms, rfl, hl⟩

theorem Begins.mono {c c' : Category} {ls : List Lexeme} (h : Begins c ls)
    (hopens : ∀ l, c.opens l = true → c'.opens l = true) : Begins c' ls := by
  obtain ⟨l, rest, rfl, hl⟩ := h
  exact ⟨l, rest, rfl, hopens l hl⟩

theorem Derives.begins_or_nil {c : Category} {ls : List Lexeme} {t : c.Tree}
    (h : Derives c ls t) : Begins c ls ∨ (ls = [] ∧ c.isNullable = true) := by
  induction h with
  | bind | lambda | neg | group | list | dict => exact .inl ⟨_, _, rfl, rfl⟩
  | var => exact .inl ⟨_, _, rfl, rfl⟩
  | literal hl => exact .inl ⟨_, _, rfl, by simp [Category.opens, opensPrimary, hl]⟩
  | entry hl => exact .inl ⟨_, _, rfl, by simp [Category.opens, hl]⟩
  | noItems | noEntries => exact .inr ⟨rfl, rfl⟩
  | add _ _ ih | sub _ _ ih | mul _ _ ih | div _ _ ih | call _ _ ih =>
      exact .inl ((ih.resolve_right (by simp [Category.isNullable])).append _)
  | field _ ih => exact .inl ((ih.resolve_right (by simp [Category.isNullable])).append _)
  | moreItems _ _ ih | moreEntries _ _ ih =>
      exact .inl (((ih.resolve_right (by simp [Category.isNullable])).mono fun _ h => h).append _)
  | product _ ih | unary _ ih | primary _ ih | items _ ih | lastItem _ ih | entries _ ih
  | lastEntry _ ih =>
      exact .inl ((ih.resolve_right (by simp [Category.isNullable])).mono fun _ h => h)
  | sum _ ih =>
      refine .inl ((ih.resolve_right (by simp [Category.isNullable])).mono fun l h => ?_)
      simp only [Category.opens, Bool.or_eq_true] at h ⊢
      exact h.imp_left .inr
  | applied _ ih =>
      refine .inl ((ih.resolve_right (by simp [Category.isNullable])).mono fun l h => ?_)
      simp only [Category.opens, Bool.or_eq_true] at h ⊢
      exact .inr h

/-- All but items and entries has a first lexeme, of those that can begin it. -/
theorem Derives.begins {c : Category} {ls : List Lexeme} {t : c.Tree} (h : Derives c ls t)
    (hc : c.isNullable = false) : Begins c ls :=
  h.begins_or_nil.resolve_right (by simp [hc])

/-! ## What is read follows the rules -/

variable {α : Type}

/-- What was read off the front of the tokens spells `a`. -/
def Covers (spells : List Lexeme → α → Prop) (ts : List Token) (a : α) (rest : List Token) : Prop :=
  ∃ used, ts = used ++ rest ∧ spells (used.map Token.lexeme) a

/-- What was read off the front of the tokens spells `a` and ends with the lexeme. -/
def CoversTo (close : Lexeme) (spells : List Lexeme → α → Prop) (ts : List Token) (a : α)
    (rest : List Token) : Prop :=
  Covers (fun ls a => ∃ ms, ls = ms ++ [close] ∧ spells ms a) ts a rest

/-- Behind whatever spells the first tree, what was read spells the second one. -/
def Grows (spells : List Lexeme → Expr → Prop) (left : Expr) (ts : List Token) (e : Expr)
    (rest : List Token) : Prop :=
  ∀ ls, spells ls left → Covers (fun ms e => spells (ls ++ ms) e) ts e rest

/-- All levels that read to the given bound follow the rules. -/
structure Sound (fuel : Nat) : Prop where
  expr {ts e rest} : parseExpr fuel ts = .ok (e, rest) →
    Covers (Derives .expr) ts e.withoutSources rest
  sum {ts e rest} : parseSum fuel ts = .ok (e, rest) →
    Covers (Derives .sum) ts e.withoutSources rest
  sumRest {left ts e rest} : parseSumRest fuel left ts = .ok (e, rest) →
    Grows (Derives .sum) left.withoutSources ts e.withoutSources rest
  product {ts e rest} : parseProduct fuel ts = .ok (e, rest) →
    Covers (Derives .product) ts e.withoutSources rest
  productRest {left ts e rest} : parseProductRest fuel left ts = .ok (e, rest) →
    Grows (Derives .product) left.withoutSources ts e.withoutSources rest
  unary {ts e rest} : parseUnary fuel ts = .ok (e, rest) →
    Covers (Derives .unary) ts e.withoutSources rest
  appliedRest {target ts e rest} : parsePostfixRest fuel target ts = .ok (e, rest) →
    Grows (Derives .applied) target.withoutSources ts e.withoutSources rest
  primary {ts e rest} : parsePrimary fuel ts = .ok (e, rest) →
    Covers (Derives .primary) ts e.withoutSources rest
  items {close ts es rest} : parseItems fuel close ts = .ok (es, rest) →
    CoversTo close (Derives .items) ts (itemsWithoutSources es) rest
  someItems {close ts es rest} : parseSomeItems fuel close ts = .ok (es, rest) →
    CoversTo close (Derives .someItems) ts (itemsWithoutSources es) rest
  entries {ts es rest} : parseEntries fuel ts = .ok (es, rest) →
    CoversTo .closeBrace (Derives .entries) ts (entriesWithoutSources es) rest
  someEntries {ts es rest} : parseSomeEntries fuel ts = .ok (es, rest) →
    CoversTo .closeBrace (Derives .someEntries) ts (entriesWithoutSources es) rest

theorem sound_zero : Sound 0 := by
  constructor <;> exact nofun

variable {fuel : Nat} {ts rest : List Token} {e : Expr}

/-! ### Chains -/

theorem Covers.mono {spells spells' : List Lexeme → α → Prop} {a : α} (h : Covers spells ts a rest)
    (hmono : ∀ ls, spells ls a → spells' ls a) : Covers spells' ts a rest := by
  obtain ⟨used, hts, hspells⟩ := h
  exact ⟨used, hts, hmono _ hspells⟩

/-- What was read first spells the start of a chain. -/
theorem Covers.grow {spells : List Lexeme → Expr → Prop} {middle : List Token} {first : Expr}
    (h : Covers spells ts first middle) (hgrows : Grows spells first middle e rest) :
    Covers spells ts e rest := by
  obtain ⟨used, rfl, hspells⟩ := h
  obtain ⟨more, rfl, hmore⟩ := hgrows _ hspells
  exact ⟨used ++ more, (List.append_assoc ..).symm, by rwa [List.map_append]⟩

theorem grows_nothing {spells : List Lexeme → Expr → Prop} : Grows spells e ts e ts :=
  fun ls hls => ⟨[], rfl, by simpa using hls⟩

/-- A chain takes a few more tokens, and goes on. -/
theorem Grows.cons {spells : List Lexeme → Expr → Prop} {left next : Expr} (used : List Token)
    (hspells : ∀ ls, spells ls left → spells (ls ++ used.map Token.lexeme) next)
    (h : Grows spells next ts e rest) : Grows spells left (used ++ ts) e rest := by
  intro ls hls
  obtain ⟨more, rfl, hmore⟩ := h _ (hspells ls hls)
  refine ⟨used ++ more, (List.append_assoc ..).symm, ?_⟩
  show spells (ls ++ (used ++ more).map Token.lexeme) e
  rwa [List.map_append, ← List.append_assoc]

/-- Operands of a chain, each read by the next level. -/
theorem grows_operands {op? : Lexeme → Option BinaryOp} {next : Level Expr}
    {self : Following Expr Expr} {chain operand : List Lexeme → Expr → Prop}
    (hself : ∀ fuel left ts, self (fuel + 1) left ts = operandStep op? next self fuel left ts)
    (hchain : ∀ {l op ls ms left right}, op? l = some op → chain ls left → operand ms right →
      chain (ls ++ l :: ms) (.binary op left right))
    (hnext : ∀ {ts e rest}, next fuel ts = .ok (e, rest) → Covers operand ts e.withoutSources rest)
    (hrec : ∀ {left ts e rest}, self fuel left ts = .ok (e, rest) →
      Grows chain left.withoutSources ts e.withoutSources rest)
    {left : Expr} (hparse : self (fuel + 1) left ts = .ok (e, rest)) :
    Grows chain left.withoutSources ts e.withoutSources rest := by
  rw [hself] at hparse
  cases operandStep_eq_ok.1 hparse with
  | operand t hop hright hrest =>
      obtain ⟨used, rfl, hoperand⟩ := hnext hright
      exact Grows.cons (t :: used) (fun ls hls => hchain hop hls hoperand) (hrec hrest)
  | stop => exact grows_nothing

theorem derives_operand_of_sum {l : Lexeme} {op : BinaryOp} {ls ms : List Lexeme}
    {left right : Expr} (hop : sumOp? l = some op) (hleft : Derives .sum ls left)
    (hright : Derives .product ms right) :
    Derives .sum (ls ++ l :: ms) (.binary op left right) := by
  cases l with
  | plus => cases hop; exact .add hleft hright
  | minus => cases hop; exact .sub hleft hright
  | _ => cases hop

theorem derives_operand_of_product {l : Lexeme} {op : BinaryOp} {ls ms : List Lexeme}
    {left right : Expr} (hop : productOp? l = some op) (hleft : Derives .product ls left)
    (hright : Derives .unary ms right) :
    Derives .product (ls ++ l :: ms) (.binary op left right) := by
  cases l with
  | star => cases hop; exact .mul hleft hright
  | slash => cases hop; exact .div hleft hright
  | _ => cases hop

/-! ### Elements between commas -/

theorem CoversTo.mono {close : Lexeme} {spells spells' : List Lexeme → α → Prop} {a : α}
    (h : CoversTo close spells ts a rest) (hmono : ∀ ls, spells ls a → spells' ls a) :
    CoversTo close spells' ts a rest := by
  obtain ⟨used, hts, ms, hms, hspells⟩ := h
  exact ⟨used, hts, ms, hms, hmono _ hspells⟩

/-- One or more elements with commas between them, each read by the element's level. -/
theorem coversTo_separated {close : Lexeme} {what : String} {element : Level α}
    (self : Level (List α)) (one : List Lexeme → α → Prop) (many : List Lexeme → List α → Prop)
    (hself : ∀ fuel ts, self (fuel + 1) ts
      = element fuel ts >>= fun r => separatedStep close what self fuel r.1 r.2)
    (hlast : ∀ {ls a}, one ls a → many ls [a])
    (hmore : ∀ {ls ms a as}, one ls a → many ms as → many (ls ++ .comma :: ms) (a :: as))
    (helement : ∀ {ts a rest}, element fuel ts = .ok (a, rest) → Covers one ts a rest)
    (hrec : ∀ {ts as rest}, self fuel ts = .ok (as, rest) → CoversTo close many ts as rest)
    {as : List α} (hparse : self (fuel + 1) ts = .ok (as, rest)) :
    CoversTo close many ts as rest := by
  rw [hself] at hparse
  obtain ⟨⟨first, middle⟩, hfirst, hstep⟩ := bind_eq_ok.1 hparse
  obtain ⟨used, rfl, hone⟩ := helement hfirst
  cases separatedStep_eq_ok.1 hstep with
  | last gap text =>
      exact ⟨used ++ [⟨close, gap, text⟩], by simp, used.map Token.lexeme, by simp, hlast hone⟩
  | more gap text _ hothers =>
      obtain ⟨more, rfl, ms, hms, hmany⟩ := hrec hothers
      refine ⟨used ++ ⟨.comma, gap, text⟩ :: more, by simp,
        used.map Token.lexeme ++ .comma :: ms, ?_, hmore hone hmany⟩
      simp [hms]

/-- Elements up to the closing lexeme, if there are any. -/
theorem coversTo_delimited {close : Lexeme} {next : Level (List α)} (self : Level (List α))
    (any many : List Lexeme → List α → Prop)
    (hself : ∀ fuel ts, self (fuel + 1) ts = delimitedStep close next fuel ts) (hnil : any [] [])
    (hany : ∀ {ls as}, many ls as → any ls as)
    (hnext : ∀ {ts as rest}, next fuel ts = .ok (as, rest) → CoversTo close many ts as rest)
    {as : List α} (hparse : self (fuel + 1) ts = .ok (as, rest)) :
    CoversTo close any ts as rest := by
  rw [hself] at hparse
  cases delimitedStep_eq_ok.1 hparse with
  | empty gap text => exact ⟨[⟨close, gap, text⟩], rfl, [], rfl, hnil⟩
  | elements _ hread => exact (hnext hread).mono fun _ => hany

/-! ### One step of every level -/

namespace Sound

theorem succ_sum (h : Sound fuel) (hparse : parseSum (fuel + 1) ts = .ok (e, rest)) :
    Covers (Derives .sum) ts e.withoutSources rest := by
  obtain ⟨first, middle, hfirst, hrest⟩ := parseSum_eq_ok.1 hparse
  exact ((h.product hfirst).mono fun _ => .product).grow (h.sumRest hrest)

theorem succ_product (h : Sound fuel) (hparse : parseProduct (fuel + 1) ts = .ok (e, rest)) :
    Covers (Derives .product) ts e.withoutSources rest := by
  obtain ⟨first, middle, hfirst, hrest⟩ := parseProduct_eq_ok.1 hparse
  exact ((h.unary hfirst).mono fun _ => .unary).grow (h.productRest hrest)

theorem succ_unary (h : Sound fuel) (hparse : parseUnary (fuel + 1) ts = .ok (e, rest)) :
    Covers (Derives .unary) ts e.withoutSources rest := by
  cases parseUnary_eq_ok.1 hparse with
  | neg gap text hinner =>
      obtain ⟨used, rfl, hused⟩ := h.unary hinner
      exact ⟨⟨.minus, gap, text⟩ :: used, rfl, .neg hused⟩
  | applied _ hfirst hrest =>
      have happlied := ((h.primary hfirst).mono fun _ => .primary).grow (h.appliedRest hrest)
      exact happlied.mono fun _ => .applied

theorem succ_appliedRest (h : Sound fuel) {target : Expr}
    (hparse : parsePostfixRest (fuel + 1) target ts = .ok (e, rest)) :
    Grows (Derives .applied) target.withoutSources ts e.withoutSources rest := by
  cases parsePostfixRest_eq_ok.1 hparse with
  | call gap text hargs hrest =>
      obtain ⟨used, rfl, ms, hms, hitems⟩ := h.items hargs
      refine Grows.cons (⟨.openParen, gap, text⟩ :: used) (fun ls hls => ?_)
        (h.appliedRest hrest)
      rw [List.map_cons, hms]
      exact .call hls hitems
  | field gap text gap₁ text₁ name hrest =>
      exact Grows.cons [⟨.dot, gap, text⟩, ⟨.name name, gap₁, text₁⟩] (fun ls hls => .field hls)
        (h.appliedRest hrest)
  | stop => exact grows_nothing

theorem succ_primary (h : Sound fuel) (hparse : parsePrimary (fuel + 1) ts = .ok (e, rest)) :
    Covers (Derives .primary) ts e.withoutSources rest := by
  cases parsePrimary_eq_ok.1 hparse with
  | literal t hliteral => exact ⟨[t], rfl, .literal hliteral⟩
  | var gap text name => exact ⟨[⟨.name name, gap, text⟩], rfl, .var⟩
  | group gap text gap₁ text₁ hinner =>
      obtain ⟨used, rfl, hused⟩ := h.expr hinner
      refine ⟨⟨.openParen, gap, text⟩ :: (used ++ [⟨.closeParen, gap₁, text₁⟩]), by simp, ?_⟩
      rw [List.map_cons, List.map_append]
      exact .group hused
  | list gap text hitems =>
      obtain ⟨used, rfl, ms, hms, hlist⟩ := h.items hitems
      refine ⟨⟨.openBracket, gap, text⟩ :: used, rfl, ?_⟩
      rw [List.map_cons, hms]
      exact .list hlist
  | dict gap text hentries =>
      obtain ⟨used, rfl, ms, hms, hdict⟩ := h.entries hentries
      refine ⟨⟨.openBrace, gap, text⟩ :: used, rfl, ?_⟩
      rw [List.map_cons, hms]
      exact .dict hdict

theorem succ_expr (h : Sound fuel) (hparse : parseExpr (fuel + 1) ts = .ok (e, rest)) :
    Covers (Derives .expr) ts e.withoutSources rest := by
  cases parseExpr_eq_ok.1 hparse with
  | bind gap text gap₁ text₁ gap₂ text₂ gap₃ text₃ name hvalue hbody =>
      obtain ⟨used₁, rfl, hused₁⟩ := h.expr hvalue
      obtain ⟨used₂, rfl, hused₂⟩ := h.expr hbody
      refine ⟨⟨.letWord, gap, text⟩ :: ⟨.name name, gap₁, text₁⟩ :: ⟨.equals, gap₂, text₂⟩ ::
        (used₁ ++ ⟨.inWord, gap₃, text₃⟩ :: used₂), by simp, ?_⟩
      simp only [List.map_cons, List.map_append]
      exact .bind hused₁ hused₂
  | lambda gap text gap₁ text₁ gap₂ text₂ params hparams hbody =>
      obtain ⟨used₁, rfl, hnames⟩ := parseParams_eq_ok.1 hparams
      obtain ⟨used₂, rfl, hused₂⟩ := h.expr hbody
      refine ⟨⟨.fnWord, gap, text⟩ :: ⟨.openParen, gap₁, text₁⟩ ::
        (used₁ ++ ⟨.arrow, gap₂, text₂⟩ :: used₂), by simp, ?_⟩
      simp only [List.map_cons, List.map_append, hnames, List.append_assoc, List.singleton_append]
      exact .lambda hused₂
  | sum _ hsum => exact (h.sum hsum).mono fun _ => .sum

theorem covers_entry (h : Sound fuel) {entry : String × Expr}
    (hparse : parseEntry fuel ts = .ok (entry, rest)) :
    Covers (Derives .entry) ts (entry.1, entry.2.withoutSources) rest := by
  obtain ⟨t, gap, text, us, rfl, hkey, hvalue⟩ := parseEntry_eq_ok.1 hparse
  obtain ⟨used, rfl, hused⟩ := h.expr hvalue
  exact ⟨t :: ⟨.colon, gap, text⟩ :: used, rfl, .entry hkey hused⟩

theorem succ_items (h : Sound fuel) {close : Lexeme} {es : List Expr}
    (hparse : parseItems (fuel + 1) close ts = .ok (es, rest)) :
    CoversTo close (Derives .items) ts (itemsWithoutSources es) rest :=
  coversTo_delimited (parseItems · close) (fun ls es => Derives .items ls (itemsWithoutSources es))
    (fun ls es => Derives .someItems ls (itemsWithoutSources es)) (parseItems_succ · close)
    .noItems .items h.someItems hparse

theorem succ_entries (h : Sound fuel) {es : List (String × Expr)}
    (hparse : parseEntries (fuel + 1) ts = .ok (es, rest)) :
    CoversTo .closeBrace (Derives .entries) ts (entriesWithoutSources es) rest :=
  coversTo_delimited parseEntries
    (fun ls es => Derives .entries ls (entriesWithoutSources es))
    (fun ls es => Derives .someEntries ls (entriesWithoutSources es)) parseEntries_succ
    .noEntries .entries h.someEntries hparse

theorem succ_someItems (h : Sound fuel) {close : Lexeme} {es : List Expr}
    (hparse : parseSomeItems (fuel + 1) close ts = .ok (es, rest)) :
    CoversTo close (Derives .someItems) ts (itemsWithoutSources es) rest :=
  coversTo_separated (parseSomeItems · close) (fun ls e => Derives .expr ls e.withoutSources)
    (fun ls es => Derives .someItems ls (itemsWithoutSources es))
    (parseSomeItems_succ · close) .lastItem .moreItems h.expr h.someItems hparse

theorem succ_someEntries (h : Sound fuel) {es : List (String × Expr)}
    (hparse : parseSomeEntries (fuel + 1) ts = .ok (es, rest)) :
    CoversTo .closeBrace (Derives .someEntries) ts (entriesWithoutSources es) rest :=
  coversTo_separated parseSomeEntries
    (fun ls entry => Derives .entry ls (entry.1, entry.2.withoutSources))
    (fun ls es => Derives .someEntries ls (entriesWithoutSources es))
    parseSomeEntries_succ .lastEntry .moreEntries h.covers_entry h.someEntries hparse

theorem succ (h : Sound fuel) : Sound (fuel + 1) where
  expr := h.succ_expr
  sum := h.succ_sum
  sumRest := grows_operands parseSumRest_succ derives_operand_of_sum h.product h.sumRest
  product := h.succ_product
  productRest :=
    grows_operands parseProductRest_succ derives_operand_of_product h.unary h.productRest
  unary := h.succ_unary
  appliedRest := h.succ_appliedRest
  primary := h.succ_primary
  items := h.succ_items
  someItems := h.succ_someItems
  entries := h.succ_entries
  someEntries := h.succ_someEntries

end Sound

theorem sound_all (fuel : Nat) : Sound fuel := by
  induction fuel with
  | zero => exact sound_zero
  | succ fuel ih => exact ih.succ

/-- The lexemes of tokens that were read in full spell the expression. -/
theorem derives_of_parseTokens (h : parseTokens ts = .ok e) :
    Derives .expr (ts.map Token.lexeme) e.withoutSources := by
  obtain ⟨used, hts, hderives⟩ := (sound_all _).expr (parseTokens_eq_ok.1 h)
  rw [List.append_nil] at hts
  rwa [hts]

end NodePipeline.Expr

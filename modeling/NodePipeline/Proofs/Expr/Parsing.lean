import NodePipeline.Proofs.Expr.Levels
import NodePipeline.Proofs.Expr.Tokens

/-!
# What parsing takes from its tokens

A level of the grammar reads some tokens off the front. It reads the same tokens
alike wherever what follows is cut off, and the number of these tokens alone bounds
the depth that it needs. The text of a function expression therefore parses to
the body of the function, however deep the function stands in its source.
-/

namespace NodePipeline.Expr

/-! ## Parts of expressions -/

/-- The first expression occurs in the second one. -/
inductive Part (part : Expr) : Expr → Prop
  | refl : Part part part
  | neg {e : Expr} : Part part e → Part part (.neg e)
  | left {op : BinaryOp} {left right : Expr} : Part part left → Part part (.binary op left right)
  | right {op : BinaryOp} {left right : Expr} :
      Part part right → Part part (.binary op left right)
  | item {items : List Expr} {e : Expr} : e ∈ items → Part part e → Part part (.list items)
  | entry {entries : List (String × Expr)} {entry : String × Expr} :
      entry ∈ entries → Part part entry.2 → Part part (.dict entries)
  | bound {name : String} {value body : Expr} :
      Part part value → Part part (.bind name value body)
  | scope {name : String} {value body : Expr} :
      Part part body → Part part (.bind name value body)
  | lambda {params : List String} {body : Expr} {source : String} :
      Part part body → Part part (.lambda params body source)
  | callee {callee : Expr} {args : List Expr} : Part part callee → Part part (.call callee args)
  | arg {callee : Expr} {args : List Expr} {e : Expr} :
      e ∈ args → Part part e → Part part (.call callee args)
  | target {target : Expr} {name : String} : Part part target → Part part (.field target name)

/-- The body and the text of every function in the expression satisfy the predicate. -/
def EveryFunction (P : Expr → String → Prop) (e : Expr) : Prop :=
  ∀ params body text, Part (.lambda params body text) e → P body text

section Functions

variable {P : Expr → String → Prop}

theorem everyFunction_literal (v : Value) : EveryFunction P (.literal v) := nofun

theorem everyFunction_var (name : String) : EveryFunction P (.var name) := nofun

theorem EveryFunction.mono {P' : Expr → String → Prop} {e : Expr} (h : EveryFunction P e)
    (hmono : ∀ body text, P body text → P' body text) : EveryFunction P' e :=
  fun params body text hpart => hmono body text (h params body text hpart)

theorem EveryFunction.neg {e : Expr} (h : EveryFunction P e) : EveryFunction P (.neg e) := by
  intro params body text hpart
  cases hpart with
  | neg hpart => exact h _ _ _ hpart

theorem EveryFunction.binary {left right : Expr} (hl : EveryFunction P left)
    (hr : EveryFunction P right) (op : BinaryOp) : EveryFunction P (.binary op left right) := by
  intro params body text hpart
  cases hpart with
  | left hpart => exact hl _ _ _ hpart
  | right hpart => exact hr _ _ _ hpart

theorem everyFunction_list {items : List Expr} (h : ∀ e ∈ items, EveryFunction P e) :
    EveryFunction P (.list items) := by
  intro params body text hpart
  cases hpart with
  | item he hpart => exact h _ he _ _ _ hpart

theorem everyFunction_dict {entries : List (String × Expr)}
    (h : ∀ entry ∈ entries, EveryFunction P entry.2) : EveryFunction P (.dict entries) := by
  intro params body text hpart
  cases hpart with
  | entry he hpart => exact h _ he _ _ _ hpart

theorem EveryFunction.bind {value body : Expr} (hvalue : EveryFunction P value)
    (hbody : EveryFunction P body) (name : String) : EveryFunction P (.bind name value body) := by
  intro params body text hpart
  cases hpart with
  | bound hpart => exact hvalue _ _ _ hpart
  | scope hpart => exact hbody _ _ _ hpart

theorem EveryFunction.lambda {body : Expr} {text : String} (hbody : EveryFunction P body)
    (htext : P body text) (params : List String) : EveryFunction P (.lambda params body text) := by
  intro params body text hpart
  cases hpart with
  | refl => exact htext
  | lambda hpart => exact hbody _ _ _ hpart

theorem EveryFunction.call {callee : Expr} {args : List Expr} (hcallee : EveryFunction P callee)
    (hargs : ∀ e ∈ args, EveryFunction P e) : EveryFunction P (.call callee args) := by
  intro params body text hpart
  cases hpart with
  | callee hpart => exact hcallee _ _ _ hpart
  | arg he hpart => exact hargs _ he _ _ _ hpart

theorem EveryFunction.field {target : Expr} (h : EveryFunction P target) (name : String) :
    EveryFunction P (.field target name) := by
  intro params body text hpart
  cases hpart with
  | target hpart => exact h _ _ _ hpart

end Functions

/-- The text of every function in the expression parses to the function's body. -/
def Spelled (e : Expr) : Prop :=
  ∀ params body source, Part (.lambda params body source) e → parse source = .ok body

/-! ## Levels of the grammar -/

variable {α β γ : Type}

/-- The level reads `a` off the front of the tokens: it takes at least the given number
of them, reads them alike before every beginning of the rest, and needs a depth of at
most ten for each and the given surplus. What it makes of tokens of a text is good. -/
def Takes (level : Level α) (surplus least : Nat) (good : α → Prop) (ts : List Token) (a : α)
    (rest : List Token) : Prop :=
  ∃ used, ts = used ++ rest ∧ least ≤ used.length ∧ (Scanned used → good a) ∧
    ∀ fuel more, more <+: rest → 10 * used.length + surplus ≤ fuel →
      level fuel (used ++ more) = .ok (a, more)

/-- All levels read in this way to the given bound. -/
structure Local (fuel : Nat) : Prop where
  expr {ts e rest} : parseExpr fuel ts = .ok (e, rest) →
    Takes parseExpr 4 1 Spelled ts e rest
  sum {ts e rest} : parseSum fuel ts = .ok (e, rest) →
    Takes parseSum 3 1 Spelled ts e rest
  sumRest {left ts e rest} : parseSumRest fuel left ts = .ok (e, rest) →
    Takes (parseSumRest · left) 1 0 (fun e => Spelled left → Spelled e) ts e rest
  product {ts e rest} : parseProduct fuel ts = .ok (e, rest) →
    Takes parseProduct 2 1 Spelled ts e rest
  productRest {left ts e rest} : parseProductRest fuel left ts = .ok (e, rest) →
    Takes (parseProductRest · left) 1 0 (fun e => Spelled left → Spelled e) ts e rest
  unary {ts e rest} : parseUnary fuel ts = .ok (e, rest) →
    Takes parseUnary 1 1 Spelled ts e rest
  postfixRest {target ts e rest} : parsePostfixRest fuel target ts = .ok (e, rest) →
    Takes (parsePostfixRest · target) 1 0 (fun e => Spelled target → Spelled e) ts e rest
  primary {ts e rest} : parsePrimary fuel ts = .ok (e, rest) →
    Takes parsePrimary 0 1 Spelled ts e rest
  items {close ts es rest} : parseItems fuel close ts = .ok (es, rest) →
    Takes (parseItems · close) 1 1 (fun es => ∀ e ∈ es, Spelled e) ts es rest
  someItems {close ts es rest} : parseSomeItems fuel close ts = .ok (es, rest) →
    Takes (parseSomeItems · close) 0 1 (fun es => ∀ e ∈ es, Spelled e) ts es rest
  entries {ts es rest} : parseEntries fuel ts = .ok (es, rest) →
    Takes parseEntries 1 1 (fun es => ∀ entry ∈ es, Spelled entry.2) ts es rest
  someEntries {ts es rest} : parseSomeEntries fuel ts = .ok (es, rest) →
    Takes parseSomeEntries 0 1 (fun es => ∀ entry ∈ es, Spelled entry.2) ts es rest

theorem local_zero : Local 0 := by
  constructor <;> exact nofun

/-! ## Levels made of others -/

section Parts

variable {first : Level α} {second : Level β} {level : Level γ} {s₁ s₂ surplus l₁ l₂ least : Nat}
  {good₁ : α → Prop} {good₂ : β → Prop} {good : γ → Prop} {ts middle rest : List Token}
  {a : α} {b : β} {c : γ}

theorem prefix_append {used more rest : List Token} (h : more <+: rest) :
    used ++ more <+: used ++ rest := (List.prefix_append_right_inj used).2 h

/-- A level that takes a step whatever its bound. -/
theorem takes_of_succ (used : List Token) (hts : ts = used ++ rest) (hleast : least ≤ used.length)
    (hgood : Scanned used → good c) (hdepth : 0 < 10 * used.length + surplus)
    (hread : ∀ fuel more, more <+: rest → 10 * used.length + surplus ≤ fuel + 1 →
      level (fuel + 1) (used ++ more) = .ok (c, more)) :
    Takes level surplus least good ts c rest := by
  refine ⟨used, hts, hleast, hgood, fun fuel more hmore hfuel => ?_⟩
  obtain ⟨fuel, rfl⟩ : ∃ k, fuel = k + 1 := ⟨fuel - 1, by omega⟩
  exact hread fuel more hmore hfuel

/-- Two parts that other levels read, with given tokens before and between. -/
theorem Takes.join (front between : List Token)
    (h₁ : Takes first s₁ l₁ good₁ ts a (between ++ middle))
    (h₂ : Takes second s₂ l₂ good₂ middle b rest)
    (hlevel : ∀ fuel us vs more, us <+: ts → first fuel us = .ok (a, between ++ vs) →
      second fuel vs = .ok (b, more) → level (fuel + 1) (front ++ us) = .ok (c, more))
    (hgood : good₁ a → good₂ b → good c)
    (hleast : least ≤ front.length + between.length + l₁ + l₂)
    (hs₁ : s₁ < surplus + 10 * (front.length + between.length + l₂))
    (hs₂ : s₂ < surplus + 10 * (front.length + between.length + l₁)) :
    Takes level surplus least good (front ++ ts) c rest := by
  obtain ⟨used₁, rfl, hleast₁, hgood₁, hread₁⟩ := h₁
  obtain ⟨used₂, rfl, hleast₂, hgood₂, hread₂⟩ := h₂
  have hlength : (front ++ (used₁ ++ (between ++ used₂))).length
      = front.length + between.length + used₁.length + used₂.length := by
    simp only [List.length_append]
    omega
  refine takes_of_succ (front ++ (used₁ ++ (between ++ used₂))) (by simp) (by omega) ?_ (by omega)
    fun fuel more hmore hfuel => ?_
  · intro hscanned
    have hafter : Scanned (used₁ ++ (between ++ used₂)) := hscanned.of_append_right
    exact hgood (hgood₁ hafter.of_append_left) (hgood₂ hafter.of_append_right.of_append_right)
  · have hmiddle : between ++ (used₂ ++ more) <+: between ++ (used₂ ++ rest) :=
      prefix_append (prefix_append hmore)
    simp only [List.append_assoc]
    exact hlevel fuel _ _ more (prefix_append hmiddle) (hread₁ fuel _ hmiddle (by omega))
      (hread₂ fuel more hmore (by omega))

/-- One part that another level reads, with given tokens before and behind. -/
theorem Takes.frame (front back : List Token) (h : Takes first s₁ l₁ good₁ ts a (back ++ rest))
    (hlevel : ∀ fuel us more, us <+: ts → first fuel us = .ok (a, back ++ more) →
      level (fuel + 1) (front ++ us) = .ok (c, more))
    (hgood : good₁ a → good c) (hleast : least ≤ front.length + back.length + l₁)
    (hs : s₁ < surplus + 10 * (front.length + back.length))
    (hdepth : 0 < surplus + 10 * (front.length + back.length + l₁)) :
    Takes level surplus least good (front ++ ts) c rest := by
  have hend : Takes (fun _ us => .ok ((), us)) 0 0 (fun _ => True) rest () rest :=
    ⟨[], rfl, Nat.zero_le _, fun _ => trivial, fun _ _ _ _ => rfl⟩
  refine h.join front back hend (fun fuel us vs more hus hread hvs => ?_) (fun ha _ => hgood ha)
    (by omega) (by omega) (by omega)
  cases hvs
  exact hlevel fuel us vs hus hread

/-- A single token. -/
theorem takes_token {t : Token} (hgood : good c) (surplus : Nat)
    (hlevel : ∀ fuel more, level (fuel + 1) (t :: more) = .ok (c, more)) :
    Takes level surplus 1 good (t :: rest) c rest :=
  takes_of_succ [t] rfl (Nat.le_refl 1) (fun _ => hgood) (Nat.add_pos_left (by simp) _)
    fun fuel more _ _ => hlevel fuel more

/-- A level that stops before the first token. -/
theorem takes_nothing (hgood : good c)
    (hlevel : ∀ fuel more, more <+: ts → level (fuel + 1) more = .ok (c, more)) :
    Takes level 1 0 good ts c ts :=
  takes_of_succ [] rfl (Nat.zero_le _) (fun _ => hgood) (by simp) fun fuel more hmore _ =>
    hlevel fuel more hmore

end Parts

/-- Operands that are read one after the other, each by the next level. -/
theorem takes_operands {op? : Lexeme → Option BinaryOp} {next : Level Expr} {s : Nat}
    {self : Following Expr Expr}
    (hself : ∀ fuel left ts, self (fuel + 1) left ts = operandStep op? next self fuel left ts)
    (hs : s ≤ 10) {fuel : Nat}
    (hnext : ∀ {ts e rest}, next fuel ts = .ok (e, rest) → Takes next s 1 Spelled ts e rest)
    (hrec : ∀ {left ts e rest}, self fuel left ts = .ok (e, rest) →
      Takes (self · left) 1 0 (fun e => Spelled left → Spelled e) ts e rest)
    {left e : Expr} {ts rest : List Token} (hparse : self (fuel + 1) left ts = .ok (e, rest)) :
    Takes (self · left) 1 0 (fun e => Spelled left → Spelled e) ts e rest := by
  rw [hself] at hparse
  cases operandStep_eq_ok.1 hparse with
  | operand t hop hright hrest =>
      refine (hnext hright).join [t] [] (hrec hrest) (fun fuel us vs more _ hright hrest => ?_)
        (fun hright hgood hleft => hgood (EveryFunction.binary hleft hright _)) (by simp)
        (by simp; omega) (by simp)
      rw [hself]
      exact operandStep_eq_ok.2 (.operand t hop hright hrest)
  | stop hstop =>
      refine takes_nothing id fun fuel more hmore => ?_
      rw [hself]
      exact operandStep_eq_ok.2 (.stop fun t ht => hstop t (head?_of_isPrefix hmore ht))

/-- Elements between commas. -/
theorem takes_separated {close : Lexeme} {what : String} {element : Level α}
    {self : Level (List α)} {s : Nat} {good : α → Prop}
    (hself : ∀ fuel ts, self (fuel + 1) ts
      = element fuel ts >>= fun r => separatedStep close what self fuel r.1 r.2)
    (hs : s ≤ 9) {fuel : Nat}
    (helement : ∀ {ts a rest}, element fuel ts = .ok (a, rest) → Takes element s 1 good ts a rest)
    (hrec : ∀ {ts as rest}, self fuel ts = .ok (as, rest) →
      Takes self 0 1 (fun as => ∀ a ∈ as, good a) ts as rest)
    {ts rest : List Token} {as : List α} (hparse : self (fuel + 1) ts = .ok (as, rest)) :
    Takes self 0 1 (fun as => ∀ a ∈ as, good a) ts as rest := by
  rw [hself] at hparse
  obtain ⟨⟨first, middle⟩, hfirst, hstep⟩ := bind_eq_ok.1 hparse
  cases separatedStep_eq_ok.1 hstep with
  | last gap text =>
      refine (helement hfirst).frame [] [⟨close, gap, text⟩] (fun fuel us more _ hfirst => ?_)
        (fun hgood => List.forall_mem_singleton.2 hgood) (by simp) (by simp; omega) (by simp)
      rw [List.nil_append, hself, hfirst]
      exact separatedStep_eq_ok.2 (.last gap text)
  | more gap text hclose hothers =>
      refine (helement hfirst).join [] [⟨.comma, gap, text⟩] (hrec hothers)
        (fun fuel us vs more _ hfirst hothers => ?_)
        (fun hgood hothers => List.forall_mem_cons.2 ⟨hgood, hothers⟩) (by simp)
        (by simp; omega) (by simp)
      rw [List.nil_append, hself, hfirst]
      exact separatedStep_eq_ok.2 (.more gap text hclose hothers)

/-- Elements up to the closing lexeme, if there are any. -/
theorem takes_delimited {close : Lexeme} {next self : Level (List α)} {good : List α → Prop}
    (hself : ∀ fuel ts, self (fuel + 1) ts = delimitedStep close next fuel ts) {fuel : Nat}
    (hnil : good [])
    (hnext : ∀ {ts as rest}, next fuel ts = .ok (as, rest) → Takes next 0 1 good ts as rest)
    {ts rest : List Token} {as : List α} (hparse : self (fuel + 1) ts = .ok (as, rest)) :
    Takes self 1 1 good ts as rest := by
  rw [hself] at hparse
  cases delimitedStep_eq_ok.1 hparse with
  | empty gap text =>
      refine takes_token hnil 1 fun fuel more => ?_
      rw [hself]
      exact delimitedStep_eq_ok.2 (.empty gap text)
  | elements hclear hread =>
      refine (hnext hread).frame [] [] (fun fuel us more hus hread => ?_) id (by simp) (by simp)
        (by simp)
      rw [List.nil_append, hself]
      exact delimitedStep_eq_ok.2 (.elements (hclear.of_isPrefix hus) hread)

/-! ## Texts of functions -/

theorem sourceBetween_append (used rest : List Token) :
    sourceBetween (used ++ rest) rest = String.ofList (Token.spelling used) := by
  unfold sourceBetween
  rw [List.length_append, Nat.add_sub_cancel, List.take_left]

theorem Clear.detached {ls : List Lexeme} {ts : List Token} (h : Clear ls ts) :
    Clear ls (Token.detached ts) := by
  cases ts with
  | nil => exact h
  | cons t us => exact clear_cons (h t rfl)

/-- Blanks before the first token do not matter. -/
theorem parseUnary_detached (fuel : Nat) (ts : List Token) :
    parseUnary fuel (Token.detached ts) = parseUnary fuel ts := by
  cases fuel with
  | zero => rfl
  | succ fuel =>
      rcases starts_or .minus ts with ⟨gap, text, us, rfl⟩ | hclear
      · rfl
      · have hprimary : parsePrimary fuel (Token.detached ts) = parsePrimary fuel ts := by
          cases fuel <;> cases ts <;> rfl
        rw [parseUnary_of_clear hclear.detached, parseUnary_of_clear hclear, hprimary]

theorem parseExpr_detached (fuel : Nat) (ts : List Token) :
    parseExpr fuel (Token.detached ts) = parseExpr fuel ts := by
  have hproduct : ∀ fuel, parseProduct fuel (Token.detached ts) = parseProduct fuel ts := by
    intro fuel
    cases fuel with
    | zero => rfl
    | succ fuel => rw [parseProduct, parseProduct, parseUnary_detached]
  have hsum : ∀ fuel, parseSum fuel (Token.detached ts) = parseSum fuel ts := by
    intro fuel
    cases fuel with
    | zero => rfl
    | succ fuel => rw [parseSum, parseSum, hproduct]
  cases fuel with
  | zero => rfl
  | succ fuel =>
      rcases starts_or .letWord ts with ⟨gap, text, us, rfl⟩ | hlet
      · rfl
      · rcases starts_or .fnWord ts with ⟨gap, text, us, rfl⟩ | hfn
        · rfl
        · have hclear := hlet.cons hfn
          rw [parseExpr_of_clear hclear.detached, parseExpr_of_clear hclear, hsum]

/-- The text of a run of tokens parses to what the tokens are read as. -/
theorem parse_spelling {used : List Token} {e : Expr} (hscanned : Scanned used)
    (hread : parseExpr (10 * (used.length + 1)) used = .ok (e, [])) :
    parse (String.ofList (Token.spelling used)) = .ok e := by
  rw [parse, String.toList_ofList, tokens_spelling hscanned]
  refine parseTokens_eq_ok.2 ?_
  rw [parseExpr_detached, Token.length_detached]
  exact hread

/-- The text of the tokens that an expression took parses to the expression. -/
theorem Takes.text {ts rest : List Token} {e : Expr} (h : Takes parseExpr 4 1 Spelled ts e rest) :
    Takes parseExpr 4 1 (fun e => Spelled e ∧ parse (sourceBetween ts rest) = .ok e) ts e rest := by
  obtain ⟨used, rfl, hpos, hgood, hread⟩ := h
  refine ⟨used, rfl, hpos, fun hscanned => ⟨hgood hscanned, ?_⟩, hread⟩
  have hall := hread (10 * (used.length + 1)) [] List.nil_prefix (by omega)
  rw [List.append_nil] at hall
  rw [sourceBetween_append]
  exact parse_spelling hscanned hall

/-! ## One step of every level -/

namespace Local

variable {fuel : Nat} {ts rest : List Token} {e : Expr}

theorem succ_sum (h : Local fuel) (hparse : parseSum (fuel + 1) ts = .ok (e, rest)) :
    Takes parseSum 3 1 Spelled ts e rest := by
  obtain ⟨first, middle, hfirst, hrest⟩ := parseSum_eq_ok.1 hparse
  exact (h.product hfirst).join [] [] (h.sumRest hrest)
    (fun _ _ _ _ _ hfirst hrest => parseSum_eq_ok.2 ⟨_, _, hfirst, hrest⟩)
    (fun hfirst hgood => hgood hfirst) (by simp) (by simp) (by simp)

theorem succ_product (h : Local fuel) (hparse : parseProduct (fuel + 1) ts = .ok (e, rest)) :
    Takes parseProduct 2 1 Spelled ts e rest := by
  obtain ⟨first, middle, hfirst, hrest⟩ := parseProduct_eq_ok.1 hparse
  exact (h.unary hfirst).join [] [] (h.productRest hrest)
    (fun _ _ _ _ _ hfirst hrest => parseProduct_eq_ok.2 ⟨_, _, hfirst, hrest⟩)
    (fun hfirst hgood => hgood hfirst) (by simp) (by simp) (by simp)

theorem succ_unary (h : Local fuel) (hparse : parseUnary (fuel + 1) ts = .ok (e, rest)) :
    Takes parseUnary 1 1 Spelled ts e rest := by
  cases parseUnary_eq_ok.1 hparse with
  | neg gap text hinner =>
      exact (h.unary hinner).frame [⟨.minus, gap, text⟩] []
        (fun _ _ _ _ hinner => parseUnary_eq_ok.2 (.neg gap text hinner))
        EveryFunction.neg (by simp) (by simp) (by simp)
  | applied hclear hfirst hrest =>
      exact (h.primary hfirst).join [] [] (h.postfixRest hrest)
        (fun _ _ _ _ hus hfirst hrest =>
          parseUnary_eq_ok.2 (.applied (hclear.of_isPrefix hus) hfirst hrest))
        (fun hfirst hgood => hgood hfirst) (by simp) (by simp) (by simp)

theorem succ_postfixRest (h : Local fuel) {target : Expr}
    (hparse : parsePostfixRest (fuel + 1) target ts = .ok (e, rest)) :
    Takes (parsePostfixRest · target) 1 0 (fun e => Spelled target → Spelled e) ts e rest := by
  cases parsePostfixRest_eq_ok.1 hparse with
  | call gap text hargs hrest =>
      exact (h.items hargs).join [⟨.openParen, gap, text⟩] [] (h.postfixRest hrest)
        (fun _ _ _ _ _ hargs hrest => parsePostfixRest_eq_ok.2 (.call gap text hargs hrest))
        (fun hargs hgood htarget => hgood (EveryFunction.call htarget hargs))
        (by simp) (by simp) (by simp)
  | field gap text gap₁ text₁ name hrest =>
      exact (h.postfixRest hrest).frame [⟨.dot, gap, text⟩, ⟨.name name, gap₁, text₁⟩] []
        (fun _ _ _ _ hrest => parsePostfixRest_eq_ok.2 (.field gap text gap₁ text₁ name hrest))
        (fun hgood htarget => hgood (EveryFunction.field htarget name))
        (by simp) (by simp) (by simp)
  | stop hclear =>
      exact takes_nothing id fun _ _ hmore => parsePostfixRest_of_clear (hclear.of_isPrefix hmore)

theorem succ_primary (h : Local fuel) (hparse : parsePrimary (fuel + 1) ts = .ok (e, rest)) :
    Takes parsePrimary 0 1 Spelled ts e rest := by
  cases parsePrimary_eq_ok.1 hparse with
  | literal t hliteral =>
      exact takes_token (everyFunction_literal _) 0 fun _ _ =>
        parsePrimary_eq_ok.2 (.literal t hliteral)
  | var gap text name =>
      exact takes_token (everyFunction_var _) 0 fun _ _ => parsePrimary_eq_ok.2 (.var gap text name)
  | group gap text gap₁ text₁ hinner =>
      exact (h.expr hinner).frame [⟨.openParen, gap, text⟩] [⟨.closeParen, gap₁, text₁⟩]
        (fun _ _ _ _ hinner => parsePrimary_eq_ok.2 (.group gap text gap₁ text₁ hinner))
        id (by simp) (by simp) (by simp)
  | list gap text hitems =>
      exact (h.items hitems).frame [⟨.openBracket, gap, text⟩] []
        (fun _ _ _ _ hitems => parsePrimary_eq_ok.2 (.list gap text hitems))
        everyFunction_list (by simp) (by simp) (by simp)
  | dict gap text hentries =>
      exact (h.entries hentries).frame [⟨.openBrace, gap, text⟩] []
        (fun _ _ _ _ hentries => parsePrimary_eq_ok.2 (.dict gap text hentries))
        everyFunction_dict (by simp) (by simp) (by simp)

theorem takes_entry (h : Local fuel) {entry : String × Expr}
    (hparse : parseEntry fuel ts = .ok (entry, rest)) :
    Takes parseEntry 4 1 (fun entry => Spelled entry.2) ts entry rest := by
  obtain ⟨t, gap, text, us, rfl, hkey, hvalue⟩ := parseEntry_eq_ok.1 hparse
  obtain ⟨used, rfl, -, hgood, hread⟩ := h.expr hvalue
  refine ⟨t :: ⟨.colon, gap, text⟩ :: used, rfl, by simp, fun hscanned => hgood hscanned.2.2,
    fun fuel more hmore hfuel => ?_⟩
  rw [List.length_cons, List.length_cons] at hfuel
  exact parseEntry_eq_ok.2 ⟨t, gap, text, _, rfl, hkey, hread fuel more hmore (by omega)⟩

theorem succ_expr (h : Local fuel) (hparse : parseExpr (fuel + 1) ts = .ok (e, rest)) :
    Takes parseExpr 4 1 Spelled ts e rest := by
  cases parseExpr_eq_ok.1 hparse with
  | bind gap text gap₁ text₁ gap₂ text₂ gap₃ text₃ name hvalue hbody =>
      exact (h.expr hvalue).join
        [⟨.letWord, gap, text⟩, ⟨.name name, gap₁, text₁⟩, ⟨.equals, gap₂, text₂⟩]
        [⟨.inWord, gap₃, text₃⟩] (h.expr hbody)
        (fun _ _ _ _ _ hvalue hbody => parseExpr_eq_ok.2 (.bind _ _ _ _ _ _ _ _ name hvalue hbody))
        (fun hvalue hbody => EveryFunction.bind hvalue hbody name) (by simp) (by simp) (by simp)
  | lambda gap text gap₁ text₁ gap₂ text₂ params hparams hbody =>
      obtain ⟨names, rfl, hnames⟩ := parseParams_eq_ok.1 hparams
      obtain ⟨used, rfl, -, hgood, hread⟩ := (h.expr hbody).text
      refine takes_of_succ (⟨.fnWord, gap, text⟩ :: ⟨.openParen, gap₁, text₁⟩ ::
        (names ++ ⟨.arrow, gap₂, text₂⟩ :: used)) (by simp) (by simp) ?_ (by simp)
        fun fuel more hmore hfuel => ?_
      · intro hscanned
        have hafter : Scanned (names ++ ⟨.arrow, gap₂, text₂⟩ :: used) := hscanned.2.2
        obtain ⟨hbody, htext⟩ := hgood hafter.of_append_right.2
        exact EveryFunction.lambda hbody htext params
      · simp only [List.length_cons, List.length_append] at hfuel
        have hparams : parseParams (names ++ ⟨.arrow, gap₂, text₂⟩ :: (used ++ more))
            = .ok (params, ⟨.arrow, gap₂, text₂⟩ :: (used ++ more)) :=
          parseParams_eq_ok.2 ⟨names, rfl, hnames⟩
        have hlambda := parseExpr_eq_ok.2 (.lambda gap text gap₁ text₁ gap₂ text₂ params hparams
          (hread fuel more hmore (by omega)))
        rw [sourceBetween_append] at hlambda ⊢
        simpa using hlambda
  | sum hclear hsum =>
      exact (h.sum hsum).frame [] []
        (fun _ _ _ hus hsum => parseExpr_eq_ok.2 (.sum (hclear.of_isPrefix hus) hsum))
        id (by simp) (by simp) (by simp)

theorem succ (h : Local fuel) : Local (fuel + 1) where
  expr := h.succ_expr
  sum := h.succ_sum
  sumRest := takes_operands parseSumRest_succ (by omega) h.product h.sumRest
  product := h.succ_product
  productRest := takes_operands parseProductRest_succ (by omega) h.unary h.productRest
  unary := h.succ_unary
  postfixRest := h.succ_postfixRest
  primary := h.succ_primary
  items hparse := takes_delimited (parseItems_succ · _) (fun _ he => nomatch he) h.someItems hparse
  someItems hparse :=
    takes_separated (parseSomeItems_succ · _) (by omega) h.expr h.someItems hparse
  entries := takes_delimited parseEntries_succ (fun _ he => nomatch he) h.someEntries
  someEntries := takes_separated parseSomeEntries_succ (by omega) h.takes_entry h.someEntries

end Local

theorem local_all (fuel : Nat) : Local fuel := by
  induction fuel with
  | zero => exact local_zero
  | succ fuel ih => exact ih.succ

/-- **The text of a function.** Whatever function occurs in an expression that was
parsed, the text that it keeps parses to its body. -/
theorem spelled_of_parse {source : String} {e : Expr} (h : parse source = .ok e) : Spelled e := by
  obtain ⟨ts, htokens, hparse⟩ := bind_eq_ok.1 h
  obtain ⟨used, rfl, -, hgood, -⟩ := (local_all _).expr (parseTokens_eq_ok.1 hparse)
  exact hgood (scanned_of_tokens htokens).of_append_left

end NodePipeline.Expr

import NodePipeline.Expr.Parser
import NodePipeline.Proofs.Results

/-!
# What a level reads

The functions of the parser, one step deep: for each of them the forms in which its tokens
can stand, and what the levels below make of the tokens in between. A result comes about in
these ways and in no other one, so what holds of everything that is read is proved from the
forms alone.
-/

namespace NodePipeline.Expr

/-! ## Single tokens -/

/-- The tokens begin with none of the lexemes. -/
def Clear (ls : List Lexeme) (ts : List Token) : Prop := ∀ t, ts.head? = some t → t.lexeme ∉ ls

section Clear

variable {l : Lexeme} {ls ms : List Lexeme} {ts us : List Token}

theorem clear_nil : Clear ls [] := nofun

theorem clear_cons {gap text : List Char} (h : l ∉ ls) : Clear ls (⟨l, gap, text⟩ :: ts) :=
  fun _ ht => Option.some.inj ht ▸ h

theorem Clear.mono (h : Clear ls ts) (hsub : ∀ l ∈ ms, l ∈ ls) : Clear ms ts :=
  fun t ht hmem => h t ht (hsub _ hmem)

theorem Clear.cons (h : Clear [l] ts) (hls : Clear ls ts) : Clear (l :: ls) ts := by
  intro t ht hmem
  rcases List.mem_cons.1 hmem with hl | hmem
  · exact h t ht (List.mem_singleton.2 hl)
  · exact hls t ht hmem

theorem head?_of_isPrefix (h : us <+: ts) {t : Token} (ht : us.head? = some t) :
    ts.head? = some t := by
  obtain ⟨after, rfl⟩ := h
  cases us with
  | nil => cases ht
  | cons u us => exact ht

theorem Clear.of_isPrefix (h : Clear ls ts) (hpre : us <+: ts) : Clear ls us :=
  fun t ht => h t (head?_of_isPrefix hpre ht)

theorem Clear.ne (h : Clear ls ts) (hl : l ∈ ls) {gap text : List Char} :
    ts ≠ ⟨l, gap, text⟩ :: us :=
  fun hts => h _ (by rw [hts]; rfl) hl

/-- The tokens start with the lexeme, or they do not. -/
theorem starts_or (l : Lexeme) (ts : List Token) :
    (∃ gap text us, ts = ⟨l, gap, text⟩ :: us) ∨ Clear [l] ts := by
  cases ts with
  | nil => exact .inr clear_nil
  | cons t us =>
      obtain ⟨lexeme, gap, text⟩ := t
      by_cases h : lexeme = l
      · subst h
        exact .inl ⟨gap, text, us, rfl⟩
      · exact .inr (clear_cons (by simpa using h))

end Clear

theorem expect_eq_ok {l : Lexeme} {what : String} {ts rest : List Token} :
    expect l what ts = .ok rest ↔ ∃ gap text, ts = ⟨l, gap, text⟩ :: rest := by
  cases ts with
  | nil => simp [expect]
  | cons t ts =>
      obtain ⟨l', gap, text⟩ := t
      by_cases h : l' = l
      · simp [expect, h]
      · simp [expect, h]

theorem expect_of_clear {l : Lexeme} {what : String} {ts : List Token} (h : Clear [l] ts) :
    expect l what ts = .error (.expected what) := by
  cases ts with
  | nil => rfl
  | cons t rest => rw [expect, if_neg (by simpa using h t rfl)]

theorem parseName_eq_ok {ts rest : List Token} {name : String} :
    parseName ts = .ok (name, rest) ↔ ∃ gap text, ts = ⟨.name name, gap, text⟩ :: rest := by
  unfold parseName
  split
  · next name' gap text rest' => simp [and_assoc]
  · next hnone =>
      constructor
      · exact nofun
      · rintro ⟨gap, text, rfl⟩
        exact (hnone name gap text rest rfl).elim

/-- The dictionary key that a lexeme stands for. -/
def keyOf : Lexeme → Option String
  | .name key => some key
  | .str key => some key
  | _ => none

theorem parseKey_eq_ok {ts rest : List Token} {key : String} :
    parseKey ts = .ok (key, rest) ↔ ∃ t, ts = t :: rest ∧ keyOf t.lexeme = some key := by
  cases ts with
  | nil => simp [parseKey]
  | cons t us =>
      obtain ⟨lexeme, gap, text⟩ := t
      cases lexeme <;> simp [parseKey, keyOf, and_comm, and_assoc]

/-! ## Parameters -/

/-- Names with commas between them. -/
def parameterLexemes (params : List String) : List Lexeme :=
  (params.map Lexeme.name).intersperse .comma

theorem parameterLexemes_cons (name : String) (params : List String) :
    parameterLexemes (name :: params) = .name name :: params.flatMap fun p => [.comma, .name p] := by
  induction params generalizing name with
  | nil => rfl
  | cons p rest ih =>
      have hrest := ih p
      unfold parameterLexemes at hrest ⊢
      rw [List.map_cons, List.map_cons, List.intersperse_cons_cons, ← List.map_cons, hrest]
      rfl

/-- Tokens with given lexemes, taken apart as these are. -/
theorem tokens_of_cons {l : Lexeme} {ls : List Lexeme} {ts : List Token}
    (h : ts.map Token.lexeme = l :: ls) :
    ∃ gap text us, ts = ⟨l, gap, text⟩ :: us ∧ us.map Token.lexeme = ls := by
  obtain ⟨⟨_, gap, text⟩, us, rfl, rfl, hus⟩ := List.map_eq_cons_iff.1 h
  exact ⟨gap, text, us, rfl, hus⟩

theorem token_of_singleton {l : Lexeme} {ts : List Token} (h : ts.map Token.lexeme = [l]) :
    ∃ gap text, ts = [⟨l, gap, text⟩] := by
  obtain ⟨gap, text, us, rfl, hus⟩ := tokens_of_cons h
  obtain rfl := List.map_eq_nil_iff.1 hus
  exact ⟨gap, text, rfl⟩

theorem parseMoreParams_eq_ok {ts rest : List Token} {names : List String} :
    parseMoreParams ts = .ok (names, rest) ↔ ∃ used, ts = used ++ rest ∧
      used.map Token.lexeme = names.flatMap (fun p => [.comma, .name p]) ++ [.closeParen] := by
  constructor
  · intro h
    induction ts using parseMoreParams.induct generalizing names with
    | case1 gap text rest' =>
        cases h
        exact ⟨[⟨.closeParen, gap, text⟩], rfl, rfl⟩
    | case2 gap text name gap' text' rest' ih =>
        rw [parseMoreParams] at h
        obtain ⟨⟨names', rest''⟩, hmore, hpure⟩ := bind_eq_ok.1 h
        cases hpure
        obtain ⟨used, rfl, hused⟩ := ih hmore
        exact ⟨⟨.comma, gap, text⟩ :: ⟨.name name, gap', text'⟩ :: used, rfl,
          by simp only [List.map_cons, hused]; rfl⟩
    | case3 gap text rest' hname =>
        rw [parseMoreParams.eq_3 _ _ _ hname] at h
        cases h
    | case4 ts hclose hname hcomma =>
        rw [parseMoreParams.eq_4 _ hclose hname hcomma] at h
        cases h
  · rintro ⟨used, rfl, hused⟩
    induction names generalizing used with
    | nil =>
        obtain ⟨gap, text, rfl⟩ := token_of_singleton hused
        rfl
    | cons name names ih =>
        obtain ⟨gap, text, us, rfl, hus⟩ := tokens_of_cons hused
        obtain ⟨gap', text', more, rfl, hmore⟩ := tokens_of_cons hus
        rw [List.cons_append, List.cons_append, parseMoreParams, ih more hmore]
        rfl

theorem parseParams_eq_ok {ts rest : List Token} {names : List String} :
    parseParams ts = .ok (names, rest) ↔ ∃ used, ts = used ++ rest ∧
      used.map Token.lexeme = parameterLexemes names ++ [.closeParen] := by
  constructor
  · intro h
    unfold parseParams at h
    split at h
    · cases h
      exact ⟨[_], rfl, rfl⟩
    · obtain ⟨⟨name, rest'⟩, hname, h⟩ := bind_eq_ok.1 h
      obtain ⟨⟨names', rest''⟩, hmore, hpure⟩ := bind_eq_ok.1 h
      cases hpure
      obtain ⟨gap, text, rfl⟩ := parseName_eq_ok.1 hname
      obtain ⟨used, rfl, hused⟩ := parseMoreParams_eq_ok.1 hmore
      refine ⟨⟨.name name, gap, text⟩ :: used, rfl, ?_⟩
      rw [List.map_cons, hused, parameterLexemes_cons]
      rfl
  · rintro ⟨used, rfl, hused⟩
    cases names with
    | nil =>
        obtain ⟨gap, text, rfl⟩ := token_of_singleton hused
        rfl
    | cons name names =>
        rw [parameterLexemes_cons] at hused
        obtain ⟨gap, text, us, rfl, hus⟩ := tokens_of_cons hused
        show (parseMoreParams (us ++ rest) >>= _) = _
        rw [parseMoreParams_eq_ok.2 ⟨us, rfl, hus⟩]
        rfl

/-! ## Levels -/

/-- A function that reads from tokens, to a bound on its depth. -/
abbrev Level (α : Type) : Type := Nat → List Token → Except SyntaxFault (α × List Token)

/-- A level that reads what may follow something that has been read. -/
abbrev Following (α β : Type) : Type :=
  Nat → α → List Token → Except SyntaxFault (β × List Token)

section Steps

variable {α : Type} {fuel : Nat} {ts rest : List Token} {e : Expr}

/-! ### Expressions -/

/-- The text of a binding, a function or a sum. -/
inductive ExprStep (fuel : Nat) : List Token → Expr → List Token → Prop
  | bind (gap text gap₁ text₁ gap₂ text₂ gap₃ text₃ : List Char) (name : String)
      {value body : Expr} {ts us rest : List Token} :
      parseExpr fuel ts = .ok (value, ⟨.inWord, gap₃, text₃⟩ :: us) →
      parseExpr fuel us = .ok (body, rest) →
      ExprStep fuel
        (⟨.letWord, gap, text⟩ :: ⟨.name name, gap₁, text₁⟩ :: ⟨.equals, gap₂, text₂⟩ :: ts)
        (.bind name value body) rest
  | lambda (gap text gap₁ text₁ gap₂ text₂ : List Char) (params : List String) {body : Expr}
      {ts us rest : List Token} :
      parseParams ts = .ok (params, ⟨.arrow, gap₂, text₂⟩ :: us) →
      parseExpr fuel us = .ok (body, rest) →
      ExprStep fuel (⟨.fnWord, gap, text⟩ :: ⟨.openParen, gap₁, text₁⟩ :: ts)
        (.lambda params body (sourceBetween us rest)) rest
  | sum {e : Expr} {ts rest : List Token} :
      Clear [.letWord, .fnWord] ts → parseSum fuel ts = .ok (e, rest) → ExprStep fuel ts e rest

theorem parseExpr_of_clear (h : Clear [.letWord, .fnWord] ts) :
    parseExpr (fuel + 1) ts = parseSum fuel ts := by
  cases ts with
  | nil => rfl
  | cons t rest =>
      obtain ⟨lexeme, gap, text⟩ := t
      cases lexeme with
      | letWord | fnWord => exact absurd rfl (h.ne (by simp))
      | _ => rfl

theorem parseExpr_eq_ok :
    parseExpr (fuel + 1) ts = .ok (e, rest) ↔ ExprStep fuel ts e rest := by
  constructor
  · intro h
    rcases starts_or .letWord ts with ⟨gap, text, us, rfl⟩ | hlet
    · rw [parseExpr] at h
      obtain ⟨⟨name, afterName⟩, hname, h⟩ := bind_eq_ok.1 h
      obtain ⟨afterEquals, hequals, h⟩ := bind_eq_ok.1 h
      obtain ⟨⟨value, afterValue⟩, hvalue, h⟩ := bind_eq_ok.1 h
      obtain ⟨afterIn, hin, h⟩ := bind_eq_ok.1 h
      obtain ⟨⟨body, rest'⟩, hbody, hpure⟩ := bind_eq_ok.1 h
      cases hpure
      obtain ⟨gap₁, text₁, rfl⟩ := parseName_eq_ok.1 hname
      obtain ⟨gap₂, text₂, rfl⟩ := expect_eq_ok.1 hequals
      obtain ⟨gap₃, text₃, rfl⟩ := expect_eq_ok.1 hin
      exact .bind gap text gap₁ text₁ gap₂ text₂ gap₃ text₃ name hvalue hbody
    · rcases starts_or .fnWord ts with ⟨gap, text, us, rfl⟩ | hfn
      · rw [parseExpr] at h
        obtain ⟨afterParen, hparen, h⟩ := bind_eq_ok.1 h
        obtain ⟨⟨params, afterParams⟩, hparams, h⟩ := bind_eq_ok.1 h
        obtain ⟨start, harrow, h⟩ := bind_eq_ok.1 h
        obtain ⟨⟨body, rest'⟩, hbody, hpure⟩ := bind_eq_ok.1 h
        cases hpure
        obtain ⟨gap₁, text₁, rfl⟩ := expect_eq_ok.1 hparen
        obtain ⟨gap₂, text₂, rfl⟩ := expect_eq_ok.1 harrow
        exact .lambda gap text gap₁ text₁ gap₂ text₂ params hparams hbody
      · have hclear := hlet.cons hfn
        rw [parseExpr_of_clear hclear] at h
        exact .sum hclear h
  · intro h
    cases h with
    | bind gap text gap₁ text₁ gap₂ text₂ gap₃ text₃ name hvalue hbody =>
        show (parseExpr fuel _ >>= _) = _
        rw [hvalue]
        show (parseExpr fuel _ >>= _) = _
        rw [hbody]
        rfl
    | lambda gap text gap₁ text₁ gap₂ text₂ params hparams hbody =>
        show (parseParams _ >>= _) = _
        rw [hparams]
        show (parseExpr fuel _ >>= _) = _
        rw [hbody]
        rfl
    | sum hclear hsum => rwa [parseExpr_of_clear hclear]

/-! ### Chains of operators -/

theorem parseSum_eq_ok : parseSum (fuel + 1) ts = .ok (e, rest) ↔
    ∃ first middle, parseProduct fuel ts = .ok (first, middle) ∧
      parseSumRest fuel first middle = .ok (e, rest) := by
  rw [parseSum, bind_eq_ok, Prod.exists]

theorem parseProduct_eq_ok : parseProduct (fuel + 1) ts = .ok (e, rest) ↔
    ∃ first middle, parseUnary fuel ts = .ok (first, middle) ∧
      parseProductRest fuel first middle = .ok (e, rest) := by
  rw [parseProduct, bind_eq_ok, Prod.exists]

def sumOp? : Lexeme → Option BinaryOp
  | .plus => some .add
  | .minus => some .sub
  | _ => none

def productOp? : Lexeme → Option BinaryOp
  | .star => some .mul
  | .slash => some .div
  | _ => none

/-- One operand after `left`, if an operator comes first. -/
def operandStep (op? : Lexeme → Option BinaryOp) (next : Level Expr) (self : Following Expr Expr)
    (fuel : Nat) (left : Expr) : List Token → Except SyntaxFault (Expr × List Token)
  | [] => .ok (left, [])
  | t :: rest =>
      match op? t.lexeme with
      | some op => next fuel rest >>= fun r => self fuel (.binary op left r.1) r.2
      | none => .ok (left, t :: rest)

theorem parseSumRest_succ (fuel : Nat) (left : Expr) (ts : List Token) :
    parseSumRest (fuel + 1) left ts = operandStep sumOp? parseProduct parseSumRest fuel left ts := by
  cases ts with
  | nil => rfl
  | cons t rest =>
      obtain ⟨lexeme, gap, text⟩ := t
      cases lexeme <;> rfl

theorem parseProductRest_succ (fuel : Nat) (left : Expr) (ts : List Token) :
    parseProductRest (fuel + 1) left ts
      = operandStep productOp? parseUnary parseProductRest fuel left ts := by
  cases ts with
  | nil => rfl
  | cons t rest =>
      obtain ⟨lexeme, gap, text⟩ := t
      cases lexeme <;> rfl

/-- An operator, an operand and what comes after it; or the end of the chain. -/
inductive OperandStep (op? : Lexeme → Option BinaryOp) (next : Level Expr)
    (self : Following Expr Expr) (fuel : Nat) (left : Expr) :
    List Token → Expr → List Token → Prop
  | operand (t : Token) {op : BinaryOp} {right e : Expr} {ts middle rest : List Token} :
      op? t.lexeme = some op → next fuel ts = .ok (right, middle) →
      self fuel (.binary op left right) middle = .ok (e, rest) →
      OperandStep op? next self fuel left (t :: ts) e rest
  | stop {ts : List Token} : (∀ t, ts.head? = some t → op? t.lexeme = none) →
      OperandStep op? next self fuel left ts left ts

theorem operandStep_eq_ok {left : Expr} {op? : Lexeme → Option BinaryOp} {next : Level Expr}
    {self : Following Expr Expr} :
    operandStep op? next self fuel left ts = .ok (e, rest) ↔
      OperandStep op? next self fuel left ts e rest := by
  constructor
  · intro h
    cases ts with
    | nil => cases h; exact .stop nofun
    | cons t us =>
        cases hop : op? t.lexeme with
        | some op =>
            simp only [operandStep, hop] at h
            obtain ⟨⟨right, middle⟩, hright, hrest⟩ := bind_eq_ok.1 h
            exact .operand t hop hright hrest
        | none =>
            simp only [operandStep, hop] at h
            cases h
            exact .stop fun _ ht => Option.some.inj ht ▸ hop
  · intro h
    cases h with
    | operand t hop hright hrest =>
        simp only [operandStep, hop]
        exact bind_eq_ok.2 ⟨_, hright, hrest⟩
    | stop hstop =>
        cases ts with
        | nil => rfl
        | cons t us => simp only [operandStep, hstop t rfl]

/-! ### Unary expressions, calls and fields -/

/-- A negation, or a primary expression with its calls and fields. -/
inductive UnaryStep (fuel : Nat) : List Token → Expr → List Token → Prop
  | neg (gap text : List Char) {e : Expr} {ts rest : List Token} :
      parseUnary fuel ts = .ok (e, rest) →
      UnaryStep fuel (⟨.minus, gap, text⟩ :: ts) (.neg e) rest
  | applied {first e : Expr} {ts middle rest : List Token} :
      Clear [.minus] ts → parsePrimary fuel ts = .ok (first, middle) →
      parsePostfixRest fuel first middle = .ok (e, rest) → UnaryStep fuel ts e rest

theorem parseUnary_of_clear (h : Clear [.minus] ts) :
    parseUnary (fuel + 1) ts = parsePrimary fuel ts >>= fun r => parsePostfixRest fuel r.1 r.2 := by
  cases ts with
  | nil => rfl
  | cons t rest =>
      obtain ⟨lexeme, gap, text⟩ := t
      cases lexeme with
      | minus => exact absurd rfl (h.ne (by simp))
      | _ => rfl

theorem parseUnary_eq_ok :
    parseUnary (fuel + 1) ts = .ok (e, rest) ↔ UnaryStep fuel ts e rest := by
  constructor
  · intro h
    rcases starts_or .minus ts with ⟨gap, text, us, rfl⟩ | hclear
    · obtain ⟨⟨inner, rest'⟩, hinner, hpure⟩ := bind_eq_ok.1 h
      cases hpure
      exact .neg gap text hinner
    · rw [parseUnary_of_clear hclear] at h
      obtain ⟨⟨first, middle⟩, hfirst, hrest⟩ := bind_eq_ok.1 h
      exact .applied hclear hfirst hrest
  · intro h
    cases h with
    | neg gap text hinner => exact bind_eq_ok.2 ⟨_, hinner, rfl⟩
    | applied hclear hfirst hrest =>
        rw [parseUnary_of_clear hclear]
        exact bind_eq_ok.2 ⟨_, hfirst, hrest⟩

/-- The lexemes that go on with a chain of calls and fields. -/
def afterApplied : List Lexeme := [.openParen, .dot]

/-- A call or a field and what comes after it; or the end of the chain. -/
inductive PostfixStep (fuel : Nat) (target : Expr) : List Token → Expr → List Token → Prop
  | call (gap text : List Char) {args : List Expr} {e : Expr} {ts middle rest : List Token} :
      parseItems fuel .closeParen ts = .ok (args, middle) →
      parsePostfixRest fuel (.call target args) middle = .ok (e, rest) →
      PostfixStep fuel target (⟨.openParen, gap, text⟩ :: ts) e rest
  | field (gap text gap₁ text₁ : List Char) (name : String) {e : Expr} {ts rest : List Token} :
      parsePostfixRest fuel (.field target name) ts = .ok (e, rest) →
      PostfixStep fuel target (⟨.dot, gap, text⟩ :: ⟨.name name, gap₁, text₁⟩ :: ts) e rest
  | stop {ts : List Token} : Clear afterApplied ts → PostfixStep fuel target ts target ts

theorem parsePostfixRest_of_clear {target : Expr} (h : Clear afterApplied ts) :
    parsePostfixRest (fuel + 1) target ts = .ok (target, ts) := by
  cases ts with
  | nil => rfl
  | cons t rest =>
      obtain ⟨lexeme, gap, text⟩ := t
      cases lexeme with
      | openParen | dot => exact absurd rfl (h.ne (by simp [afterApplied]))
      | _ => rfl

theorem parsePostfixRest_eq_ok {target : Expr} :
    parsePostfixRest (fuel + 1) target ts = .ok (e, rest) ↔ PostfixStep fuel target ts e rest := by
  constructor
  · intro h
    rcases starts_or .openParen ts with ⟨gap, text, us, rfl⟩ | hparen
    · obtain ⟨⟨args, middle⟩, hargs, hrest⟩ := bind_eq_ok.1 h
      exact .call gap text hargs hrest
    · rcases starts_or .dot ts with ⟨gap, text, us, rfl⟩ | hdot
      · obtain ⟨⟨name, middle⟩, hname, hrest⟩ := bind_eq_ok.1 h
        obtain ⟨gap₁, text₁, rfl⟩ := parseName_eq_ok.1 hname
        exact .field gap text gap₁ text₁ name hrest
      · have hclear := hparen.cons hdot
        rw [parsePostfixRest_of_clear hclear] at h
        cases h
        exact .stop hclear
  · intro h
    cases h with
    | call gap text hargs hrest => exact bind_eq_ok.2 ⟨_, hargs, hrest⟩
    | field gap text gap₁ text₁ name hrest => exact hrest
    | stop hclear => exact parsePostfixRest_of_clear hclear

/-! ### Primary expressions -/

/-- The value that a lexeme stands for by itself. -/
def literalOf : Lexeme → Option Value
  | .int i => some (.int i)
  | .float x => some (.float x)
  | .str s => some (.str s)
  | .trueWord => some (.bool true)
  | .falseWord => some (.bool false)
  | .nullWord => some .null
  | _ => none

inductive PrimaryStep (fuel : Nat) : List Token → Expr → List Token → Prop
  | literal (t : Token) {v : Value} {ts : List Token} : literalOf t.lexeme = some v →
      PrimaryStep fuel (t :: ts) (.literal v) ts
  | var (gap text : List Char) (name : String) {ts : List Token} :
      PrimaryStep fuel (⟨.name name, gap, text⟩ :: ts) (.var name) ts
  | group (gap text gap₁ text₁ : List Char) {e : Expr} {ts rest : List Token} :
      parseExpr fuel ts = .ok (e, ⟨.closeParen, gap₁, text₁⟩ :: rest) →
      PrimaryStep fuel (⟨.openParen, gap, text⟩ :: ts) e rest
  | list (gap text : List Char) {items : List Expr} {ts rest : List Token} :
      parseItems fuel .closeBracket ts = .ok (items, rest) →
      PrimaryStep fuel (⟨.openBracket, gap, text⟩ :: ts) (.list items) rest
  | dict (gap text : List Char) {entries : List (String × Expr)} {ts rest : List Token} :
      parseEntries fuel ts = .ok (entries, rest) →
      PrimaryStep fuel (⟨.openBrace, gap, text⟩ :: ts) (.dict entries) rest

theorem parsePrimary_eq_ok :
    parsePrimary (fuel + 1) ts = .ok (e, rest) ↔ PrimaryStep fuel ts e rest := by
  constructor
  · intro h
    cases ts with
    | nil => cases h
    | cons t us =>
        obtain ⟨lexeme, gap, text⟩ := t
        cases lexeme with
        | int | float | str | trueWord | falseWord | nullWord => cases h; exact .literal _ rfl
        | name name => cases h; exact .var gap text name
        | openParen =>
            obtain ⟨⟨inner, middle⟩, hinner, hclose⟩ := bind_eq_ok.1 h
            obtain ⟨rest', hexpect, hpure⟩ := bind_eq_ok.1 hclose
            cases hpure
            obtain ⟨gap₁, text₁, rfl⟩ := expect_eq_ok.1 hexpect
            exact .group gap text gap₁ text₁ hinner
        | openBracket =>
            obtain ⟨⟨items, rest'⟩, hitems, hpure⟩ := bind_eq_ok.1 h
            cases hpure
            exact .list gap text hitems
        | openBrace =>
            obtain ⟨⟨entries, rest'⟩, hentries, hpure⟩ := bind_eq_ok.1 h
            cases hpure
            exact .dict gap text hentries
        | _ => cases h
  · intro h
    cases h with
    | literal t hliteral =>
        obtain ⟨lexeme, gap, text⟩ := t
        cases lexeme <;> cases hliteral <;> rfl
    | var => rfl
    | group gap text gap₁ text₁ hinner => exact bind_eq_ok.2 ⟨_, hinner, rfl⟩
    | list gap text hitems => exact bind_eq_ok.2 ⟨_, hitems, rfl⟩
    | dict gap text hentries => exact bind_eq_ok.2 ⟨_, hentries, rfl⟩

/-! ### Elements between commas -/

/-- A key, a colon and a value. -/
def parseEntry : Level (String × Expr) := fun fuel ts => do
  let (key, rest) ← parseKey ts
  let rest ← expect .colon "':' after dictionary key" rest
  let (value, rest) ← parseExpr fuel rest
  return ((key, value), rest)

theorem parseEntry_eq_ok {entry : String × Expr} :
    parseEntry fuel ts = .ok (entry, rest) ↔ ∃ t gap text us,
      ts = t :: ⟨.colon, gap, text⟩ :: us ∧ keyOf t.lexeme = some entry.1 ∧
        parseExpr fuel us = .ok (entry.2, rest) := by
  constructor
  · intro h
    obtain ⟨⟨key, afterKey⟩, hkey, h⟩ := bind_eq_ok.1 h
    obtain ⟨afterColon, hcolon, h⟩ := bind_eq_ok.1 h
    obtain ⟨⟨value, rest'⟩, hvalue, hpure⟩ := bind_eq_ok.1 h
    cases hpure
    obtain ⟨t, rfl, hlexeme⟩ := parseKey_eq_ok.1 hkey
    obtain ⟨gap, text, rfl⟩ := expect_eq_ok.1 hcolon
    exact ⟨t, gap, text, _, rfl, hlexeme, hvalue⟩
  · rintro ⟨t, gap, text, us, rfl, hkey, hvalue⟩
    refine bind_eq_ok.2 ⟨_, parseKey_eq_ok.2 ⟨t, rfl, hkey⟩, ?_⟩
    exact bind_eq_ok.2 ⟨us, rfl, bind_eq_ok.2 ⟨_, hvalue, rfl⟩⟩

/-- What may follow an element: the closing lexeme, or a comma and more elements. -/
def separatedStep (close : Lexeme) (what : String) (self : Level (List α)) (fuel : Nat) (first : α)
    (ts : List Token) : Except SyntaxFault (List α × List Token) :=
  match expect close "" ts with
  | .ok rest => .ok ([first], rest)
  | .error _ => do
      let rest ← expect .comma what ts
      let (more, rest) ← self fuel rest
      return (first :: more, rest)

theorem parseSomeItems_succ (fuel : Nat) (close : Lexeme) (ts : List Token) :
    parseSomeItems (fuel + 1) close ts = parseExpr fuel ts >>= fun r =>
    separatedStep close "',' between items" (parseSomeItems · close) fuel r.1 r.2 := by
  rw [parseSomeItems]
  rfl

theorem parseSomeEntries_succ (fuel : Nat) (ts : List Token) :
    parseSomeEntries (fuel + 1) ts = parseEntry fuel ts >>= fun r =>
    separatedStep .closeBrace "',' between entries" parseSomeEntries fuel r.1 r.2 := by
  rw [parseSomeEntries, parseEntry]
  simp only [bind_assoc]
  rfl

inductive SeparatedStep (close : Lexeme) (self : Level (List α)) (fuel : Nat) (first : α) :
    List Token → List α → List Token → Prop
  | last (gap text : List Char) {rest : List Token} :
      SeparatedStep close self fuel first (⟨close, gap, text⟩ :: rest) [first] rest
  | more (gap text : List Char) {others : List α} {ts rest : List Token} : close ≠ .comma →
      self fuel ts = .ok (others, rest) →
      SeparatedStep close self fuel first (⟨.comma, gap, text⟩ :: ts) (first :: others) rest

theorem separatedStep_eq_ok {close : Lexeme} {what : String} {self : Level (List α)} {first : α}
    {as : List α} : separatedStep close what self fuel first ts = .ok (as, rest) ↔
      SeparatedStep close self fuel first ts as rest := by
  constructor
  · intro h
    rcases starts_or close ts with ⟨gap, text, us, rfl⟩ | hclear
    · simp only [separatedStep, expect, if_true] at h
      cases h
      exact .last gap text
    · simp only [separatedStep, expect_of_clear hclear] at h
      obtain ⟨us, hcomma, h⟩ := bind_eq_ok.1 h
      obtain ⟨⟨others, rest'⟩, hothers, hpure⟩ := bind_eq_ok.1 h
      cases hpure
      obtain ⟨gap, text, rfl⟩ := expect_eq_ok.1 hcomma
      -- Were the closing lexeme a comma, this one would have ended the elements.
      exact .more gap text (fun heq => hclear.ne (by simp [heq]) rfl) hothers
  · intro h
    cases h with
    | last gap text => simp only [separatedStep, expect, if_true]
    | more gap text hclose hothers =>
        simp only [separatedStep, expect, hclose.symm, if_false]
        exact bind_eq_ok.2 ⟨_, rfl, bind_eq_ok.2 ⟨_, hothers, rfl⟩⟩

/-- The closing lexeme, or one element at least. -/
def delimitedStep (close : Lexeme) (next : Level (List α)) (fuel : Nat) (ts : List Token) :
    Except SyntaxFault (List α × List Token) :=
  match expect close "" ts with
  | .ok rest => .ok ([], rest)
  | .error _ => next fuel ts

theorem parseItems_succ (fuel : Nat) (close : Lexeme) (ts : List Token) :
    parseItems (fuel + 1) close ts = delimitedStep close (parseSomeItems · close) fuel ts := by
  rw [parseItems]
  rfl

theorem parseEntries_succ (fuel : Nat) (ts : List Token) :
    parseEntries (fuel + 1) ts = delimitedStep .closeBrace parseSomeEntries fuel ts := by
  cases ts with
  | nil => rfl
  | cons t us =>
      obtain ⟨lexeme, gap, text⟩ := t
      cases lexeme <;> rfl

inductive DelimitedStep (close : Lexeme) (next : Level (List α)) (fuel : Nat) :
    List Token → List α → List Token → Prop
  | empty (gap text : List Char) {ts : List Token} :
      DelimitedStep close next fuel (⟨close, gap, text⟩ :: ts) [] ts
  | elements {as : List α} {ts rest : List Token} : Clear [close] ts →
      next fuel ts = .ok (as, rest) → DelimitedStep close next fuel ts as rest

theorem delimitedStep_eq_ok {close : Lexeme} {next : Level (List α)} {as : List α} :
    delimitedStep close next fuel ts = .ok (as, rest) ↔
      DelimitedStep close next fuel ts as rest := by
  constructor
  · intro h
    rcases starts_or close ts with ⟨gap, text, us, rfl⟩ | hclear
    · simp only [delimitedStep, expect, if_true] at h
      cases h
      exact .empty gap text
    · simp only [delimitedStep, expect_of_clear hclear] at h
      exact .elements hclear h
  · intro h
    cases h with
    | empty gap text => simp only [delimitedStep, expect, if_true]
    | elements hclear hread =>
        simp only [delimitedStep, expect_of_clear hclear]
        exact hread

/-! ### All the tokens -/

theorem parseTokens_eq_ok :
    parseTokens ts = .ok e ↔ parseExpr (10 * (ts.length + 1)) ts = .ok (e, []) := by
  cases ts with
  | nil => exact ⟨nofun, nofun⟩
  | cons t us =>
      rw [parseTokens, if_neg (by simp)]
      constructor
      · intro h
        obtain ⟨⟨e', rest⟩, hexpr, hend⟩ := bind_eq_ok.1 h
        cases rest with
        | nil => cases hend; exact hexpr
        | cons extra rest => cases hend
      · exact fun h => bind_eq_ok.2 ⟨_, h, rfl⟩

end Steps

end NodePipeline.Expr

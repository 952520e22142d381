import NodePipeline.Proofs.Expr.Parsing
import NodePipeline.Proofs.Expr.Words
import NodePipeline.Proofs.Text.Blank

/-!
# Texts of functions

A function keeps the text of its body as it stands in the source, from the start of a token
to the end of one. No blank stands at the ends of this text, it is read as the tokens that
were read there, and it parses to the body of the function.
-/

namespace NodePipeline.Expr

open Text (isBlank Trimmed trimmed_of_forall)

/-! ## Excerpts -/

/-- The text is spelled by a run of the tokens. -/
def Excerpt (ts : List Token) (text : String) : Prop :=
  ∃ run, run <:+: ts ∧ text = String.ofList (Token.spelling run)

/-- Every function in the expression keeps an excerpt of the tokens. -/
def Quotes (ts : List Token) (e : Expr) : Prop := EveryFunction (fun _ text => Excerpt ts text) e

/-- All levels that read to the given bound quote their tokens. What has been read before is
quoted from more tokens than are left. -/
structure Quoting (fuel : Nat) : Prop where
  expr {ts e rest} : parseExpr fuel ts = .ok (e, rest) → Quotes ts e
  sum {ts e rest} : parseSum fuel ts = .ok (e, rest) → Quotes ts e
  sumRest {all left ts e rest} : parseSumRest fuel left ts = .ok (e, rest) →
    ts <:+ all → Quotes all left → Quotes all e
  product {ts e rest} : parseProduct fuel ts = .ok (e, rest) → Quotes ts e
  productRest {all left ts e rest} : parseProductRest fuel left ts = .ok (e, rest) →
    ts <:+ all → Quotes all left → Quotes all e
  unary {ts e rest} : parseUnary fuel ts = .ok (e, rest) → Quotes ts e
  postfixRest {all target ts e rest} : parsePostfixRest fuel target ts = .ok (e, rest) →
    ts <:+ all → Quotes all target → Quotes all e
  primary {ts e rest} : parsePrimary fuel ts = .ok (e, rest) → Quotes ts e
  items {close ts es rest} : parseItems fuel close ts = .ok (es, rest) → ∀ e ∈ es, Quotes ts e
  someItems {close ts es rest} : parseSomeItems fuel close ts = .ok (es, rest) →
    ∀ e ∈ es, Quotes ts e
  entries {ts es rest} : parseEntries fuel ts = .ok (es, rest) →
    ∀ entry ∈ es, Quotes ts entry.2
  someEntries {ts es rest} : parseSomeEntries fuel ts = .ok (es, rest) →
    ∀ entry ∈ es, Quotes ts entry.2

variable {α : Type} {fuel : Nat} {all ts us rest : List Token} {e : Expr}

theorem Excerpt.mono {text : String} (h : Excerpt us text) (hsub : us <:+ ts) : Excerpt ts text := by
  obtain ⟨run, hrun, htext⟩ := h
  exact ⟨run, hrun.trans hsub.isInfix, htext⟩

theorem Quotes.mono (h : Quotes us e) (hsub : us <:+ ts) : Quotes ts e :=
  EveryFunction.mono h fun _ _ hexcerpt => hexcerpt.mono hsub

theorem Quotes.cons (h : Quotes ts e) (t : Token) : Quotes (t :: ts) e :=
  h.mono (List.suffix_cons t ts)

theorem Takes.suffix {level : Level α} {surplus least : Nat} {good : α → Prop} {a : α}
    (h : Takes level surplus least good ts a rest) : rest <:+ ts := by
  obtain ⟨used, rfl, -⟩ := h
  exact List.suffix_append used rest

theorem quotes_operands {op? : Lexeme → Option BinaryOp} {next : Level Expr}
    {self : Following Expr Expr}
    (hself : ∀ fuel left ts, self (fuel + 1) left ts = operandStep op? next self fuel left ts)
    (hsuffix : ∀ {ts e rest}, next fuel ts = .ok (e, rest) → rest <:+ ts)
    (hnext : ∀ {ts e rest}, next fuel ts = .ok (e, rest) → Quotes ts e)
    (hrec : ∀ {left ts e rest}, self fuel left ts = .ok (e, rest) →
      ts <:+ all → Quotes all left → Quotes all e)
    {left : Expr} (hparse : self (fuel + 1) left ts = .ok (e, rest)) (hall : ts <:+ all)
    (hleft : Quotes all left) : Quotes all e := by
  rw [hself] at hparse
  cases operandStep_eq_ok.1 hparse with
  | operand t hop hright hrest =>
      have hafter := (List.suffix_cons t _).trans hall
      refine hrec hrest ((hsuffix hright).trans hafter) ?_
      exact EveryFunction.binary hleft ((hnext hright).mono hafter) _
  | stop => exact hleft

/-- Elements between commas, where `part` is the expression in an element. -/
theorem quotes_separated (self : Level (List α)) (part : α → Expr) {close : Lexeme} {what : String}
    {element : Level α}
    (hself : ∀ fuel ts, self (fuel + 1) ts
      = element fuel ts >>= fun r => separatedStep close what self fuel r.1 r.2)
    (hsuffix : ∀ {ts a rest}, element fuel ts = .ok (a, rest) → rest <:+ ts)
    (helement : ∀ {ts a rest}, element fuel ts = .ok (a, rest) → Quotes ts (part a))
    (hrec : ∀ {ts as rest}, self fuel ts = .ok (as, rest) → ∀ a ∈ as, Quotes ts (part a))
    {as : List α} (hparse : self (fuel + 1) ts = .ok (as, rest)) :
    ∀ a ∈ as, Quotes ts (part a) := by
  rw [hself] at hparse
  obtain ⟨⟨first, middle⟩, hfirst, hstep⟩ := bind_eq_ok.1 hparse
  cases separatedStep_eq_ok.1 hstep with
  | last gap text => exact List.forall_mem_singleton.2 (helement hfirst)
  | more gap text _ hothers =>
      refine List.forall_mem_cons.2 ⟨helement hfirst, fun a ha => ?_⟩
      exact (hrec hothers a ha).mono ((List.suffix_cons _ _).trans (hsuffix hfirst))

theorem quotes_delimited (self : Level (List α)) (part : α → Expr) {close : Lexeme}
    {next : Level (List α)}
    (hself : ∀ fuel ts, self (fuel + 1) ts = delimitedStep close next fuel ts)
    (hnext : ∀ {ts as rest}, next fuel ts = .ok (as, rest) → ∀ a ∈ as, Quotes ts (part a))
    {as : List α} (hparse : self (fuel + 1) ts = .ok (as, rest)) :
    ∀ a ∈ as, Quotes ts (part a) := by
  rw [hself] at hparse
  cases delimitedStep_eq_ok.1 hparse with
  | empty gap text => exact fun a ha => nomatch ha
  | elements _ hread => exact hnext hread

namespace Quoting

theorem succ_sum (h : Quoting fuel) (hparse : parseSum (fuel + 1) ts = .ok (e, rest)) :
    Quotes ts e := by
  obtain ⟨first, middle, hfirst, hrest⟩ := parseSum_eq_ok.1 hparse
  exact h.sumRest hrest ((local_all fuel).product hfirst).suffix (h.product hfirst)

theorem succ_product (h : Quoting fuel) (hparse : parseProduct (fuel + 1) ts = .ok (e, rest)) :
    Quotes ts e := by
  obtain ⟨first, middle, hfirst, hrest⟩ := parseProduct_eq_ok.1 hparse
  exact h.productRest hrest ((local_all fuel).unary hfirst).suffix (h.unary hfirst)

theorem succ_unary (h : Quoting fuel) (hparse : parseUnary (fuel + 1) ts = .ok (e, rest)) :
    Quotes ts e := by
  cases parseUnary_eq_ok.1 hparse with
  | neg gap text hinner => exact EveryFunction.neg ((h.unary hinner).cons _)
  | applied _ hfirst hrest =>
      exact h.postfixRest hrest ((local_all fuel).primary hfirst).suffix (h.primary hfirst)

theorem succ_postfixRest (h : Quoting fuel) {target : Expr}
    (hparse : parsePostfixRest (fuel + 1) target ts = .ok (e, rest)) (hall : ts <:+ all)
    (htarget : Quotes all target) : Quotes all e := by
  cases parsePostfixRest_eq_ok.1 hparse with
  | call gap text hargs hrest =>
      have hafter := (List.suffix_cons _ _).trans hall
      refine h.postfixRest hrest (((local_all fuel).items hargs).suffix.trans hafter) ?_
      exact EveryFunction.call htarget fun arg harg => (h.items hargs arg harg).mono hafter
  | field gap text gap₁ text₁ name hrest =>
      refine h.postfixRest hrest ?_ (EveryFunction.field htarget name)
      exact ((List.suffix_cons _ _).trans (List.suffix_cons _ _)).trans hall
  | stop => exact htarget

theorem succ_primary (h : Quoting fuel) (hparse : parsePrimary (fuel + 1) ts = .ok (e, rest)) :
    Quotes ts e := by
  cases parsePrimary_eq_ok.1 hparse with
  | literal t hliteral => exact everyFunction_literal _
  | var gap text name => exact everyFunction_var name
  | group gap text gap₁ text₁ hinner => exact (h.expr hinner).cons _
  | list gap text hitems =>
      exact everyFunction_list fun item hitem => (h.items hitems item hitem).cons _
  | dict gap text hentries =>
      exact everyFunction_dict fun entry hentry => (h.entries hentries entry hentry).cons _

theorem succ_expr (h : Quoting fuel) (hparse : parseExpr (fuel + 1) ts = .ok (e, rest)) :
    Quotes ts e := by
  cases parseExpr_eq_ok.1 hparse with
  | bind gap text gap₁ text₁ gap₂ text₂ gap₃ text₃ name hvalue hbody =>
      have hbehind := (List.suffix_cons _ _).trans ((local_all fuel).expr hvalue).suffix
      have hbind : Quotes _ (.bind name _ _) :=
        EveryFunction.bind (h.expr hvalue) ((h.expr hbody).mono hbehind) name
      exact ((hbind.cons _).cons _).cons _
  | @lambda gap text gap₁ text₁ gap₂ text₂ params body _ us _ hparams hbody =>
      have hlambda : Quotes us (.lambda params body (sourceBetween us rest)) := by
        refine EveryFunction.lambda (h.expr hbody) ?_ params
        -- The text is spelled by the tokens that the body took.
        obtain ⟨used, rfl, -⟩ := (local_all fuel).expr hbody
        rw [sourceBetween_append]
        exact ⟨used, (List.prefix_append used rest).isInfix, rfl⟩
      obtain ⟨names, rfl, -⟩ := parseParams_eq_ok.1 hparams
      exact (((hlambda.cons _).mono (List.suffix_append names _)).cons _).cons _
  | sum _ hsum => exact h.sum hsum

theorem quotes_entry (h : Quoting fuel) {entry : String × Expr}
    (hparse : parseEntry fuel ts = .ok (entry, rest)) : Quotes ts entry.2 := by
  obtain ⟨t, gap, text, us, rfl, -, hvalue⟩ := parseEntry_eq_ok.1 hparse
  exact ((h.expr hvalue).cons _).cons t

theorem succ (h : Quoting fuel) : Quoting (fuel + 1) where
  expr := h.succ_expr
  sum := h.succ_sum
  sumRest hparse := quotes_operands parseSumRest_succ
    (fun hnext => ((local_all fuel).product hnext).suffix) h.product h.sumRest hparse
  product := h.succ_product
  productRest hparse := quotes_operands parseProductRest_succ
    (fun hnext => ((local_all fuel).unary hnext).suffix) h.unary h.productRest hparse
  unary := h.succ_unary
  postfixRest := h.succ_postfixRest
  primary := h.succ_primary
  items {close _ _ _} hparse :=
    quotes_delimited (parseItems · close) id (parseItems_succ · close) h.someItems hparse
  someItems {close _ _ _} hparse := quotes_separated (parseSomeItems · close) id
    (parseSomeItems_succ · close) (fun hfirst => ((local_all fuel).expr hfirst).suffix) h.expr
    h.someItems hparse
  entries := quotes_delimited parseEntries Prod.snd parseEntries_succ h.someEntries
  someEntries := quotes_separated parseSomeEntries Prod.snd parseSomeEntries_succ
    (fun hfirst => ((local_all fuel).takes_entry hfirst).suffix) h.quotes_entry h.someEntries

end Quoting

theorem quoting_zero : Quoting 0 := by
  constructor <;> exact nofun

theorem quoting_all (fuel : Nat) : Quoting fuel := by
  induction fuel with
  | zero => exact quoting_zero
  | succ fuel ih => exact ih.succ

/-- Functions keep runs of the tokens that were parsed. -/
theorem quotes_of_parse {source : String} (h : parse source = .ok e) :
    ∃ ts, tokens source.toList = .ok ts ∧ Quotes ts e := by
  obtain ⟨ts, htokens, hparse⟩ := bind_eq_ok.1 h
  exact ⟨ts, htokens, (quoting_all _).expr (parseTokens_eq_ok.1 hparse)⟩

/-! ## Ends of excerpts -/

theorem take_length_takeWhile {p : α → Bool} (xs : List α) :
    xs.take (xs.takeWhile p).length = xs.takeWhile p :=
  (List.prefix_iff_eq_take.1 (List.takeWhile_prefix p)).symm

theorem isBlank_of_mem_digits {cs : List Char} {c : Char} (h : c ∈ cs.takeWhile Char.isDigit) :
    isBlank c = false := Text.isBlank_of_isDigit (List.mem_takeWhile_imp h)

theorem notBlank_of_scanNumber {cs : List Char} {l : Lexeme} {n : Nat}
    (h : scanNumber cs = .ok (l, n)) : ∀ c ∈ cs.take n, isBlank c = false := by
  rcases (scanNumber_eq rfl rfl).1 h with ⟨d, rest, htail, -, -, rfl⟩ | ⟨-, hint⟩
  · intro c hc
    rw [Nat.add_assoc, List.take_add, take_length_takeWhile, htail, Nat.add_comm 1,
      List.take_succ_cons, take_length_takeWhile, List.mem_append, List.mem_cons] at hc
    rcases hc with hwhole | rfl | hfraction
    · exact isBlank_of_mem_digits hwhole
    · decide
    · exact isBlank_of_mem_digits hfraction
  · intro c hc
    rw [integerLexeme_length hint, take_length_takeWhile] at hc
    exact isBlank_of_mem_digits hc

/-- A string ends with its closing quote. -/
theorem scanString_last {cs s : List Char} {n : Nat} (h : scanString cs = some (s, n)) :
    (cs.take n).getLast? = some '"' := by
  induction cs using scanString.induct generalizing s n with
  | case1 => cases h
  | case2 rest => cases h; rfl
  | case3 c rest ih =>
      simp only [scanString, Option.map_eq_some_iff, Prod.exists, Prod.mk.injEq] at h
      obtain ⟨s', n', h', -, rfl⟩ := h
      simp [List.getLast?_cons, ih h']
  | case4 => cases h
  | case5 c rest hquote hescape hlone ih =>
      rw [scanString.eq_5 c rest hquote hescape hlone] at h
      simp only [Option.map_eq_some_iff, Prod.exists, Prod.mk.injEq] at h
      obtain ⟨s', n', h', -, rfl⟩ := h
      simp [List.getLast?_cons, ih h']

theorem notBlank_of_scanSymbol {c : Char} {rest : List Char} {l : Lexeme} {n : Nat}
    (h : scanSymbol c rest = .ok (l, n)) : ∀ d ∈ (c :: rest).take n, isBlank d = false := by
  have hone : isBlank c = false → ∀ d ∈ (c :: rest).take 1, isBlank d = false := by
    intro hc d hd
    rwa [List.mem_singleton.1 hd]
  unfold scanSymbol at h
  split at h
  case h_2 =>
    split at h
    · next harrow =>
        cases h
        obtain ⟨d, rest, rfl⟩ : ∃ d us, rest = d :: us :=
          List.exists_cons_of_ne_nil fun hnil => by simp [hnil] at harrow
        cases harrow
        intro d hd
        rcases List.mem_cons.1 hd with rfl | hd
        · decide
        · rw [List.mem_singleton.1 hd]
          decide
    · cases h
      exact hone (by decide)
  all_goals first
    | (cases h; exact hone (by decide))
    | cases h

theorem trimmed_of_scan {c : Char} {rest : List Char} {l : Lexeme} {n : Nat}
    (h : scan c rest = .ok (l, n)) : Trimmed ((c :: rest).take n) := by
  rcases scan_eq_ok.1 h with ⟨-, hnumber⟩ | ⟨-, -, -, rfl⟩ | ⟨rfl, s, k, hstring, -, rfl⟩ |
    ⟨-, -, -, hsymbol⟩
  · exact trimmed_of_forall (notBlank_of_scanNumber hnumber)
  · rw [take_length_takeWhile]
    exact trimmed_of_forall fun d hd => isBlank_of_isNamePart (List.mem_takeWhile_imp hd)
  · constructor
    · intro d hd
      cases hd
      decide
    · intro d hd
      rw [List.take_succ_cons, List.getLast?_cons, scanString_last hstring] at hd
      cases hd
      decide
  · exact trimmed_of_forall (notBlank_of_scanSymbol hsymbol)

/-- No token begins or ends with a blank. -/
theorem Token.Heads.trimmed {t : Token} {after : List Char} (h : t.Heads after) :
    Trimmed t.text := by
  obtain ⟨c, text, htext, -, hscan⟩ := h.text
  have htrimmed := trimmed_of_scan hscan
  rwa [← List.cons_append, ← htext, List.take_left] at htrimmed

theorem Token.Heads.text_ne_nil {t : Token} {after : List Char} (h : t.Heads after) :
    t.text ≠ [] := by
  obtain ⟨c, text, htext, -⟩ := h.text
  simp [htext]

theorem trimmed_spelling {run : List Token} (h : Scanned run) : Trimmed (Token.spelling run) := by
  cases run with
  | nil => exact trimmed_of_forall nofun
  | cons first rest =>
      rcases List.eq_nil_or_concat' rest with rfl | ⟨init, last, rfl⟩
      · simpa [Token.spelling] using h.1.trimmed
      · have hlast := h.2.of_append_right.1
        have happend := h.1.trimmed.append hlast.trimmed h.1.text_ne_nil hlast.text_ne_nil
          (Token.written init ++ last.gap)
        simpa [Token.spelling, Token.written] using happend

theorem written_eq (ts : List Token) :
    ∃ gap, Token.written ts = gap ++ Token.spelling ts := by
  cases ts with
  | nil => exact ⟨[], rfl⟩
  | cons t rest => exact ⟨t.gap, by simp [Token.written, Token.spelling]⟩

theorem spelling_infix {source : String} (htokens : tokens source.toList = .ok ts)
    {run : List Token} (hrun : run <:+: ts) : Token.spelling run <:+: source.toList := by
  obtain ⟨before, after, rfl⟩ := hrun
  obtain ⟨more, hsource, -⟩ := written_of_tokens htokens
  obtain ⟨gap, hgap⟩ := written_eq run
  rw [hsource, Token.written_append, Token.written_append, hgap]
  exact ⟨Token.written before ++ gap, Token.written after ++ more, by simp⟩

/-! ## Functions in a source -/

/-- **The text of a function is its body.** Whatever function stands in a source that parses,
within others or not, its text parses to its body, texts of the functions in the body
included. The text is a piece of the source without blanks at its ends, and
is read as just the tokens that were read there. -/
theorem function_text_parses_to_its_body {source : String} {e : Expr} (h : parse source = .ok e)
    {params : List String} {body : Expr} {text : String}
    (hpart : Part (.lambda params body text) e) :
    parse text = .ok body ∧ text.toList <:+: source.toList ∧ Text.trim text = text ∧
      ∃ ts run, tokens source.toList = .ok ts ∧ run <:+: ts ∧
        tokens text.toList = .ok (Token.detached run) := by
  obtain ⟨ts, htokens, hquotes⟩ := quotes_of_parse h
  obtain ⟨run, hrun, rfl⟩ := hquotes params body text hpart
  have hscanned : Scanned run := by
    obtain ⟨before, after, rfl⟩ := hrun
    exact (scanned_of_tokens htokens).of_append_left.of_append_right
  refine ⟨spelled_of_parse h params body _ hpart, ?_, ?_, ts, run, htokens, hrun, ?_⟩
  · rw [String.toList_ofList]
    exact spelling_infix htokens hrun
  · exact Text.trim_of_trimmed (trimmed_spelling hscanned)
  · rw [String.toList_ofList]
    exact tokens_spelling hscanned

/-- A function within a function, whose body stands in brackets, and one whose body is a
string with a bracket, a quote and a blank at its end. -/
def nestedSource : String := "[fn(x) -> fn() -> (x.a - -1) , fn() -> \") \\\" \" ]"

def nestedExpr : Expr :=
  .list [.lambda ["x"]
      (.lambda [] (.binary .sub (.field (.var "x") "a") (.neg (.literal (.int 1)))) "(x.a - -1)")
      "fn() -> (x.a - -1)",
    .lambda [] (.literal (.str ") \" ")) "\") \\\" \""]

/-- The brackets belong to the text and not to the body, the blanks behind it to neither. -/
theorem nested_texts_parse :
    parse "(x.a - -1)"
        = .ok (.binary .sub (.field (.var "x") "a") (.neg (.literal (.int 1)))) ∧
      parse "\") \\\" \"" = .ok (.literal (.str ") \" ")) := by
  have hparse : parse nestedSource = .ok nestedExpr := by cbv
  constructor
  · exact (function_text_parses_to_its_body hparse (.item List.mem_cons_self (.lambda .refl))).1
  · have hpart : Part (.lambda [] (.literal (.str ") \" ")) "\") \\\" \"") nestedExpr :=
      .item (List.mem_cons_of_mem _ List.mem_cons_self) .refl
    exact (function_text_parses_to_its_body hparse hpart).1

end NodePipeline.Expr

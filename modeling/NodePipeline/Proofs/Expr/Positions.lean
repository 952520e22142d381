import NodePipeline.Expr.Positions
import NodePipeline.Proofs.Expr.Covering
import NodePipeline.Proofs.Expr.FunctionTexts

/-!
# Parsing in place reads the expression

The parser in place stands at the first of the tokens that `parseExpr` has left. Level by level
it gives the same expression or the same fault, and it moves to the tokens that are left then.
So it ends, and it finds the token and the text that it cuts out of the source.
-/

namespace NodePipeline.Expr

open Text (width)

variable {α β : Type} {source : String} {all ts us : List Token} {t : Token} {l : Lexeme}

/-! ## Positions among tokens -/

/-- The index of the first of the tokens that are left. -/
def place (all ts : List Token) : Nat := all.length - ts.length

theorem place_append (ts us : List Token) : place (ts ++ us) us = ts.length := by
  rw [place, List.length_append, Nat.add_sub_cancel]

theorem place_tail (h : t :: ts <:+ all) : place all (t :: ts) + 1 = place all ts := by
  have := h.length_le
  rw [List.length_cons] at this
  rw [place, place, List.length_cons]
  omega

theorem tail_suffix (h : t :: ts <:+ all) : ts <:+ all := (List.suffix_cons t ts).trans h

/-- A source with the spans of all its tokens. -/
def inputOf (source : String) (all : List Token) : Input := ⟨source, Token.spans 0 all⟩

theorem lexemeAt_place (h : ts <:+ all) :
    (inputOf source all).lexemeAt (place all ts) = ts.head?.map (·.lexeme) := by
  obtain ⟨before, rfl⟩ := h
  rw [Input.lexemeAt, inputOf, ← List.getElem?_map, Token.map_lexeme_spans, List.getElem?_map,
    place_append, List.getElem?_append_right (Nat.le_refl _), Nat.sub_self, List.head?_eq_getElem?]

theorem lexemeAt_cons {gap text : List Char} (h : ⟨l, gap, text⟩ :: us <:+ all) :
    (inputOf source all).lexemeAt (place all (⟨l, gap, text⟩ :: us)) = some l :=
  lexemeAt_place h

theorem lexemeAt_ne (h : ts <:+ all) (hclear : Clear [l] ts) :
    (inputOf source all).lexemeAt (place all ts) ≠ some l := by
  rw [lexemeAt_place h]
  intro hl
  obtain ⟨t, ht, rfl⟩ := Option.map_eq_some_iff.1 hl
  exact hclear t ht List.mem_cons_self

theorem clear_of_forall (h : ∀ gap text us, ts = ⟨l, gap, text⟩ :: us → False) : Clear [l] ts :=
  (starts_or l ts).resolve_left fun ⟨gap, text, us, hts⟩ => h gap text us hts

/-- What a level reads, with the index of the tokens that it leaves. -/
def inPlace (all : List Token) (r : Except SyntaxFault (α × List Token)) : Reading (α × Nat) :=
  .orFault (r.map fun (a, rest) => (a, place all rest))

theorem inPlace_bind {x : Reading (α × Nat)} {r : Except SyntaxFault (α × List Token)}
    {f : α × Nat → Reading (β × Nat)}
    {g : α × List Token → Except SyntaxFault (β × List Token)} (hx : x = inPlace all r)
    (hf : ∀ a rest, r = .ok (a, rest) → f (a, place all rest) = inPlace all (g (a, rest))) :
    x >>= f = inPlace all (r >>= g) :=
  Reading.bind_orFault hx fun (a, rest) hr => hf a rest hr

/-! ## Single tokens -/

theorem expect_place (h : ts <:+ all) (l : Lexeme) (what : String) :
    (inputOf source all).expect l what (place all ts)
      = .orFault ((expect l what ts).map (place all)) := by
  rcases starts_or l ts with ⟨gap, text, us, rfl⟩ | hclear
  · rw [Input.expect, if_pos (lexemeAt_cons h), place_tail h, expect, if_pos rfl]
    rfl
  · rw [Input.expect, if_neg (lexemeAt_ne h hclear), expect_of_clear hclear]
    rfl

theorem name_place (h : ts <:+ all) :
    (inputOf source all).name (place all ts) = inPlace all (parseName ts) := by
  rw [Input.name, lexemeAt_place h]
  cases ts with
  | nil => rfl
  | cons t us =>
      obtain ⟨lexeme, gap, text⟩ := t
      cases lexeme with
      | name name =>
          show pure (name, _ + 1) = _
          rw [place_tail h]
          rfl
      | _ => rfl

theorem key_place (h : ts <:+ all) :
    (inputOf source all).key (place all ts) = inPlace all (parseKey ts) := by
  rw [Input.key, lexemeAt_place h]
  cases ts with
  | nil => rfl
  | cons t us =>
      obtain ⟨lexeme, gap, text⟩ := t
      cases lexeme with
      | name key | str key =>
          show pure (key, _ + 1) = _
          rw [place_tail h]
          rfl
      | _ => rfl

/-! ## Parameters -/

/-- What the parser in place does behind the name of a parameter. -/
theorem moreParams_place {bound : Nat} (h : ts <:+ all) (hbound : ts.length < bound)
    (name : String) :
    (if (inputOf source all).lexemeAt (place all ts) = some .closeParen then
      pure ([name], place all ts + 1)
    else do
      let pos ← (inputOf source all).expect .comma "',' between parameters" (place all ts)
      let (names, pos) ← (inputOf source all).someParams bound pos
      return (name :: names, pos))
      = inPlace all (parseMoreParams ts >>= fun r => pure (name :: r.1, r.2)) := by
  obtain ⟨bound, rfl⟩ : ∃ k, bound = k + 1 := ⟨bound - 1, by omega⟩
  -- A round of `parseMoreParams` reads a comma and the next name, one of `someParams` a name and
  -- what follows it, so the two are compared behind a name.
  induction ts using parseMoreParams.induct generalizing name bound with
  | case1 gap text rest =>
      rw [if_pos (lexemeAt_cons h), place_tail h]
      rfl
  | case2 gap text name' gap' text' rest ih =>
      have hafter := tail_suffix h
      have hcomma : (inputOf source all).expect .comma "',' between parameters" (place all _)
          = pure (place all _) := expect_place h .comma _
      have hname : (inputOf source all).name (place all _) = pure (name', place all rest) :=
        name_place hafter
      rw [List.length_cons, List.length_cons] at hbound
      obtain ⟨bound, rfl⟩ : ∃ k, bound = k + 1 := ⟨bound - 1, by omega⟩
      rw [if_neg (lexemeAt_ne h (clear_cons (by simp))), hcomma, pure_bind, Input.someParams, hname,
        pure_bind, parseMoreParams]
      dsimp only
      rw [ih (tail_suffix hafter) name' bound (by omega)]
      exact inPlace_bind rfl fun names more _ => rfl
  | case3 gap text rest hname =>
      have hcomma : (inputOf source all).expect .comma "',' between parameters" (place all _)
          = pure (place all _) := expect_place h .comma _
      have hnone : parseName rest = .error (.expected "an identifier") := by
        unfold parseName
        split
        · exact (hname _ _ _ _ rfl).elim
        · rfl
      rw [if_neg (lexemeAt_ne h (clear_cons (by simp))), hcomma, pure_bind, Input.someParams,
        name_place (tail_suffix h), hnone, parseMoreParams.eq_3 _ _ _ hname]
      rfl
  | case4 ts hclose hname hcomma =>
      have hcomma' := clear_of_forall hcomma
      rw [if_neg (lexemeAt_ne h (clear_of_forall hclose)), expect_place h,
        expect_of_clear hcomma', parseMoreParams.eq_4 _ hclose hname hcomma]
      rfl

theorem params_place {bound : Nat} (h : ts <:+ all) (hbound : ts.length < bound) :
    (inputOf source all).params bound (place all ts) = inPlace all (parseParams ts) := by
  rcases starts_or .closeParen ts with ⟨gap, text, us, rfl⟩ | hclear
  · rw [Input.params, if_pos (lexemeAt_cons h), place_tail h]
    rfl
  · have hparams : parseParams ts = parseName ts >>= fun r =>
        parseMoreParams r.2 >>= fun more => pure (r.1 :: more.1, more.2) := by
      unfold parseParams
      split
      · next gap text rest => exact absurd rfl (hclear.ne List.mem_cons_self)
      · rfl
    obtain ⟨bound, rfl⟩ : ∃ k, bound = k + 1 := ⟨bound - 1, by omega⟩
    rw [Input.params, if_neg (lexemeAt_ne h hclear), Input.someParams, hparams]
    refine inPlace_bind (name_place h) fun name rest hname => ?_
    obtain ⟨gap, text, rfl⟩ := parseName_eq_ok.1 hname
    rw [List.length_cons] at hbound
    exact moreParams_place (tail_suffix h) (by omega) name

/-! ## Texts of functions -/

theorem startAt_place (source : String) (ts : List Token) (t : Token) (us : List Token) :
    (inputOf source (ts ++ t :: us)).startAt (place (ts ++ t :: us) (t :: us))
      = width (Token.written ts ++ t.gap) := by
  rw [place_append, Input.startAt, inputOf, Token.getElem?_spans]

theorem spanBefore_place (source : String) (ts : List Token) (t : Token) (us : List Token) :
    ∃ last, (inputOf source (ts ++ t :: us)).spanBefore (place (ts ++ t :: us) us) = pure last ∧
      last.stop = width (Token.written (ts ++ [t])) := by
  have hplace : place (ts ++ t :: us) us = ts.length + 1 := by
    rw [List.append_cons, place_append, List.length_append, List.length_singleton]
  refine ⟨_, by rw [hplace, Input.spanBefore, inputOf, Token.getElem?_spans], ?_⟩
  rw [Token.written_append_cons, Token.spelling_cons]
  show _ = width (_ ++ (t.text ++ []))
  rw [List.append_nil]

/-- The text that is cut out for a function is spelled by the tokens of its body. -/
theorem functionText_place (htokens : tokens source.toList = .ok all) {start used rest : List Token}
    (hstart : start <:+ all) (hused : start = used ++ rest) (hpos : 1 ≤ used.length) :
    ∃ last, (inputOf source all).spanBefore (place all rest) = pure last ∧
      Source.slice source ((inputOf source all).startAt (place all start)) last.stop
        = pure (sourceBetween start rest) ∧
      Text.trim (sourceBetween start rest) = sourceBetween start rest := by
  subst hused
  obtain ⟨before, rfl⟩ := hstart
  obtain ⟨t, more, rfl⟩ : ∃ t more, used = t :: more :=
    List.exists_cons_of_ne_nil (List.ne_nil_of_length_pos hpos)
  obtain ⟨init, last, hlast⟩ : ∃ init last, t :: more = init ++ [last] :=
    ⟨_, _, (List.dropLast_concat_getLast (List.cons_ne_nil t more)).symm⟩
  have hscanned : Scanned (t :: more) :=
    (scanned_of_tokens htokens).of_append_right.of_append_left
  obtain ⟨s, hs, hstop⟩ := spanBefore_place source (before ++ init) last rest
  have hall : before ++ init ++ last :: rest = before ++ (t :: more ++ rest) := by
    rw [hlast]
    simp
  rw [hall] at hs
  rw [← List.append_assoc] at htokens
  have htext := slice_spelling htokens
  refine ⟨s, hs, ?_, ?_⟩
  · have hat := startAt_place source before t (more ++ rest)
    rw [List.append_assoc, ← hlast] at hstop
    rw [hstop, sourceBetween_append]
    exact hat ▸ htext
  · rw [sourceBetween_append, Text.trim_of_trimmed (trimmed_spelling hscanned)]

/-! ## Levels of the grammar -/

/-- The parser in place follows all levels where their bound does not stop them. Its own bound may
be any larger one: `parse` fixes the bound of the levels, and parameters, which the levels read
without a bound, count against that of the parser in place. -/
structure Follows (source : String) (all : List Token) (fuel bound : Nat) : Prop where
  le : fuel ≤ bound
  expr {ts : List Token} : ts <:+ all → 10 * ts.length + 5 ≤ fuel →
    (inputOf source all).expr bound (place all ts) = inPlace all (parseExpr fuel ts)
  sum {ts : List Token} : ts <:+ all → 10 * ts.length + 4 ≤ fuel →
    (inputOf source all).sum bound (place all ts) = inPlace all (parseSum fuel ts)
  sumRest {left : Expr} {ts : List Token} : ts <:+ all → 10 * ts.length + 1 ≤ fuel →
    (inputOf source all).sumRest bound left (place all ts) = inPlace all (parseSumRest fuel left ts)
  product {ts : List Token} : ts <:+ all → 10 * ts.length + 3 ≤ fuel →
    (inputOf source all).product bound (place all ts) = inPlace all (parseProduct fuel ts)
  productRest {left : Expr} {ts : List Token} : ts <:+ all → 10 * ts.length + 1 ≤ fuel →
    (inputOf source all).productRest bound left (place all ts)
      = inPlace all (parseProductRest fuel left ts)
  unary {ts : List Token} : ts <:+ all → 10 * ts.length + 2 ≤ fuel →
    (inputOf source all).unary bound (place all ts) = inPlace all (parseUnary fuel ts)
  postfixRest {target : Expr} {ts : List Token} : ts <:+ all → 10 * ts.length + 1 ≤ fuel →
    (inputOf source all).postfixRest bound target (place all ts)
      = inPlace all (parsePostfixRest fuel target ts)
  primary {ts : List Token} : ts <:+ all → 10 * ts.length + 1 ≤ fuel →
    (inputOf source all).primary bound (place all ts) = inPlace all (parsePrimary fuel ts)
  items {close : Lexeme} {ts : List Token} : ts <:+ all → 10 * ts.length + 7 ≤ fuel →
    (inputOf source all).items bound close (place all ts) = inPlace all (parseItems fuel close ts)
  someItems {close : Lexeme} {ts : List Token} : ts <:+ all → 10 * ts.length + 6 ≤ fuel →
    (inputOf source all).someItems bound close (place all ts)
      = inPlace all (parseSomeItems fuel close ts)
  entries {ts : List Token} : ts <:+ all → 10 * ts.length + 2 ≤ fuel →
    (inputOf source all).entries bound (place all ts) = inPlace all (parseEntries fuel ts)
  someEntries {ts : List Token} : ts <:+ all → 10 * ts.length + 1 ≤ fuel →
    (inputOf source all).someEntries bound (place all ts) = inPlace all (parseSomeEntries fuel ts)

theorem follows_zero (bound : Nat) : Follows source all 0 bound := by
  constructor <;> intros <;> omega

/-- The tokens that a level leaves are at the end of all, and fewer by those that it takes. -/
theorem Takes.leaves {level : Level α} {surplus least : Nat} {good : α → Prop} {a : α}
    {rest : List Token} (h : Takes level surplus least good ts a rest) (hts : ts <:+ all) :
    rest <:+ all ∧ rest.length + least ≤ ts.length := by
  refine ⟨h.suffix.trans hts, ?_⟩
  obtain ⟨used, rfl, hleast, -⟩ := h
  rw [List.length_append]
  omega

namespace Follows

variable {fuel bound : Nat}

theorem succ_sum (h : Follows source all fuel bound) (hts : ts <:+ all)
    (hfuel : 10 * ts.length + 4 ≤ fuel + 1) :
    (inputOf source all).sum (bound + 1) (place all ts) = inPlace all (parseSum (fuel + 1) ts) := by
  rw [Input.sum, parseSum]
  refine inPlace_bind (h.product hts (by omega)) fun first rest hfirst => ?_
  obtain ⟨hrest, hlen⟩ := ((local_all fuel).product hfirst).leaves hts
  exact h.sumRest hrest (by omega)

theorem succ_product (h : Follows source all fuel bound) (hts : ts <:+ all)
    (hfuel : 10 * ts.length + 3 ≤ fuel + 1) :
    (inputOf source all).product (bound + 1) (place all ts)
      = inPlace all (parseProduct (fuel + 1) ts) := by
  rw [Input.product, parseProduct]
  refine inPlace_bind (h.unary hts (by omega)) fun first rest hfirst => ?_
  obtain ⟨hrest, hlen⟩ := ((local_all fuel).unary hfirst).leaves hts
  exact h.productRest hrest (by omega)

variable (source) in
/-- Operands one after the other, each read by the next level. -/
theorem operands {op? : Lexeme → Option BinaryOp} {next : Level Expr} {self : Following Expr Expr}
    {nextAt : Nat → Reading (Expr × Nat)} {selfAt : Nat → Expr → Nat → Reading (Expr × Nat)}
    (hself : ∀ fuel left ts, self (fuel + 1) left ts = operandStep op? next self fuel left ts)
    (hselfAt : ∀ left pos, selfAt (bound + 1) left pos
      = match ((inputOf source all).lexemeAt pos).bind op? with
        | some op => nextAt (pos + 1) >>= fun r => selfAt bound (.binary op left r.1) r.2
        | none => pure (left, pos))
    (hnext : ∀ {ts}, ts <:+ all → 10 * ts.length + 3 ≤ fuel →
      nextAt (place all ts) = inPlace all (next fuel ts))
    (hleaves : ∀ {ts e rest}, ts <:+ all → next fuel ts = .ok (e, rest) →
      rest <:+ all ∧ rest.length + 1 ≤ ts.length)
    (hrec : ∀ {left ts}, ts <:+ all → 10 * ts.length + 1 ≤ fuel →
      selfAt bound left (place all ts) = inPlace all (self fuel left ts))
    {left : Expr} (hts : ts <:+ all) (hfuel : 10 * ts.length + 1 ≤ fuel + 1) :
    selfAt (bound + 1) left (place all ts) = inPlace all (self (fuel + 1) left ts) := by
  rw [hselfAt, hself, lexemeAt_place hts]
  cases ts with
  | nil => rfl
  | cons t us =>
      rw [List.length_cons] at hfuel
      have hus := tail_suffix hts
      cases hop : op? t.lexeme with
      | none =>
          simp only [operandStep, hop, List.head?_cons, Option.map_some, Option.bind_some]
          rfl
      | some op =>
          simp only [operandStep, hop, List.head?_cons, Option.map_some, Option.bind_some]
          rw [place_tail hts]
          refine inPlace_bind (hnext hus (by omega)) fun right rest hright => ?_
          obtain ⟨hrest, hlen⟩ := hleaves hus hright
          exact hrec hrest (by omega)

theorem succ_sumRest (h : Follows source all fuel bound) {left : Expr} (hts : ts <:+ all)
    (hfuel : 10 * ts.length + 1 ≤ fuel + 1) :
    (inputOf source all).sumRest (bound + 1) left (place all ts)
      = inPlace all (parseSumRest (fuel + 1) left ts) := by
  refine operands source parseSumRest_succ (fun left pos => ?_) h.product
    (fun hts hnext => ((local_all fuel).product hnext).leaves hts) h.sumRest hts hfuel
  rw [Input.sumRest]
  cases (inputOf source all).lexemeAt pos with
  | none => rfl
  | some lexeme => cases lexeme <;> rfl

theorem succ_productRest (h : Follows source all fuel bound) {left : Expr} (hts : ts <:+ all)
    (hfuel : 10 * ts.length + 1 ≤ fuel + 1) :
    (inputOf source all).productRest (bound + 1) left (place all ts)
      = inPlace all (parseProductRest (fuel + 1) left ts) := by
  refine operands source parseProductRest_succ (fun left pos => ?_)
    (fun hts hfuel => h.unary hts (by omega))
    (fun hts hnext => ((local_all fuel).unary hnext).leaves hts) h.productRest hts hfuel
  rw [Input.productRest]
  cases (inputOf source all).lexemeAt pos with
  | none => rfl
  | some lexeme => cases lexeme <;> rfl

theorem succ_unary (h : Follows source all fuel bound) (hts : ts <:+ all)
    (hfuel : 10 * ts.length + 2 ≤ fuel + 1) :
    (inputOf source all).unary (bound + 1) (place all ts)
      = inPlace all (parseUnary (fuel + 1) ts) := by
  rw [Input.unary]
  rcases starts_or .minus ts with ⟨gap, text, us, rfl⟩ | hclear
  · rw [List.length_cons] at hfuel
    rw [if_pos (lexemeAt_cons hts), place_tail hts, parseUnary]
    exact inPlace_bind (h.unary (tail_suffix hts) (by omega)) fun e rest _ => rfl
  · rw [if_neg (lexemeAt_ne hts hclear), parseUnary_of_clear hclear]
    refine inPlace_bind (h.primary hts (by omega)) fun first rest hfirst => ?_
    obtain ⟨hrest, hlen⟩ := ((local_all fuel).primary hfirst).leaves hts
    exact h.postfixRest hrest (by omega)

theorem succ_postfixRest (h : Follows source all fuel bound) {target : Expr} (hts : ts <:+ all)
    (hfuel : 10 * ts.length + 1 ≤ fuel + 1) :
    (inputOf source all).postfixRest (bound + 1) target (place all ts)
      = inPlace all (parsePostfixRest (fuel + 1) target ts) := by
  rw [Input.postfixRest]
  rcases starts_or .openParen ts with ⟨gap, text, us, rfl⟩ | hparen
  · rw [List.length_cons] at hfuel
    have hus := tail_suffix hts
    rw [lexemeAt_cons hts, parsePostfixRest]
    dsimp only
    rw [place_tail hts]
    refine inPlace_bind (h.items hus (by omega)) fun args rest hargs => ?_
    obtain ⟨hrest, hlen⟩ := ((local_all fuel).items hargs).leaves hus
    exact h.postfixRest hrest (by omega)
  · rcases starts_or .dot ts with ⟨gap, text, us, rfl⟩ | hdot
    · rw [List.length_cons] at hfuel
      have hus := tail_suffix hts
      rw [lexemeAt_cons hts, parsePostfixRest]
      dsimp only
      rw [place_tail hts]
      refine inPlace_bind (name_place hus) fun name rest hname => ?_
      obtain ⟨gap', text', rfl⟩ := parseName_eq_ok.1 hname
      rw [List.length_cons] at hfuel
      exact h.postfixRest (tail_suffix hus) (by omega)
    · rw [parsePostfixRest_of_clear (hparen.cons hdot)]
      split
      · next hl => exact absurd hl (lexemeAt_ne hts hparen)
      · next hl => exact absurd hl (lexemeAt_ne hts hdot)
      · rfl

theorem succ_primary (h : Follows source all fuel bound) (hts : ts <:+ all)
    (hfuel : 10 * ts.length + 1 ≤ fuel + 1) :
    (inputOf source all).primary (bound + 1) (place all ts)
      = inPlace all (parsePrimary (fuel + 1) ts) := by
  rw [Input.primary, lexemeAt_place hts]
  cases ts with
  | nil => rfl
  | cons t us =>
      rw [List.length_cons] at hfuel
      have hus := tail_suffix hts
      obtain ⟨lexeme, gap, text⟩ := t
      rw [List.head?_cons, Option.map_some, place_tail hts]
      cases lexeme with
      | openParen =>
          refine inPlace_bind (h.expr hus (by omega)) fun e rest he => ?_
          obtain ⟨hrest, -⟩ := ((local_all fuel).expr he).leaves hus
          exact Reading.bind_orFault (expect_place hrest .closeParen "')'") fun rest' _ => rfl
      | openBracket => exact inPlace_bind (h.items hus (by omega)) fun items rest _ => rfl
      | openBrace => exact inPlace_bind (h.entries hus (by omega)) fun entries rest _ => rfl
      | _ => rfl

variable (source) in
/-- Elements up to the closing lexeme, if there are any. -/
theorem delimited {close : Lexeme} {next : Level (List α)} {nextAt : Nat → Reading (List α × Nat)}
    (hts : ts <:+ all) (hnext : nextAt (place all ts) = inPlace all (next fuel ts)) :
    (if (inputOf source all).lexemeAt (place all ts) = some close then
      pure ([], place all ts + 1)
    else nextAt (place all ts)) = inPlace all (delimitedStep close next fuel ts) := by
  rw [delimitedStep]
  rcases starts_or close ts with ⟨gap, text, us, rfl⟩ | hclear
  · rw [if_pos (lexemeAt_cons hts), place_tail hts, expect, if_pos rfl]
    rfl
  · rw [if_neg (lexemeAt_ne hts hclear), expect_of_clear hclear]
    exact hnext

theorem succ_items (h : Follows source all fuel bound) {close : Lexeme} (hts : ts <:+ all)
    (hfuel : 10 * ts.length + 7 ≤ fuel + 1) :
    (inputOf source all).items (bound + 1) close (place all ts)
      = inPlace all (parseItems (fuel + 1) close ts) := by
  rw [Input.items, parseItems_succ]
  exact delimited source hts (h.someItems hts (by omega))

theorem succ_entries (h : Follows source all fuel bound) (hts : ts <:+ all)
    (hfuel : 10 * ts.length + 2 ≤ fuel + 1) :
    (inputOf source all).entries (bound + 1) (place all ts)
      = inPlace all (parseEntries (fuel + 1) ts) := by
  rw [Input.entries, parseEntries_succ]
  exact delimited source hts (h.someEntries hts (by omega))

variable (source) in
/-- What may follow an element: the closing lexeme, or a comma and more elements. -/
theorem separated {close : Lexeme} {what : String} {self : Level (List α)}
    {selfAt : Nat → Reading (List α × Nat)} {first : α} (hts : ts <:+ all)
    (hrec : ∀ {us}, us <:+ all → us.length + 1 ≤ ts.length →
      selfAt (place all us) = inPlace all (self fuel us)) :
    (if (inputOf source all).lexemeAt (place all ts) = some close then
      pure ([first], place all ts + 1)
    else do
      let pos ← (inputOf source all).expect .comma what (place all ts)
      let (others, pos) ← selfAt pos
      return (first :: others, pos))
      = inPlace all (separatedStep close what self fuel first ts) := by
  rw [separatedStep]
  rcases starts_or close ts with ⟨gap, text, us, rfl⟩ | hclear
  · rw [if_pos (lexemeAt_cons hts), place_tail hts, expect, if_pos rfl]
    rfl
  · rw [if_neg (lexemeAt_ne hts hclear), expect_of_clear hclear]
    refine Reading.bind_orFault (expect_place hts .comma what) fun us hus => ?_
    obtain ⟨gap, text, rfl⟩ := expect_eq_ok.1 hus
    exact inPlace_bind (hrec (tail_suffix hts) (Nat.le_refl _)) fun others rest _ => rfl

theorem succ_someItems (h : Follows source all fuel bound) {close : Lexeme} (hts : ts <:+ all)
    (hfuel : 10 * ts.length + 6 ≤ fuel + 1) :
    (inputOf source all).someItems (bound + 1) close (place all ts)
      = inPlace all (parseSomeItems (fuel + 1) close ts) := by
  rw [Input.someItems, parseSomeItems_succ]
  refine inPlace_bind (h.expr hts (by omega)) fun first rest hfirst => ?_
  obtain ⟨hrest, hlen⟩ := ((local_all fuel).expr hfirst).leaves hts
  exact separated source hrest fun hus hshort => h.someItems hus (by omega)

theorem succ_someEntries (h : Follows source all fuel bound) (hts : ts <:+ all)
    (hfuel : 10 * ts.length + 1 ≤ fuel + 1) :
    (inputOf source all).someEntries (bound + 1) (place all ts)
      = inPlace all (parseSomeEntries (fuel + 1) ts) := by
  rw [Input.someEntries, parseSomeEntries]
  refine inPlace_bind (key_place hts) fun key afterKey hkey => ?_
  obtain ⟨t, rfl, -⟩ := parseKey_eq_ok.1 hkey
  have hafterKey := tail_suffix hts
  refine Reading.bind_orFault (expect_place hafterKey .colon _) fun afterColon hcolon => ?_
  obtain ⟨gap, text, rfl⟩ := expect_eq_ok.1 hcolon
  have hafterColon := tail_suffix hafterKey
  rw [List.length_cons, List.length_cons] at hfuel
  refine inPlace_bind (h.expr hafterColon (by omega)) fun value rest hvalue => ?_
  obtain ⟨hrest, hlen⟩ := ((local_all fuel).expr hvalue).leaves hafterColon
  exact separated source hrest fun hus hshort => h.someEntries hus (by omega)

theorem succ_expr (h : Follows source all fuel bound) (htokens : tokens source.toList = .ok all)
    (hts : ts <:+ all) (hfuel : 10 * ts.length + 5 ≤ fuel + 1) :
    (inputOf source all).expr (bound + 1) (place all ts)
      = inPlace all (parseExpr (fuel + 1) ts) := by
  rw [Input.expr]
  rcases starts_or .letWord ts with ⟨gap, text, us, rfl⟩ | hlet
  · rw [List.length_cons] at hfuel
    have hus := tail_suffix hts
    rw [lexemeAt_cons hts, parseExpr]
    dsimp only
    rw [place_tail hts]
    refine inPlace_bind (name_place hus) fun name afterName hname => ?_
    obtain ⟨gap₁, text₁, rfl⟩ := parseName_eq_ok.1 hname
    have hafterName := tail_suffix hus
    refine Reading.bind_orFault (expect_place hafterName .equals _) fun afterEquals hequals => ?_
    obtain ⟨gap₂, text₂, rfl⟩ := expect_eq_ok.1 hequals
    have hafterEquals := tail_suffix hafterName
    rw [List.length_cons, List.length_cons] at hfuel
    refine inPlace_bind (h.expr hafterEquals (by omega)) fun value afterValue hvalue => ?_
    obtain ⟨hafterValue, hlen⟩ := ((local_all fuel).expr hvalue).leaves hafterEquals
    refine Reading.bind_orFault (expect_place hafterValue .inWord _) fun afterIn hin => ?_
    obtain ⟨gap₃, text₃, rfl⟩ := expect_eq_ok.1 hin
    rw [List.length_cons] at hlen
    exact inPlace_bind (h.expr (tail_suffix hafterValue) (by omega)) fun body rest _ => rfl
  · rcases starts_or .fnWord ts with ⟨gap, text, us, rfl⟩ | hfn
    · rw [List.length_cons] at hfuel
      have hus := tail_suffix hts
      rw [lexemeAt_cons hts, parseExpr]
      dsimp only
      rw [place_tail hts]
      refine Reading.bind_orFault (expect_place hus .openParen _) fun afterParen hparen => ?_
      obtain ⟨gap₁, text₁, rfl⟩ := expect_eq_ok.1 hparen
      have hafterParen := tail_suffix hus
      have hbound : afterParen.length < bound := by
        have hle := h.le
        rw [List.length_cons] at hfuel
        omega
      refine inPlace_bind (params_place hafterParen hbound) fun params afterParams hparams => ?_
      obtain ⟨used, rfl, -⟩ := parseParams_eq_ok.1 hparams
      have hafterParams : afterParams <:+ all := (List.suffix_append used _).trans hafterParen
      refine Reading.bind_orFault (expect_place hafterParams .arrow _) fun start harrow => ?_
      obtain ⟨gap₂, text₂, rfl⟩ := expect_eq_ok.1 harrow
      have hstart := tail_suffix hafterParams
      rw [List.length_cons, List.length_append, List.length_cons] at hfuel
      refine inPlace_bind (h.expr hstart (by omega)) fun body rest hbody => ?_
      -- The body took a token at least, so there is one before the place where it ends.
      obtain ⟨used', rfl, hpos, -⟩ := (local_all fuel).expr hbody
      obtain ⟨last, hlast, hslice, htrim⟩ := functionText_place htokens hstart rfl hpos
      have hsource : (inputOf source all).source = source := rfl
      dsimp only
      rw [hlast, pure_bind, hsource, hslice, pure_bind, htrim]
      rfl
    · rw [parseExpr_of_clear (hlet.cons hfn)]
      split
      · next hl => exact absurd hl (lexemeAt_ne hts hlet)
      · next hl => exact absurd hl (lexemeAt_ne hts hfn)
      · exact h.sum hts (by omega)

theorem succ (h : Follows source all fuel bound) (htokens : tokens source.toList = .ok all) :
    Follows source all (fuel + 1) (bound + 1) where
  le := Nat.succ_le_succ h.le
  expr := h.succ_expr htokens
  sum := h.succ_sum
  sumRest := h.succ_sumRest
  product := h.succ_product
  productRest := h.succ_productRest
  unary := h.succ_unary
  postfixRest := h.succ_postfixRest
  primary := h.succ_primary
  items := h.succ_items
  someItems := h.succ_someItems
  entries := h.succ_entries
  someEntries := h.succ_someEntries

end Follows

theorem follows_all (h : tokens source.toList = .ok all) {fuel bound : Nat} (hle : fuel ≤ bound) :
    Follows source all fuel bound := by
  induction fuel generalizing bound with
  | zero => exact follows_zero bound
  | succ fuel ih =>
      obtain ⟨bound, rfl⟩ : ∃ k, bound = k + 1 := ⟨bound - 1, by omega⟩
      exact (ih (Nat.le_of_succ_le_succ hle)).succ h

/-! ## Whole sources -/

/-- The text of a token that is left over is cut out of the source. -/
theorem slice_extra {extra : Token} (h : tokens source.toList = .ok (ts ++ extra :: us)) :
    ∃ span,
      (Token.spans 0 (ts ++ extra :: us))[place (ts ++ extra :: us) (extra :: us)]? = some span ∧
      Source.slice source span.start span.stop = pure (String.ofList extra.text) := by
  obtain ⟨more, hsource, -⟩ := written_of_tokens h
  have htext : source.toList
      = Token.written ts ++ extra.gap ++ extra.text ++ (Token.written us ++ more) := by
    rw [hsource, Token.written_append_cons, Token.spelling_cons]
    simp only [List.append_assoc]
  rw [place_append]
  exact ⟨_, Token.getElem?_spans ts extra us, Source.slice_width htext⟩

/-- **Parsing in place.** It gives the expression that the tokens make, or their fault. -/
theorem Source.parse_eq {fuel : Nat} (hfuel : 10 * (source.toList.length + 1) < fuel) :
    Source.parse source fuel = .orFault (Expr.parse source) := by
  have hparse : (Expr.parse source).map id = Expr.parse source := by
    cases Expr.parse source <;> rfl
  rw [← hparse]
  refine Reading.bind_orFault (Source.spans_eq (by omega)) fun all hall => ?_
  by_cases hempty : all = []
  · subst hempty
    rfl
  · have hlength : all.length ≤ source.toList.length := by
      obtain ⟨more, hsource, -⟩ := written_of_tokens hall
      have := (scanned_of_tokens hall).length_le
      rw [hsource, List.length_append]
      omega
    have hspans : ¬ (Token.spans 0 all).isEmpty = true := by
      rwa [List.isEmpty_iff_length_eq_zero, Token.length_spans, List.length_eq_zero_iff]
    have hfollows : Follows source all (10 * (all.length + 1)) fuel := follows_all hall (by omega)
    have hread := hfollows.expr (List.suffix_refl _) (by omega)
    rw [place, Nat.sub_self] at hread
    rw [if_neg hspans, parseTokens, if_neg (by rwa [List.isEmpty_iff])]
    refine Reading.bind_orFault hread fun r hr => ?_
    obtain ⟨e, rest⟩ := r
    obtain ⟨used, rfl, -⟩ := (local_all _).expr hr
    cases rest with
    | nil =>
        have hnone : (Token.spans 0 (used ++ []))[place (used ++ []) []]? = none := by
          rw [place_append, List.append_nil]
          exact List.getElem?_eq_none (Nat.le_of_eq (Token.length_spans 0 used))
        dsimp only
        rw [hnone]
        rfl
    | cons extra rest =>
        obtain ⟨span, hspan, htext⟩ := slice_extra hall
        dsimp only
        rw [hspan]
        dsimp only
        rw [htext]
        rfl

theorem Reading.run_orFault (r : Except SyntaxFault α) :
    (orFault r).run = some (r.mapError .fault) := by
  cases r <;> rfl

theorem Reading.mapError_fault_ne (r : Except SyntaxFault α) :
    r.mapError Halt.fault ≠ .error .outOfRange := by
  cases r <;> nofun

/-- **Reading a source in place stays within it.** Whatever the text is, the scanner ends, and
no byte and no slice that it asks for is missing or cuts a character. The spans that it finds
are those of the tokens: they stand between characters, none is empty, each ends before the
next begins, and blanks alone stand around them. The parser ends as well: there is a token
before its place wherever it asks for one, and what it cuts out of the source, for the text of a
function or for a fault, is a run of whole characters. -/
theorem reading_in_place_stays_in_range (source : String) :
    (∃ scanned, Reading.Ends (Source.spans source) scanned ∧ scanned ≠ .error .outOfRange ∧
      scanned.map (·.map Span.lexeme)
        = ((tokens source.toList).map (·.map Token.lexeme)).mapError .fault ∧
      ∀ spans, scanned = .ok spans → WellPlaced source spans) ∧
    ∃ parsed, Reading.Ends (Source.parse source) parsed ∧ parsed ≠ .error .outOfRange ∧
      parsed = (parse source).mapError .fault := by
  refine ⟨⟨((tokens source.toList).map (Token.spans 0)).mapError .fault, ⟨source.toList.length + 2,
    fun fuel hfuel => ?_⟩, Reading.mapError_fault_ne _, ?_, fun spans hspans => ?_⟩,
    ⟨(parse source).mapError .fault, ⟨10 * (source.toList.length + 1) + 1, fun fuel hfuel => ?_⟩,
      Reading.mapError_fault_ne _, rfl⟩⟩
  · rw [Source.spans_eq hfuel, Reading.run_orFault]
  · cases tokens source.toList with
    | error fault => rfl
    | ok ts => exact congrArg Except.ok (Token.map_lexeme_spans 0 ts)
  · cases htokens : tokens source.toList with
    | error fault =>
        rw [htokens] at hspans
        cases hspans
    | ok ts =>
        rw [htokens] at hspans
        cases hspans
        exact wellPlaced_spans htokens
  · rw [Source.parse_eq hfuel, Reading.run_orFault]

end NodePipeline.Expr

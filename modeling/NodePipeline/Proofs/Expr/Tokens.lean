import Mathlib.Data.List.TakeWhile
import NodePipeline.Expr.Token
import NodePipeline.Proofs.Results

/-!
# Tokens and the text that spells them

Scanning looks at most two characters beyond a token, and only to make it longer.
A token is therefore found again in every shorter text that still holds it. The
tokens of a source, and every run of neighbours among them, are read back from the
text that spells them.
-/

namespace NodePipeline.Expr

/-! ## One token in a shorter text -/

theorem takeWhile_eq_of_length_le {α : Type} {p : α → Bool} {xs ys : List α}
    (h : ((xs ++ ys).takeWhile p).length ≤ xs.length) :
    xs.takeWhile p = (xs ++ ys).takeWhile p := by
  induction xs with
  | nil => exact (List.length_eq_zero_iff.1 (Nat.le_zero.1 h)).symm
  | cons x rest ih =>
      rw [List.cons_append, List.takeWhile_cons, List.takeWhile_cons] at *
      split
      · next hx =>
          rw [if_pos hx, List.length_cons, List.length_cons] at h
          rw [ih (Nat.le_of_succ_le_succ h)]
      · rfl

theorem length_takeWhile_le {α : Type} (p : α → Bool) (xs : List α) :
    (xs.takeWhile p).length ≤ xs.length := (List.takeWhile_sublist p).length_le

theorem one_le_length_takeWhile {α : Type} {p : α → Bool} {x : α} {xs : List α}
    (h : p x = true) : 1 ≤ ((x :: xs).takeWhile p).length := by
  rw [List.takeWhile_cons, if_pos h]
  exact Nat.succ_le_succ (Nat.zero_le _)

theorem scanString_length {cs s : List Char} {n : Nat} (h : scanString cs = some (s, n)) :
    1 ≤ n ∧ n ≤ cs.length := by
  induction cs using scanString.induct generalizing s n with
  | case1 => cases h
  | case2 rest => cases h; simp
  | case3 c rest ih =>
      simp only [scanString, Option.map_eq_some_iff, Prod.exists, Prod.mk.injEq] at h
      obtain ⟨s', n', h', -, rfl⟩ := h
      have := ih h'
      simp only [List.length_cons]
      omega
  | case4 => cases h
  | case5 c rest hquote hescape hlone ih =>
      rw [scanString.eq_5 c rest hquote hescape hlone] at h
      simp only [Option.map_eq_some_iff, Prod.exists, Prod.mk.injEq] at h
      obtain ⟨s', n', h', -, rfl⟩ := h
      have := ih h'
      simp only [List.length_cons]
      omega

theorem scanString_of_append {cs more s : List Char} {n : Nat}
    (h : scanString (cs ++ more) = some (s, n)) (hn : n ≤ cs.length) :
    scanString cs = some (s, n) := by
  induction cs using scanString.induct generalizing s n with
  | case1 =>
      have := (scanString_length h).1
      simp only [List.length_nil] at hn
      omega
  | case2 rest => exact h
  | case3 c rest ih =>
      simp only [List.cons_append, scanString, Option.map_eq_some_iff, Prod.exists,
        Prod.mk.injEq] at h ⊢
      obtain ⟨s', n', h', rfl, rfl⟩ := h
      simp only [List.length_cons] at hn
      exact ⟨s', n', ih h' (by omega), rfl, rfl⟩
  | case4 =>
      cases more with
      | nil => exact h
      | cons c rest =>
          simp only [List.cons_append, List.nil_append, scanString, Option.map_eq_some_iff,
            Prod.exists, Prod.mk.injEq] at h
          obtain ⟨s', n', -, -, rfl⟩ := h
          simp only [List.length_cons, List.length_nil] at hn
          omega
  | case5 c rest hquote hescape hlone ih =>
      have hescape' : ∀ d more', c = '\\' → rest ++ more = d :: more' → False := by
        intro d more' hc _
        cases rest with
        | nil => exact hlone hc rfl
        | cons e rest => exact hescape e rest hc rfl
      have hlone' : c = '\\' → rest ++ more = [] → False := fun hc hnil =>
        hlone hc (List.append_eq_nil_iff.1 hnil).1
      rw [List.cons_append, scanString.eq_5 c (rest ++ more) hquote hescape' hlone'] at h
      rw [scanString.eq_5 c rest hquote hescape hlone]
      simp only [Option.map_eq_some_iff, Prod.exists, Prod.mk.injEq] at h ⊢
      obtain ⟨s', n', h', rfl, rfl⟩ := h
      simp only [List.length_cons] at hn
      exact ⟨s', n', ih h' (by omega), rfl, rfl⟩

theorem integerLexeme_length {digits : List Char} {l : Lexeme} {n : Nat}
    (h : integerLexeme digits = .ok (l, n)) : n = digits.length := by
  unfold integerLexeme at h
  simp only at h
  split at h
  · cases h; rfl
  · cases h

/-- A number is digits, with a point and more digits behind it if these follow. -/
theorem scanNumber_eq {cs whole tail : List Char} (hwhole : cs.takeWhile Char.isDigit = whole)
    (htail : cs.drop whole.length = tail) {l : Lexeme} {n : Nat} :
    scanNumber cs = .ok (l, n) ↔
      (∃ c rest, tail = '.' :: c :: rest ∧ c.isDigit = true ∧
        l = .float (Binary64.ofDecimal false
          (Binary64.natOfDigits (whole ++ (c :: rest).takeWhile Char.isDigit))
          (-(((c :: rest).takeWhile Char.isDigit).length : Int))) ∧
        n = whole.length + 1 + ((c :: rest).takeWhile Char.isDigit).length) ∨
      ((∀ c rest, tail = '.' :: c :: rest → c.isDigit = false) ∧
        integerLexeme whole = .ok (l, n)) := by
  unfold scanNumber
  simp only [hwhole, htail]
  split
  · next c rest =>
      by_cases hc : c.isDigit = true
      · rw [if_pos hc]
        simp only [Except.ok.injEq, Prod.mk.injEq]
        constructor
        · rintro ⟨rfl, rfl⟩
          exact .inl ⟨c, rest, rfl, hc, rfl, rfl⟩
        · rintro (⟨c', rest', heq, -, rfl, rfl⟩ | ⟨hnone, -⟩)
          · cases heq
            exact ⟨rfl, rfl⟩
          · exact absurd (hnone c rest rfl) (by simp [hc])
      · rw [if_neg hc]
        constructor
        · intro h
          refine .inr ⟨fun c' rest' heq => ?_, h⟩
          cases heq
          simpa using hc
        · rintro (⟨c', rest', heq, hc', -, -⟩ | ⟨-, h⟩)
          · cases heq
            exact absurd hc' hc
          · exact h
  · next hnone =>
      constructor
      · exact fun h => .inr ⟨fun c rest heq => (hnone c rest heq).elim, h⟩
      · rintro (⟨c, rest, heq, -⟩ | ⟨-, h⟩)
        · exact (hnone c rest heq).elim
        · exact h

theorem scanNumber_length {c : Char} {rest : List Char} (hc : c.isDigit = true) {l : Lexeme}
    {n : Nat} (h : scanNumber (c :: rest) = .ok (l, n)) : 1 ≤ n ∧ n ≤ rest.length + 1 := by
  have hpos : 1 ≤ ((c :: rest).takeWhile Char.isDigit).length := one_le_length_takeWhile hc
  have hle := length_takeWhile_le Char.isDigit (c :: rest)
  rw [List.length_cons] at hle
  rcases (scanNumber_eq rfl rfl).1 h with ⟨d, tail, htail, -, -, rfl⟩ | ⟨-, hint⟩
  · have hlen := congrArg List.length htail
    have hfrac := length_takeWhile_le Char.isDigit (d :: tail)
    simp only [List.length_drop, List.length_cons] at hlen hfrac
    omega
  · obtain rfl := integerLexeme_length hint
    exact ⟨hpos, hle⟩

/-- A list of two or more begins as every longer one does. -/
theorem cons_cons_of_append {α : Type} {l more rest : List α} {a b : α}
    (h : l ++ more = a :: b :: rest) (hl : 2 ≤ l.length) :
    ∃ rest', l = a :: b :: rest' ∧ rest = rest' ++ more := by
  rcases List.append_eq_cons_iff.1 h with ⟨rfl, -⟩ | ⟨tail, rfl, htail⟩
  · cases hl
  rcases List.append_eq_cons_iff.1 htail.symm with ⟨rfl, -⟩ | ⟨rest', rfl, hrest⟩
  · simp at hl
  · exact ⟨rest', rfl, hrest⟩

theorem scanNumber_of_append {cs more : List Char} {l : Lexeme} {n : Nat}
    (h : scanNumber (cs ++ more) = .ok (l, n)) (hn : n ≤ cs.length) :
    scanNumber cs = .ok (l, n) := by
  generalize hwhole : (cs ++ more).takeWhile Char.isDigit = whole
  generalize htail : (cs ++ more).drop whole.length = tail
  have hlen : whole.length ≤ n := by
    rcases (scanNumber_eq hwhole htail).1 h with ⟨d, rest, -, -, -, rfl⟩ | ⟨-, hint⟩
    · omega
    · exact Nat.le_of_eq (integerLexeme_length hint).symm
  have hshort : cs.takeWhile Char.isDigit = whole := by
    rw [← hwhole]
    exact takeWhile_eq_of_length_le (hwhole ▸ Nat.le_trans hlen hn)
  rw [List.drop_append_of_le_length (Nat.le_trans hlen hn)] at htail
  refine (scanNumber_eq hshort rfl).2 ?_
  rcases (scanNumber_eq hwhole (List.drop_append_of_le_length (Nat.le_trans hlen hn) ▸ htail)).1 h
    with ⟨d, rest, heq, hd, rfl, rfl⟩ | ⟨hnone, hint⟩
  · -- The point and the digit are not cut off, since they belong to the token.
    have hfrac : 1 ≤ ((d :: rest).takeWhile Char.isDigit).length := one_le_length_takeWhile hd
    have hdrop : (cs.drop whole.length).length = cs.length - whole.length := List.length_drop
    obtain ⟨rest', hcut, hrest⟩ := cons_cons_of_append (htail.trans heq) (by omega)
    have hsame : (d :: rest').takeWhile Char.isDigit = (d :: rest).takeWhile Char.isDigit := by
      rw [hrest, ← List.cons_append]
      refine takeWhile_eq_of_length_le ?_
      rw [List.cons_append, ← hrest]
      rw [hcut] at hdrop
      simp only [List.length_cons] at hdrop ⊢
      omega
    exact .inl ⟨d, rest', hcut, hd, by rw [hsame], by rw [hsame]⟩
  · refine .inr ⟨fun c rest hcut => hnone c (rest ++ more) ?_, hint⟩
    rw [← htail, hcut]
    rfl

theorem scanSymbol_length {c : Char} {rest : List Char} {l : Lexeme} {n : Nat}
    (h : scanSymbol c rest = .ok (l, n)) : 1 ≤ n ∧ n ≤ rest.length + 1 := by
  unfold scanSymbol at h
  split at h
  case h_2 =>
    split at h
    · next harrow =>
        cases h
        cases rest with
        | nil => cases harrow
        | cons d rest => simp
    · cases h; simp
  all_goals first
    | (cases h; simp)
    | cases h

/-- Only a minus sign is looked at together with what follows it. -/
theorem scanSymbol_eq {c : Char} (hc : c ≠ '-') (rest rest' : List Char) :
    scanSymbol c rest = scanSymbol c rest' := by
  unfold scanSymbol
  split
  case h_2 => exact absurd rfl hc
  all_goals rfl

theorem scanSymbol_of_append {c : Char} {rest more : List Char} {l : Lexeme} {n : Nat}
    (h : scanSymbol c (rest ++ more) = .ok (l, n)) (hn : n ≤ rest.length + 1) :
    scanSymbol c rest = .ok (l, n) := by
  by_cases hc : c = '-'
  · subst hc
    cases rest with
    | cons d rest => exact h
    | nil =>
        simp only [scanSymbol, List.nil_append] at h
        split at h
        · cases h
          simp only [List.length_nil] at hn
          omega
        · exact h
  · rw [scanSymbol_eq hc rest (rest ++ more)]
    exact h

/-- A token is a number, a word, a text in quotes or a symbol, by its first character. -/
theorem scan_eq_ok {c : Char} {rest : List Char} {l : Lexeme} {n : Nat} :
    scan c rest = .ok (l, n) ↔
      (c.isDigit = true ∧ scanNumber (c :: rest) = .ok (l, n)) ∨
      (c.isDigit = false ∧ isNameStart c = true ∧
        l = wordLexeme ((c :: rest).takeWhile isNamePart) ∧
        n = ((c :: rest).takeWhile isNamePart).length) ∨
      (c = '"' ∧ ∃ s k, scanString rest = some (s, k) ∧ l = .str (String.ofList s) ∧ n = k + 1) ∨
      (c.isDigit = false ∧ isNameStart c = false ∧ c ≠ '"' ∧ scanSymbol c rest = .ok (l, n)) := by
  unfold scan
  cases hdigit : c.isDigit with
  | true =>
      have hquote : c ≠ '"' := by
        rintro rfl
        cases hdigit
      simp [hquote]
  | false =>
      cases hname : isNameStart c with
      | true =>
          have hquote : c ≠ '"' := by
            rintro rfl
            cases hname
          simp only [hquote, Bool.false_eq_true, if_false, if_true, Except.ok.injEq, Prod.mk.injEq,
            false_and, true_and, false_or, Bool.true_eq_false, or_false]
          exact and_congr eq_comm eq_comm
      | false =>
          by_cases hquote : c = '"'
          · cases hstring : scanString rest with
            | none => simp [hquote]
            | some found =>
                simp only [hquote, Bool.false_eq_true, if_false, if_true, Except.ok.injEq,
                  false_and, true_and, false_or, and_false, or_false, ne_eq, not_true_eq_false,
                  Option.some.injEq, Prod.ext_iff]
                constructor
                · rintro ⟨rfl, rfl⟩
                  exact ⟨_, _, ⟨rfl, rfl⟩, rfl, rfl⟩
                · rintro ⟨s, k, ⟨rfl, rfl⟩, rfl, rfl⟩
                  exact ⟨rfl, rfl⟩
          · simp [hquote]

theorem scan_length {c : Char} {rest : List Char} {l : Lexeme} {n : Nat}
    (h : scan c rest = .ok (l, n)) : 1 ≤ n ∧ n ≤ rest.length + 1 := by
  rcases scan_eq_ok.1 h with ⟨hdigit, hnumber⟩ | ⟨-, hname, -, rfl⟩ | ⟨-, s, k, hstring, -, rfl⟩ |
    ⟨-, -, -, hsymbol⟩
  · exact scanNumber_length hdigit hnumber
  · refine ⟨one_le_length_takeWhile ?_, length_takeWhile_le isNamePart (c :: rest)⟩
    simp only [isNameStart, isNamePart, Bool.or_eq_true, Char.isAlphanum] at hname ⊢
    exact hname.imp_left .inl
  · have := scanString_length hstring
    omega
  · exact scanSymbol_length hsymbol

/-- **A token does not depend on what follows it.** -/
theorem scan_of_append {c : Char} {rest more : List Char} {l : Lexeme} {n : Nat}
    (h : scan c (rest ++ more) = .ok (l, n)) (hn : n ≤ rest.length + 1) :
    scan c rest = .ok (l, n) := by
  apply scan_eq_ok.2
  rcases scan_eq_ok.1 h with ⟨hdigit, hnumber⟩ | ⟨hdigit, hname, rfl, rfl⟩ |
    ⟨hquote, s, k, hstring, hs, rfl⟩ | ⟨hdigit, hname, hquote, hsymbol⟩
  · exact .inl ⟨hdigit, scanNumber_of_append hnumber hn⟩
  · have hsame : (c :: rest).takeWhile isNamePart
        = ((c :: rest) ++ more).takeWhile isNamePart := takeWhile_eq_of_length_le hn
    rw [List.cons_append] at hsame
    rw [hsame]
    exact .inr (.inl ⟨hdigit, hname, rfl, rfl⟩)
  · have hshort := scanString_of_append hstring (Nat.le_of_succ_le_succ hn)
    exact .inr (.inr (.inl ⟨hquote, s, k, hshort, hs, rfl⟩))
  · exact .inr (.inr (.inr ⟨hdigit, hname, hquote, scanSymbol_of_append hsymbol hn⟩))

/-! ## Tokens of a text -/

/-- The text that tokens were read from, up to the end of the last one. -/
def Token.written (ts : List Token) : List Char := ts.flatMap fun t => t.gap ++ t.text

/-- The token is the one that scanning finds if the given text comes after it. -/
structure Token.Heads (t : Token) (after : List Char) : Prop where
  gap : ∀ c ∈ t.gap, isSkipped c = true
  text : ∃ c text, t.text = c :: text ∧ isSkipped c = false ∧
    scan c (text ++ after) = .ok (t.lexeme, t.text.length)

/-- Each token is the one that is found before the text of those after it. -/
def Scanned : List Token → Prop
  | [] => True
  | t :: rest => t.Heads (Token.written rest) ∧ Scanned rest

theorem Token.written_append (ts us : List Token) :
    written (ts ++ us) = written ts ++ written us := List.flatMap_append

theorem Token.Heads.of_append {t : Token} {after more : List Char}
    (h : t.Heads (after ++ more)) : t.Heads after := by
  obtain ⟨c, text, htext, hc, hscan⟩ := h.text
  refine ⟨h.gap, c, text, htext, hc, ?_⟩
  rw [← List.append_assoc] at hscan
  refine scan_of_append hscan ?_
  rw [htext, List.length_cons, List.length_append]
  omega

theorem Scanned.of_append_left {ts us : List Token} (h : Scanned (ts ++ us)) : Scanned ts := by
  induction ts with
  | nil => trivial
  | cons t rest ih =>
      obtain ⟨ht, hrest⟩ := h
      replace ht : t.Heads (Token.written (rest ++ us)) := ht
      rw [Token.written_append] at ht
      exact ⟨ht.of_append, ih hrest⟩

theorem Scanned.of_append_right {ts us : List Token} (h : Scanned (ts ++ us)) : Scanned us := by
  induction ts with
  | nil => exact h
  | cons t rest ih => exact ih h.2

/-- A text is blank, or a first character that is no blank comes behind the gap. -/
theorem blank_or_gap (cs : List Char) :
    (∀ c ∈ cs, isSkipped c = true) ∨ ∃ gap c rest, cs = gap ++ c :: rest ∧
      (∀ d ∈ gap, isSkipped d = true) ∧ isSkipped c = false := by
  have hcs := List.takeWhile_append_dropWhile (p := isSkipped) (l := cs)
  have hhead := List.head?_dropWhile_not isSkipped cs
  cases hrest : cs.dropWhile isSkipped with
  | nil => exact .inl (by simpa using hrest)
  | cons c rest =>
      rw [hrest] at hcs hhead
      exact .inr ⟨_, c, rest, hcs.symm, fun d hd => List.mem_takeWhile_imp hd, by simpa using hhead⟩

section TokensUpTo

variable {fuel : Nat} {cs gap rest : List Char} {c : Char} {ts : List Token}

theorem tokensUpTo_blank (hcs : ∀ c ∈ cs, isSkipped c = true) : tokensUpTo (fuel + 1) cs = .ok [] := by
  have hall : cs.takeWhile isSkipped = cs := List.takeWhile_eq_self_iff.2 hcs
  rw [tokensUpTo]
  simp only [hall, List.drop_length]

theorem tokensUpTo_gap (hgap : ∀ d ∈ gap, isSkipped d = true) (hc : isSkipped c = false) :
    tokensUpTo (fuel + 1) (gap ++ c :: rest) = do
      let (lexeme, n) ← scan c rest
      let more ← tokensUpTo fuel ((c :: rest).drop n)
      return ⟨lexeme, gap, (c :: rest).take n⟩ :: more := by
  have htake : (gap ++ c :: rest).takeWhile isSkipped = gap := by
    rw [List.takeWhile_append_of_pos hgap, List.takeWhile_cons_of_neg (by simp [hc]),
      List.append_nil]
  rw [tokensUpTo]
  simp only [htake, List.drop_left]

/-- A text is blank and has no tokens, or it begins with a token and the others come next. -/
theorem tokensUpTo_eq_ok :
    tokensUpTo (fuel + 1) cs = .ok ts ↔
      ((∀ c ∈ cs, isSkipped c = true) ∧ ts = []) ∨
      ∃ gap c text after lexeme more, cs = gap ++ c :: (text ++ after) ∧
        (∀ d ∈ gap, isSkipped d = true) ∧ isSkipped c = false ∧
        scan c (text ++ after) = .ok (lexeme, (c :: text).length) ∧
        tokensUpTo fuel after = .ok more ∧ ts = ⟨lexeme, gap, c :: text⟩ :: more := by
  constructor
  · intro h
    rcases blank_or_gap cs with hblank | ⟨gap, c, rest, rfl, hgap, hc⟩
    · rw [tokensUpTo_blank hblank] at h
      cases h
      exact .inl ⟨hblank, rfl⟩
    · rw [tokensUpTo_gap hgap hc] at h
      obtain ⟨⟨lexeme, n⟩, hscan, h⟩ := bind_eq_ok.1 h
      obtain ⟨more, hmore, h⟩ := bind_eq_ok.1 h
      cases h
      obtain ⟨hpos, hle⟩ := scan_length hscan
      obtain ⟨m, rfl⟩ : ∃ m, n = m + 1 := ⟨n - 1, by omega⟩
      refine .inr ⟨gap, c, rest.take m, rest.drop m, lexeme, more, ?_, hgap, hc, ?_, hmore, rfl⟩
      · rw [List.take_append_drop]
      · rw [List.take_append_drop, List.length_cons,
          List.length_take_of_le (Nat.le_of_succ_le_succ hle)]
        exact hscan
  · rintro (⟨hblank, rfl⟩ | ⟨gap, c, text, after, lexeme, more, rfl, hgap, hc, hscan, hmore, rfl⟩)
    · exact tokensUpTo_blank hblank
    · rw [tokensUpTo_gap hgap hc]
      refine bind_eq_ok.2 ⟨_, hscan, bind_eq_ok.2 ⟨more, ?_, ?_⟩⟩
      · rw [← List.cons_append, List.drop_left]
        exact hmore
      · rw [← List.cons_append, List.take_left]
        rfl

end TokensUpTo

/-- Whatever the bound on their number, the tokens that are read are found in order. Nothing but
blanks is left behind them if the bound admits them all. -/
theorem scanned_of_tokensUpTo {fuel : Nat} {cs : List Char} {ts : List Token}
    (h : tokensUpTo fuel cs = .ok ts) :
    Scanned ts ∧ ∃ more, cs = Token.written ts ++ more ∧
      (cs.length < fuel → ∀ c ∈ more, isSkipped c = true) := by
  induction fuel generalizing cs ts with
  | zero => cases h; exact ⟨trivial, cs, rfl, fun hfuel => absurd hfuel (Nat.not_lt_zero _)⟩
  | succ fuel ih =>
      rcases tokensUpTo_eq_ok.1 h with
        ⟨hblank, rfl⟩ | ⟨gap, c, text, after, lexeme, more, rfl, hgap, hc, hscan, hmore, rfl⟩
      · exact ⟨trivial, cs, rfl, fun _ => hblank⟩
      · obtain ⟨hscanned, behind, rfl, hskipped⟩ := ih hmore
        -- The token was found before everything that follows, so also before the tokens alone.
        have htoken : scan c (text ++ Token.written more) = .ok (lexeme, (c :: text).length) := by
          rw [← List.append_assoc] at hscan
          exact scan_of_append hscan (by simp)
        refine ⟨⟨⟨hgap, c, text, rfl, hc, htoken⟩, hscanned⟩, behind, by simp [Token.written],
          fun hfuel => hskipped ?_⟩
        simp only [List.length_append, List.length_cons] at hfuel ⊢
        omega

/-- Tokens are read back from the text that they were read from. -/
theorem tokensUpTo_written {ts : List Token} (h : Scanned ts) {fuel : Nat}
    (hfuel : ts.length < fuel) : tokensUpTo fuel (Token.written ts) = .ok ts := by
  obtain ⟨fuel, rfl⟩ : ∃ m, fuel = m + 1 := ⟨fuel - 1, by omega⟩
  induction ts generalizing fuel with
  | nil => rfl
  | cons t rest ih =>
      obtain ⟨⟨hgap, c, text, htext, hc, hscan⟩, hrest⟩ := h
      obtain ⟨lexeme, gap, _⟩ := t
      simp only at hgap htext hscan
      subst htext
      rw [List.length_cons] at hfuel
      obtain ⟨fuel, rfl⟩ : ∃ m, fuel = m + 1 := ⟨fuel - 1, by omega⟩
      refine tokensUpTo_eq_ok.2 (.inr ⟨gap, c, text, Token.written rest, lexeme, rest, ?_, hgap, hc,
        hscan, ih hrest fuel (by omega), rfl⟩)
      simp [Token.written]

/-! ## Runs of tokens -/

/-- The tokens without the blanks before the first one. -/
def Token.detached : List Token → List Token
  | [] => []
  | t :: rest => { t with gap := [] } :: rest

theorem Token.spelling_eq (ts : List Token) : spelling ts = written (detached ts) := by
  cases ts with
  | nil => rfl
  | cons t rest => simp [spelling, written, detached]

theorem Token.length_detached (ts : List Token) : (detached ts).length = ts.length := by
  cases ts <;> rfl

theorem Scanned.detached {ts : List Token} (h : Scanned ts) : Scanned (Token.detached ts) := by
  cases ts with
  | nil => trivial
  | cons t rest => exact ⟨⟨by simp, h.1.text⟩, h.2⟩

theorem Scanned.length_le {ts : List Token} (h : Scanned ts) :
    ts.length ≤ (Token.written ts).length := by
  induction ts with
  | nil => exact Nat.le_refl _
  | cons t rest ih =>
      obtain ⟨⟨-, c, text, htext, -⟩, hrest⟩ := h
      have := ih hrest
      simp only [Token.written, List.flatMap_cons, List.length_append, List.length_cons,
        htext] at this ⊢
      omega

/-- **Spelled tokens.** The text of a run of tokens has just these tokens. -/
theorem tokens_spelling {ts : List Token} (h : Scanned ts) :
    tokens (Token.spelling ts) = .ok (Token.detached ts) := by
  rw [Token.spelling_eq]
  have hlen := h.detached.length_le
  exact tokensUpTo_written h.detached (Nat.lt_succ_of_le hlen)

theorem scanned_of_tokens {cs : List Char} {ts : List Token} (h : tokens cs = .ok ts) :
    Scanned ts := (scanned_of_tokensUpTo h).1

/-- Behind the last token nothing but blanks is left. -/
theorem written_of_tokens {cs : List Char} {ts : List Token} (h : tokens cs = .ok ts) :
    ∃ more, cs = Token.written ts ++ more ∧ ∀ c ∈ more, isSkipped c = true := by
  obtain ⟨-, more, hcs, hskipped⟩ := scanned_of_tokensUpTo h
  exact ⟨more, hcs, hskipped (Nat.lt_succ_self _)⟩

end NodePipeline.Expr

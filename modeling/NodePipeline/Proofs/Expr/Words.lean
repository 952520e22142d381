import Mathlib
import NodePipeline.Expr.Language
import NodePipeline.Proofs.Expr.FreeNames
import NodePipeline.Proofs.Expr.Grammar
import NodePipeline.Proofs.Expr.Tokens
import NodePipeline.Text.Characters

/-!
# Words

A letter or an underscore, and the letters, digits and underscores behind it, are one
token: a name, or one of six words that the grammar reserves. What a body refers to is
named by some token of it, so that no body refers to a reserved word.
-/

namespace NodePipeline.Expr

/-- The words that are tokens of their own and never names. -/
def reservedWords : List String := ["let", "in", "fn", "true", "false", "null"]

def Lexeme.isWord : Lexeme → Bool
  | .name _ | .letWord | .inWord | .fnWord | .trueWord | .falseWord | .nullWord => true
  | _ => false

theorem isWord_wordLexeme (text : List Char) : (wordLexeme text).isWord = true := by
  unfold wordLexeme
  split <;> rfl

theorem wordLexeme_eq_name {text : List Char} {name : String} :
    wordLexeme text = .name name ↔ String.ofList text = name ∧ name ∉ reservedWords := by
  unfold wordLexeme
  generalize String.ofList text = word
  split
  case h_7 hlet hin hfn htrue hfalse hnull =>
    have hword : word ∉ reservedWords := by
      simp only [reservedWords, List.mem_cons, List.not_mem_nil, or_false, not_or]
      exact ⟨hlet, hin, hfn, htrue, hfalse, hnull⟩
    rw [Lexeme.name.injEq]
    exact ⟨fun h => ⟨h, h ▸ hword⟩, fun h => h.1⟩
  all_goals
    constructor
    · intro h
      cases h
    · rintro ⟨rfl, hword⟩
      exact absurd (by decide) hword

/-! ## Scanning a word -/

theorem isNamePart_of_isNameStart {c : Char} (h : isNameStart c = true) : isNamePart c = true := by
  simp only [isNameStart, isNamePart, Bool.or_eq_true, Char.isAlphanum] at h ⊢
  exact h.imp_left .inl

theorem isBlank_of_isNamePart {c : Char} (h : isNamePart c = true) : Text.isBlank c = false := by
  have hall : ∀ n : Fin 128, isNamePart (Char.ofNat n) = true →
      Text.isBlank (Char.ofNat n) = false := by decide
  have hbound : c.toNat < 128 := by
    simp only [isNamePart, Char.isAlphanum, Char.isAlpha, Char.isUpper, Char.isLower,
      Char.isDigit, Bool.or_eq_true, Bool.and_eq_true, decide_eq_true_eq, beq_iff_eq, ge_iff_le,
      UInt32.le_iff_toNat_le] at h
    rcases h with h | rfl
    · simp at h
      omega
    · decide
  have hc : Char.ofNat (⟨c.toNat, hbound⟩ : Fin 128) = c := Char.ofNat_toNat c
  rw [← hc] at h ⊢
  exact hall _ h

theorem isDigit_of_isNameStart {c : Char} (h : isNameStart c = true) : c.isDigit = false := by
  rw [Bool.eq_false_iff]
  intro hdigit
  have hzero : '0'.toNat = 48 := rfl
  simp only [isNameStart, Char.isAlpha, Char.isUpper, Char.isLower, Char.isDigit, Bool.or_eq_true,
    Bool.and_eq_true, decide_eq_true_eq, beq_iff_eq, ge_iff_le, UInt32.le_iff_toNat_le] at h hdigit
  rcases h with h | rfl
  · simp at h hdigit
    omega
  · revert hdigit
    decide

theorem isSkipped_of_isNameStart {c : Char} (h : isNameStart c = true) : isSkipped c = false := by
  rw [Bool.eq_false_iff]
  intro hskipped
  simp only [isSkipped, Bool.or_eq_true, beq_iff_eq] at hskipped
  rcases hskipped with (((rfl | rfl) | rfl) | rfl) | rfl <;> cases h

theorem isWord_of_integerLexeme {digits : List Char} {l : Lexeme} {n : Nat}
    (h : integerLexeme digits = .ok (l, n)) : l.isWord = false := by
  unfold integerLexeme at h
  simp only at h
  split at h
  · cases h; rfl
  · cases h

theorem isWord_of_scanNumber {cs : List Char} {l : Lexeme} {n : Nat}
    (h : scanNumber cs = .ok (l, n)) : l.isWord = false := by
  unfold scanNumber at h
  simp only at h
  split at h
  · split at h
    · cases h; rfl
    · exact isWord_of_integerLexeme h
  · exact isWord_of_integerLexeme h

theorem isWord_of_scanSymbol {c : Char} {rest : List Char} {l : Lexeme} {n : Nat}
    (h : scanSymbol c rest = .ok (l, n)) : l.isWord = false := by
  unfold scanSymbol at h
  split at h
  case h_2 =>
    split at h <;> (cases h; rfl)
  all_goals first
    | (cases h; rfl)
    | cases h

/-- What is scanned is a word exactly if it begins like a name. -/
theorem scan_word {c : Char} {rest : List Char} {l : Lexeme} {n : Nat}
    (h : scan c rest = .ok (l, n)) (hword : l.isWord = true) :
    isNameStart c = true ∧ l = wordLexeme ((c :: rest).takeWhile isNamePart) ∧
      n = ((c :: rest).takeWhile isNamePart).length := by
  rcases scan_eq_ok.1 h with ⟨-, hnumber⟩ | ⟨-, hname, hl, hn⟩ | ⟨-, s, k, -, rfl, -⟩ |
    ⟨-, -, -, hsymbol⟩
  · rw [isWord_of_scanNumber hnumber] at hword
    cases hword
  · exact ⟨hname, hl, hn⟩
  · cases hword
  · rw [isWord_of_scanSymbol hsymbol] at hword
    cases hword

/-- The characters of a word. -/
def SpellsWord (cs : List Char) : Prop :=
  ∃ c rest, cs = c :: rest ∧ isNameStart c = true ∧ ∀ x ∈ rest, isNamePart x = true

/-- A word is one token. -/
theorem tokens_of_spellsWord {cs : List Char} (h : SpellsWord cs) :
    tokens cs = .ok [⟨wordLexeme cs, [], cs⟩] := by
  obtain ⟨c, rest, rfl, hstart, hrest⟩ := h
  have htext : (c :: rest).takeWhile isNamePart = c :: rest :=
    List.takeWhile_eq_self_iff.2
      (List.forall_mem_cons.2 ⟨isNamePart_of_isNameStart hstart, hrest⟩)
  have hscan : scan c rest = .ok (wordLexeme (c :: rest), (c :: rest).length) := by
    refine scan_eq_ok.2 (.inr (.inl ⟨isDigit_of_isNameStart hstart, hstart, ?_, ?_⟩))
    · rw [htext]
    · rw [htext]
  have hheads : Scanned [⟨wordLexeme (c :: rest), [], c :: rest⟩] := by
    refine ⟨⟨nofun, c, rest, rfl, isSkipped_of_isNameStart hstart, ?_⟩, trivial⟩
    rw [Token.written, List.flatMap_nil, List.append_nil]
    exact hscan
  have hwritten : Token.written [⟨wordLexeme (c :: rest), [], c :: rest⟩] = c :: rest := by
    simp [Token.written]
  have htokens := tokensUpTo_written hheads (Nat.lt_succ_of_le hheads.length_le)
  rwa [hwritten] at htokens

/-- A token that is a word and the whole of a text. -/
theorem spellsWord_of_tokens {cs : List Char} {t : Token} (h : tokens cs = .ok [t])
    (hword : t.lexeme.isWord = true) (htext : t.text = cs) : SpellsWord cs := by
  obtain ⟨⟨-, c, text, hcs, -, hscan⟩, -⟩ := scanned_of_tokens h
  rw [Token.written, List.flatMap_nil, List.append_nil] at hscan
  obtain ⟨hstart, -, hlength⟩ := scan_word hscan hword
  have hall : (c :: text).takeWhile isNamePart = c :: text :=
    (List.takeWhile_prefix _).eq_of_length (by rw [← hlength, hcs])
  refine ⟨c, text, htext ▸ hcs, hstart, fun x hx => ?_⟩
  exact List.takeWhile_eq_self_iff.1 hall x (List.mem_cons_of_mem c hx)

/-- Among the tokens of a text, no name is a reserved word. -/
theorem notMem_reservedWords_of_scanned {ts : List Token} (h : Scanned ts) {name : String}
    (hname : .name name ∈ ts.map Token.lexeme) : name ∉ reservedWords := by
  induction ts with
  | nil => cases hname
  | cons t rest ih =>
      obtain ⟨⟨-, c, text, -, -, hscan⟩, hrest⟩ := h
      rcases List.mem_cons.1 hname with hname | hname
      · rw [← hname] at hscan
        exact (wordLexeme_eq_name.1 (scan_word hscan rfl).2.1.symm).2
      · exact ih hrest hname

/-! ## References are named by tokens -/

mutual

/-- Source texts bind no names and name none. -/
theorem freeNames_withoutSources (bound : List String) (e : Expr) :
    e.withoutSources.freeNames bound = e.freeNames bound := by
  cases e with
  | literal v => rfl
  | var name => rfl
  | neg e => exact freeNames_withoutSources bound e
  | binary op left right =>
      exact congrArg₂ (· ++ ·) (freeNames_withoutSources bound left)
        (freeNames_withoutSources bound right)
  | list items => exact freeNamesList_withoutSources bound items
  | dict entries => exact freeNamesEntries_withoutSources bound entries
  | bind name value body =>
      exact congrArg₂ (· ++ ·) (freeNames_withoutSources bound value)
        (freeNames_withoutSources (name :: bound) body)
  | lambda params body source => exact freeNames_withoutSources (params ++ bound) body
  | call callee args =>
      exact congrArg₂ (· ++ ·) (freeNames_withoutSources bound callee)
        (freeNamesList_withoutSources bound args)
  | field target name => exact freeNames_withoutSources bound target
termination_by structural e

theorem freeNamesList_withoutSources (bound : List String) (es : List Expr) :
    freeNamesList bound (itemsWithoutSources es) = freeNamesList bound es := by
  cases es with
  | nil => rfl
  | cons e rest =>
      exact congrArg₂ (· ++ ·) (freeNames_withoutSources bound e)
        (freeNamesList_withoutSources bound rest)
termination_by structural es

theorem freeNamesEntries_withoutSources (bound : List String) (es : List (String × Expr)) :
    freeNamesEntries bound (entriesWithoutSources es) = freeNamesEntries bound es := by
  cases es with
  | nil => rfl
  | cons entry rest =>
      obtain ⟨key, e⟩ := entry
      exact congrArg₂ (· ++ ·) (freeNames_withoutSources bound e)
        (freeNamesEntries_withoutSources bound rest)
termination_by structural es

end

/-- The names that occur free in a tree of the category. -/
def Category.freeNames : (c : Category) → c.Tree → List String
  | .expr, e | .sum, e | .product, e | .unary, e | .applied, e | .primary, e => e.freeNames []
  | .items, es | .someItems, es => freeNamesList [] es
  | .entry, pair => pair.2.freeNames []
  | .entries, es | .someEntries, es => freeNamesEntries [] es

/-- What is free in a tree is among the lexemes that spell it. -/
theorem Derives.name_mem {c : Category} {ls : List Lexeme} {t : c.Tree} (h : Derives c ls t)
    {name : String} (hname : name ∈ c.freeNames t) : .name name ∈ ls := by
  induction h with
  | bind _ _ hvalue hbody =>
      rcases List.mem_append.1 hname with h | h
      · simp [hvalue h]
      · simp [hbody ((mem_freeNames _ _ _).1 h).1]
  | lambda _ ih =>
      have hbody := ((mem_freeNames (_ ++ []) _ name).1 hname).1
      simp [ih hbody]
  | var => exact List.mem_singleton.2 (congrArg _ (List.mem_singleton.1 hname))
  | literal | noItems | noEntries => cases hname
  | sum _ ih | product _ ih | unary _ ih | applied _ ih | primary _ ih | items _ ih
  | entries _ ih =>
      exact ih hname
  | lastItem _ ih | lastEntry _ ih =>
      rcases List.mem_append.1 hname with h | h
      · exact ih h
      · cases h
  | neg _ ih | group _ ih | list _ ih | dict _ ih | field _ ih | entry _ _ ih => simp [ih hname]
  | add _ _ hleft hright | sub _ _ hleft hright | mul _ _ hleft hright | div _ _ hleft hright
  | call _ _ hleft hright | moreItems _ _ hleft hright | moreEntries _ _ hleft hright =>
      rcases List.mem_append.1 hname with h | h
      · simp [hleft h]
      · simp [hright h]

theorem name_mem_of_references {body : Body} {name : String} (h : name ∈ references body) :
    ∃ ts, tokens body.source.toList = .ok ts ∧ .name name ∈ ts.map Token.lexeme := by
  unfold references at h
  cases htokens : tokens body.source.toList with
  | error fault =>
      have hparse : parse body.source = .error fault := by rw [parse, htokens]; rfl
      rw [hparse, htokens] at h
      cases h
  | ok ts =>
      refine ⟨ts, rfl, ?_⟩
      cases hparse : parse body.source with
      | ok e =>
          rw [hparse] at h
          have hread : parseTokens ts = .ok e := by rw [← hparse, parse, htokens]; rfl
          refine (derives_of_parseTokens hread).name_mem ?_
          show name ∈ e.withoutSources.freeNames []
          rw [freeNames_withoutSources]
          exact h
      | error fault =>
          rw [hparse, htokens] at h
          obtain ⟨t, ht, hname⟩ := List.mem_filterMap.1 h
          refine List.mem_map.2 ⟨t, ht, ?_⟩
          split at hname
          · next n hlexeme => rw [hlexeme, Option.some.inj hname]
          · cases hname

/-- **No body refers to a reserved word.** -/
theorem notMem_reservedWords_of_references {body : Body} {name : String}
    (h : name ∈ references body) : name ∉ reservedWords := by
  obtain ⟨ts, htokens, hname⟩ := name_mem_of_references h
  exact notMem_reservedWords_of_scanned (scanned_of_tokens htokens) hname

end NodePipeline.Expr

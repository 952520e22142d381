import NodePipeline.Proofs.Expr.Spans
import NodePipeline.Proofs.Results

/-!
# What the spans of a source cover

The spans of tokens stand on boundaries between characters, one behind the other, and what
stands between them and around them are blanks. The text from the start of a token to the end
of a later one is what the tokens from the one to the other spell.
-/

namespace NodePipeline.Expr

open Source (byteAt slice)
open Text (width width_append)

variable {source : String} {before gap after : List Char} {ts us : List Token} {start : Nat}

/-! ## Tokens and their spans -/

theorem Token.written_cons (t : Token) (ts : List Token) :
    written (t :: ts) = t.gap ++ t.text ++ written ts := List.flatMap_cons

@[simp] theorem Token.length_spans (start : Nat) (ts : List Token) :
    (spans start ts).length = ts.length := by
  induction ts generalizing start with
  | nil => rfl
  | cons t rest ih => rw [spans, List.length_cons, List.length_cons, ih]

theorem Token.map_lexeme_spans (start : Nat) (ts : List Token) :
    (spans start ts).map (·.lexeme) = ts.map (·.lexeme) := by
  induction ts generalizing start with
  | nil => rfl
  | cons t rest ih => rw [spans, List.map_cons, List.map_cons, ih]

theorem Token.spans_append (ts us : List Token) :
    spans start (ts ++ us) = spans start ts ++ spans (start + width (written ts)) us := by
  induction ts generalizing start with
  | nil => rfl
  | cons t rest ih =>
      rw [List.cons_append, spans, spans, ih, written_cons, width_append, width_append,
        List.cons_append, Nat.add_assoc, Nat.add_assoc, Nat.add_assoc]

/-- The span of a token behind others. -/
theorem Token.getElem?_spans (ts : List Token) (t : Token) (us : List Token) :
    (spans 0 (ts ++ t :: us))[ts.length]?
      = some ⟨t.lexeme, width (written ts ++ t.gap), width (written ts ++ t.gap ++ t.text)⟩ := by
  rw [spans_append, List.getElem?_append_right (Nat.le_of_eq (length_spans 0 ts)), length_spans,
    Nat.sub_self, Nat.zero_add, width_append, width_append, width_append]
  rfl

/-! ## Boundaries, order and blanks -/

/-- The spans are runs of whole characters, one behind the other, and leave out blanks alone. -/
structure WellPlaced (source : String) (spans : List Span) : Prop where
  boundaries : ∀ s ∈ spans, String.Pos.Raw.IsValid source ⟨s.start⟩ ∧
    String.Pos.Raw.IsValid source ⟨s.stop⟩ ∧ s.start < s.stop
  increasing : spans.Pairwise fun s t => s.stop ≤ t.start
  blanks : ∀ i < source.utf8ByteSize, (∀ s ∈ spans, ¬ (s.start ≤ i ∧ i < s.stop)) →
    ∃ c, byteAt source i = pure c ∧ isSkipped c = true

theorem boundaries_spans (h : source.toList = before ++ Token.written ts ++ after)
    (hts : Scanned ts) :
    ∀ s ∈ Token.spans (width before) ts, String.Pos.Raw.IsValid source ⟨s.start⟩ ∧
      String.Pos.Raw.IsValid source ⟨s.stop⟩ ∧ s.start < s.stop := by
  induction ts generalizing before with
  | nil => exact fun s hs => absurd hs List.not_mem_nil
  | cons t rest ih =>
      obtain ⟨⟨-, c, text, htext, -⟩, hrest⟩ := hts
      have hstart : source.toList
          = (before ++ t.gap) ++ (t.text ++ Token.written rest ++ after) := by
        simp [h, Token.written_cons]
      have hstop : source.toList = (before ++ t.gap ++ t.text) ++ Token.written rest ++ after := by
        simp [h, Token.written_cons]
      have hpos : 0 < width t.text := Text.width_pos (by simp [htext])
      rw [Token.spans, ← width_append, ← width_append]
      refine List.forall_mem_cons.2 ⟨⟨Text.isValid_width hstart, ?_, ?_⟩, ih hstop hrest⟩
      · exact Text.isValid_width (hstop.trans (List.append_assoc ..))
      · rw [width_append (before ++ t.gap)]
        exact Nat.lt_add_of_pos_right hpos

theorem le_start_of_mem_spans {s : Span} (h : s ∈ Token.spans start ts) : start ≤ s.start := by
  induction ts generalizing start with
  | nil => exact absurd h List.not_mem_nil
  | cons t rest ih =>
      rcases List.mem_cons.1 h with rfl | hrest
      · exact Nat.le_add_right _ _
      · have := ih hrest
        omega

theorem increasing_spans (start : Nat) (ts : List Token) :
    (Token.spans start ts).Pairwise fun s t => s.stop ≤ t.start := by
  induction ts generalizing start with
  | nil => exact .nil
  | cons t rest ih => exact .cons (fun s hs => le_start_of_mem_spans hs) (ih _)

/-- The bytes of blanks are blanks. -/
theorem byteAt_gap (h : source.toList = before ++ gap ++ after)
    (hgap : ∀ c ∈ gap, isSkipped c = true) {i : Nat} (hlow : width before ≤ i)
    (hhigh : i < width (before ++ gap)) : ∃ c, byteAt source i = pure c ∧ isSkipped c = true := by
  induction gap generalizing before with
  | nil =>
      rw [List.append_nil] at hhigh
      omega
  | cons c gap ih =>
      have hc := narrow_isSkipped c (hgap c List.mem_cons_self)
      rcases Nat.eq_or_lt_of_le hlow with rfl | hlt
      · have hcons : source.toList = before ++ c :: (gap ++ after) := by
          rw [h, List.append_assoc]
          rfl
        have hbyte := Source.byteAt_width hcons
        rw [leadingByte_of_narrow hc] at hbyte
        exact ⟨c, hbyte, hgap c List.mem_cons_self⟩
      · have hnext : source.toList = (before ++ [c]) ++ gap ++ after := by
          rw [h, List.append_cons before c gap]
        refine ih hnext (fun d hd => hgap d (List.mem_cons_of_mem c hd)) ?_ ?_
        · rw [Source.width_concat_of_narrow hc]
          exact hlt
        · rwa [← List.append_cons]

theorem blanks_spans (h : source.toList = before ++ Token.written ts ++ after) (hts : Scanned ts)
    (hafter : ∀ c ∈ after, isSkipped c = true) {i : Nat} (hlow : width before ≤ i)
    (hhigh : i < source.utf8ByteSize)
    (hfree : ∀ s ∈ Token.spans (width before) ts, ¬ (s.start ≤ i ∧ i < s.stop)) :
    ∃ c, byteAt source i = pure c ∧ isSkipped c = true := by
  induction ts generalizing before with
  | nil =>
      rw [show Token.written [] = [] from rfl, List.append_nil] at h
      have hend : source.toList = before ++ after ++ [] := by rw [h, List.append_nil]
      exact byteAt_gap hend hafter hlow (by rwa [Source.width_of_end hend])
  | cons t rest ih =>
      obtain ⟨hhead, hrest⟩ := hts
      rw [Token.spans, ← width_append, ← width_append] at hfree
      obtain ⟨hfirst, hfree⟩ := List.forall_mem_cons.1 hfree
      have hstop : source.toList = (before ++ t.gap ++ t.text) ++ Token.written rest ++ after := by
        simp [h, Token.written_cons]
      rcases Nat.lt_or_ge i (width (before ++ t.gap)) with hgap | hstart
      · have hstart : source.toList
            = before ++ t.gap ++ (t.text ++ Token.written rest ++ after) := by
          simp [h, Token.written_cons]
        exact byteAt_gap hstart hhead.gap hlow hgap
      · exact ih hstop hrest (Nat.le_of_not_lt fun hlt => hfirst ⟨hstart, hlt⟩) hfree

theorem wellPlaced_spans (h : tokens source.toList = .ok ts) :
    WellPlaced source (Token.spans 0 ts) := by
  obtain ⟨more, hsource, hmore⟩ := written_of_tokens h
  have hscanned := scanned_of_tokens h
  replace hsource : source.toList = [] ++ Token.written ts ++ more := hsource
  exact {
    boundaries := boundaries_spans hsource hscanned
    increasing := increasing_spans 0 ts
    blanks := fun _ hi => blanks_spans hsource hscanned hmore (Nat.zero_le _) hi }

/-! ## Texts between spans -/

theorem Token.spelling_cons (t : Token) (ts : List Token) :
    spelling (t :: ts) = t.text ++ written ts := rfl

theorem Token.written_append_cons (ts : List Token) (t : Token) (us : List Token) :
    written (ts ++ t :: us) = written ts ++ t.gap ++ spelling (t :: us) := by
  rw [written_append, written_cons, spelling_cons, List.append_assoc, List.append_assoc]

/-- From the start of a token to the end of a later one stands what they spell. -/
theorem slice_spelling {t : Token} {used : List Token}
    (h : tokens source.toList = .ok (ts ++ t :: used ++ us)) :
    slice source (width (Token.written ts ++ t.gap)) (width (Token.written (ts ++ t :: used)))
      = pure (String.ofList (Token.spelling (t :: used))) := by
  obtain ⟨more, hsource, -⟩ := written_of_tokens h
  rw [Token.written_append, Token.written_append_cons, List.append_assoc] at hsource
  rw [Token.written_append_cons, Source.slice_width hsource]

end NodePipeline.Expr

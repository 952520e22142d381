import NodePipeline.Artifact.File
import NodePipeline.Proofs.Artifact.RoundTrip

/-!
# What cannot be stored

A function or a pipeline has no stored form, wherever it lies in lists and dictionaries.
The refusal names the first of them, in the order in which the value is written, by the
steps that lead there. Nothing is written before the whole value has been looked through.
-/

namespace NodePipeline

namespace Value

/-! ## Places inside a value -/

/-- A step from a list or a dictionary to one of its members. -/
inductive Step
  | item (index : Nat)
  | entry (key : String)
deriving DecidableEq

def Step.text : Step → String
  | .item index => "[" ++ toString index ++ "]"
  | .entry key => "." ++ key

/-- Steps from the outside to the inside. -/
abbrev Path : Type := List Step

/-- How a place is written in messages. -/
def Path.text : Path → String
  | [] => ""
  | step :: rest => step.text ++ Path.text rest

/-- The value at a place. -/
def at? : Value → Path → Option Value
  | v, [] => some v
  | .list items, .item index :: rest => items[index]?.bind fun v => v.at? rest
  | .dict entries, .entry key :: rest => (Entries.find? key entries).bind fun v => v.at? rest
  | _, _ :: _ => none

/-- Of two members of one value the first comes earlier. -/
def Step.Before : Step → Step → Prop
  | .item i, .item j => i < j
  | .entry key, .entry other => key < other
  | _, _ => False

theorem Step.Before.asymm {s t : Step} (h : s.Before t) : ¬t.Before s := by
  cases s <;> cases t
  · exact Nat.lt_asymm h
  · exact id
  · exact id
  · exact String.lt_asymm h

/-- A list or a dictionary comes before its members, and each member with all that is in it
before the next one. -/
def Path.Before (path other : Path) : Prop := List.Lex Step.Before path other

theorem Path.Before.asymm {path other : Path} (h : path.Before other) : ¬other.Before path :=
  List.lex_asymm Step.Before.asymm h

/-! ## The first place of a value that cannot be stored -/

/-- Functions and pipelines have no stored form. -/
def HasNoForm : Value → Prop
  | .function .. => True
  | .pipeline _ => True
  | _ => False

/-- Nothing in the value is without a stored form. -/
def AllStored (v : Value) : Prop := ∀ path w, v.at? path = some w → ¬w.HasNoForm

/-- The value at the place has no stored form, and all others without one come later. -/
structure FirstWithoutForm (v : Value) (path : Path) (w : Value) : Prop where
  there : v.at? path = some w
  hasNoForm : w.HasNoForm
  first : ∀ path' w', v.at? path' = some w' → w'.HasNoForm → path' = path ∨ path.Before path'

theorem FirstWithoutForm.unique {v w w' : Value} {path path' : Path}
    (h : v.FirstWithoutForm path w) (h' : v.FirstWithoutForm path' w') : path = path' ∧ w = w' := by
  have hpath : path = path' := by
    rcases h.first path' w' h'.there h'.hasNoForm with heq | hbefore
    · exact heq.symm
    · rcases h'.first path w h.there h.hasNoForm with heq | hbefore'
      · exact heq
      · exact absurd hbefore' hbefore.asymm
  subst hpath
  exact ⟨rfl, Option.some.inj (h.there.symm.trans h'.there)⟩

section Places

variable {v w : Value} {path : Path} {index : Nat} {key : String}

theorem allStored_of_flat (hform : ¬v.HasNoForm)
    (hflat : ∀ step rest, v.at? (step :: rest) = none) : v.AllStored := by
  intro path w hat
  cases path with
  | nil => exact Option.some.inj hat ▸ hform
  | cons step rest =>
      rw [hflat] at hat
      cases hat

theorem firstWithoutForm_here (hform : v.HasNoForm) : v.FirstWithoutForm [] v where
  there := rfl
  hasNoForm := hform
  first path' _ _ _ := by
    cases path' with
    | nil => exact Or.inl rfl
    | cons step rest => exact Or.inr List.Lex.nil

/-! ### Lists -/

variable {items : List Value}

theorem allStored_nil_list : (list []).AllStored :=
  allStored_of_flat id fun step rest => by cases step <;> rfl

theorem AllStored.list_cons (hv : v.AllStored) (hitems : (list items).AllStored) :
    (list (v :: items)).AllStored := by
  intro path w hat
  match path with
  | [] => exact Option.some.inj hat ▸ id
  | .item 0 :: rest => exact hv rest w hat
  | .item (index + 1) :: rest => exact hitems (.item index :: rest) w hat
  | .entry _ :: _ => cases hat

theorem FirstWithoutForm.head_item (h : v.FirstWithoutForm path w) (items : List Value) :
    (list (v :: items)).FirstWithoutForm (.item 0 :: path) w where
  there := h.there
  hasNoForm := h.hasNoForm
  first path' w' hat hform := by
    match path' with
    | [] => exact absurd hform (Option.some.inj hat ▸ id)
    | .item 0 :: rest =>
        rcases h.first rest w' hat hform with rfl | hbefore
        · exact Or.inl rfl
        · exact Or.inr (List.Lex.cons hbefore)
    | .item (index + 1) :: rest => exact Or.inr (List.Lex.rel (Nat.succ_pos index))
    | .entry _ :: _ => cases hat

theorem FirstWithoutForm.tail_item (hv : v.AllStored)
    (h : (list items).FirstWithoutForm (.item index :: path) w) :
    (list (v :: items)).FirstWithoutForm (.item (index + 1) :: path) w where
  there := h.there
  hasNoForm := h.hasNoForm
  first path' w' hat hform := by
    match path' with
    | [] => exact absurd hform (Option.some.inj hat ▸ id)
    | .item 0 :: rest => exact absurd hform (hv rest w' hat)
    | .item (other + 1) :: rest =>
        rcases h.first (.item other :: rest) w' hat hform with heq | hbefore
        · obtain ⟨hstep, rfl⟩ := List.cons.inj heq
          obtain rfl := Step.item.inj hstep
          exact Or.inl rfl
        · rcases List.cons_lex_cons_iff.1 hbefore with hlt | ⟨hstep, hrest⟩
          · exact Or.inr (List.Lex.rel (Nat.succ_lt_succ hlt))
          · obtain rfl := Step.item.inj hstep
            exact Or.inr (List.Lex.cons hrest)
    | .entry _ :: _ => cases hat

/-! ### Dictionaries -/

variable {entries : Entries Value}

theorem at?_entry_cons (other : String) : (dict ((key, v) :: entries)).at? (.entry other :: path)
    = if key = other then v.at? path else (dict entries).at? (.entry other :: path) := by
  simp only [at?, Entries.find?]
  split <;> rfl

theorem key_mem_of_at? (hat : (dict entries).at? (.entry key :: path) = some w) :
    key ∈ Entries.names entries := by
  obtain ⟨v, hfind, -⟩ := Option.bind_eq_some_iff.1 hat
  exact Entries.find?_isSome.1 (by rw [hfind]; rfl)

theorem allStored_nil_dict : (dict []).AllStored :=
  allStored_of_flat id fun step rest => by cases step <;> rfl

theorem AllStored.dict_cons (hv : v.AllStored) (hentries : (dict entries).AllStored) :
    (dict ((key, v) :: entries)).AllStored := by
  intro path w hat
  match path with
  | [] => exact Option.some.inj hat ▸ id
  | .item _ :: _ => cases hat
  | .entry other :: rest =>
      rw [at?_entry_cons] at hat
      split at hat
      · exact hv rest w hat
      · exact hentries _ w hat

theorem FirstWithoutForm.head_entry (h : v.FirstWithoutForm path w)
    (hsorted : Entries.Sorted ((key, v) :: entries)) :
    (dict ((key, v) :: entries)).FirstWithoutForm (.entry key :: path) w where
  there := by rw [at?_entry_cons, if_pos rfl, h.there]
  hasNoForm := h.hasNoForm
  first path' w' hat hform := by
    match path' with
    | [] => exact absurd hform (Option.some.inj hat ▸ id)
    | .item _ :: _ => cases hat
    | .entry other :: rest =>
        rw [at?_entry_cons] at hat
        split at hat
        · next heq =>
            subst heq
            rcases h.first rest w' hat hform with rfl | hbefore
            · exact Or.inl rfl
            · exact Or.inr (List.Lex.cons hbefore)
        · exact Or.inr (List.Lex.rel (hsorted.head_lt other (key_mem_of_at? hat)))

theorem FirstWithoutForm.tail_entry {other : String} (hv : v.AllStored)
    (h : (dict entries).FirstWithoutForm (.entry other :: path) w)
    (hsorted : Entries.Sorted ((key, v) :: entries)) :
    (dict ((key, v) :: entries)).FirstWithoutForm (.entry other :: path) w where
  there := by
    have hne : key ≠ other := by
      rintro rfl
      exact hsorted.head_notMem (key_mem_of_at? h.there)
    rw [at?_entry_cons, if_neg hne, h.there]
  hasNoForm := h.hasNoForm
  first path' w' hat hform := by
    match path' with
    | [] => exact absurd hform (Option.some.inj hat ▸ id)
    | .item _ :: _ => cases hat
    | .entry _ :: rest =>
        rw [at?_entry_cons] at hat
        split at hat
        · exact absurd hform (hv rest w' hat)
        · exact h.first _ w' hat hform

end Places

end Value

namespace Stored

open Value

variable {store : Table → Bytes}

/-! ## The refusal -/

mutual

/-- Either all of a value is stored, or the first value in it without a stored form is refused
at its place. -/
theorem ofValue_cases (v : Value) (location : String) (hord : v.Ordered) :
    (∃ s, ofValue store location v = .ok s) ∧ v.AllStored ∨
      ∃ path w, v.FirstWithoutForm path w ∧
        ofValue store location v = .error (unsupported w.kind (location ++ Path.text path)) := by
  cases v with
  | list items =>
      rcases ofItems_cases items location 0 hord with
        ⟨⟨ss, hss⟩, hall⟩ | ⟨i, path, w, hfirst, herror⟩
      · refine Or.inl ⟨⟨.list ss, ?_⟩, hall⟩
        rw [ofValue, hss]
        rfl
      · refine Or.inr ⟨.item i :: path, w, hfirst, ?_⟩
        rw [ofValue, herror, Nat.zero_add]
        rfl
  | dict entries =>
      rcases ofEntries_cases entries location hord.1 hord.2 with
        ⟨⟨ss, hss⟩, hall⟩ | ⟨key, path, w, hfirst, herror⟩
      · refine Or.inl ⟨⟨.dict ss, ?_⟩, hall⟩
        rw [ofValue, hss]
        rfl
      · refine Or.inr ⟨.entry key :: path, w, hfirst, ?_⟩
        rw [ofValue, herror]
        rfl
  | function | pipeline =>
      refine Or.inr ⟨[], _, firstWithoutForm_here trivial, ?_⟩
      rw [ofValue, Path.text, String.append_empty]
      rfl
  | _ => exact Or.inl ⟨⟨_, rfl⟩, allStored_of_flat id fun step rest => by cases step <;> rfl⟩
termination_by structural v

theorem ofItems_cases (items : List Value) (location : String) (index : Nat)
    (hord : OrderedItems items) :
    (∃ ss, ofItems store location index items = .ok ss) ∧ (Value.list items).AllStored ∨
      ∃ i path w, (Value.list items).FirstWithoutForm (.item i :: path) w ∧
        ofItems store location index items = .error
          (unsupported w.kind (location ++ Path.text (.item (index + i) :: path))) := by
  cases items with
  | nil => exact Or.inl ⟨⟨[], rfl⟩, allStored_nil_list⟩
  | cons item rest =>
      rcases ofValue_cases item (location ++ "[" ++ toString index ++ "]") hord.1 with
        ⟨⟨s, hs⟩, hall⟩ | ⟨path, w, hfirst, herror⟩
      · rcases ofItems_cases rest location (index + 1) hord.2 with
          ⟨⟨ss, hss⟩, hrest⟩ | ⟨i, path, w, hfirst, herror⟩
        · refine Or.inl ⟨⟨s :: ss, ?_⟩, hall.list_cons hrest⟩
          rw [ofItems, hs, hss]
          rfl
        · refine Or.inr ⟨i + 1, path, w, hfirst.tail_item hall, ?_⟩
          rw [ofItems, hs, herror, Nat.add_right_comm]
          rfl
      · refine Or.inr ⟨0, path, w, hfirst.head_item rest, ?_⟩
        rw [ofItems, herror]
        simp only [bind, Except.bind, Path.text, Step.text, Nat.add_zero, String.append_assoc]
termination_by structural items

theorem ofEntries_cases (entries : List (String × Value)) (location : String)
    (hsorted : Entries.Sorted entries) (hord : OrderedEntries entries) :
    (∃ ss, ofEntries store location entries = .ok ss) ∧ (Value.dict entries).AllStored ∨
      ∃ key path w, (Value.dict entries).FirstWithoutForm (.entry key :: path) w ∧
        ofEntries store location entries = .error
          (unsupported w.kind (location ++ Path.text (.entry key :: path))) := by
  cases entries with
  | nil => exact Or.inl ⟨⟨[], rfl⟩, allStored_nil_dict⟩
  | cons entry rest =>
      obtain ⟨key, value⟩ := entry
      rcases ofValue_cases value (location ++ "." ++ key) hord.1 with
        ⟨⟨s, hs⟩, hall⟩ | ⟨path, w, hfirst, herror⟩
      · rcases ofEntries_cases rest location hsorted.tail hord.2 with
          ⟨⟨ss, hss⟩, hrest⟩ | ⟨other, path, w, hfirst, herror⟩
        · refine Or.inl ⟨⟨(key, s) :: ss, ?_⟩, hall.dict_cons hrest⟩
          rw [ofEntries, hs, hss]
          rfl
        · refine Or.inr ⟨other, path, w, hfirst.tail_entry hall hsorted, ?_⟩
          rw [ofEntries, hs, herror]
          rfl
      · refine Or.inr ⟨key, path, w, hfirst.head_entry hsorted, ?_⟩
        rw [ofEntries, herror]
        simp only [bind, Except.bind, Path.text, Step.text, String.append_assoc]
termination_by structural entries

end

end Stored

namespace Value

/-- The place as an error names it; it has no name for the whole value. -/
def Path.location? : Path → Option String
  | [] => none
  | step :: rest => some (Path.text (step :: rest))

theorem unsupported_text (kind : Kind) (path : Path) :
    Stored.unsupported kind path.text = .unsupported kind path.location? := by
  cases path with
  | nil => rfl
  | cons step rest =>
      have hne : (Path.text (step :: rest)).isEmpty = false := by
        cases step <;> simp [Path.text, Step.text]
      rw [Stored.unsupported, hne]
      rfl

theorem toArtifact_cases (p : Primitives) {v : Value} (hord : v.Ordered) :
    (∃ bytes, v.toArtifact p = .ok bytes) ∧ v.AllStored ∨
      ∃ path w, v.FirstWithoutForm path w ∧
        v.toArtifact p = .error (.unsupported w.kind path.location?) := by
  by_cases htable : ∃ t, v = .table t
  · obtain ⟨t, rfl⟩ := htable
    refine Or.inl ⟨⟨p.writeTable t, rfl⟩, allStored_of_flat id fun step rest => ?_⟩
    cases step <;> rfl
  · rw [toArtifact_of_not_table fun t ht => htable ⟨t, ht⟩]
    rcases Stored.ofValue_cases v "" hord with ⟨⟨s, hs⟩, hall⟩ | ⟨path, w, hfirst, herror⟩
    · exact Or.inl ⟨⟨s.envelope.write, by rw [hs]; rfl⟩, hall⟩
    · refine Or.inr ⟨path, w, hfirst, ?_⟩
      rw [herror, String.empty_append, unsupported_text]
      rfl

end Value

/-- **The first value without a stored form is refused.** Storing fails exactly if a function
or a pipeline lies somewhere in the lists and dictionaries of the value. The error has the
kind of the one that comes first and the steps that lead to it, or no place if it is the
whole value. Publishing then leaves the disk as it was. -/
theorem storing_refuses_the_first_without_form (p : Primitives) {v : Value} (hord : v.Ordered) :
    ((∃ e, v.toArtifact p = .error e) ↔ ∃ path w, v.at? path = some w ∧ w.HasNoForm) ∧
    (∀ e, v.toArtifact p = .error e ↔ ∃ path w, v.FirstWithoutForm path w ∧
      e = .unsupported w.kind path.location?) ∧
    ∀ e, v.toArtifact p = .error e → ∀ device path d,
      v.publish p device path d = (d, .error (.artifact e)) := by
  refine ⟨?_, ?_, fun e he device path d => by rw [Value.publish, he]⟩
  · rcases Value.toArtifact_cases p hord with ⟨⟨bytes, hbytes⟩, hall⟩ | ⟨path, w, hfirst, herror⟩
    · rw [hbytes]
      constructor
      · rintro ⟨e, he⟩
        cases he
      · rintro ⟨path, w, hat, hform⟩
        exact absurd hform (hall path w hat)
    · exact ⟨fun _ => ⟨path, w, hfirst.there, hfirst.hasNoForm⟩, fun _ => ⟨_, herror⟩⟩
  · intro e
    rcases Value.toArtifact_cases p hord with ⟨⟨bytes, hbytes⟩, hall⟩ | ⟨path, w, hfirst, herror⟩
    · rw [hbytes]
      constructor
      · intro he
        cases he
      · rintro ⟨path, w, hfirst, -⟩
        exact absurd hfirst.hasNoForm (hall path w hfirst.there)
    · rw [herror]
      constructor
      · intro he
        exact ⟨path, w, hfirst, (Except.error.inj he).symm⟩
      · rintro ⟨path', w', hfirst', rfl⟩
        obtain ⟨rfl, rfl⟩ := hfirst.unique hfirst'
        rfl

/-- A function in a list, and a pipeline behind it. -/
def handlerValue : Value :=
  .dict [("f", .list [.int 1, .function ["x"] "x" []]), ("p", .pipeline [])]

theorem handler_is_refused :
    handlerValue.Ordered ∧
      handlerValue.toArtifact .standard = .error (.unsupported .function (some ".f[1]")) ∧
      handlerValue.publish .standard FileStep.perform "out/artifact" .empty
        = (.empty, .error (.artifact (.unsupported .function (some ".f[1]")))) := by
  have hord : handlerValue.Ordered := by
    simp only [handlerValue, Value.Ordered, Value.OrderedItems, Value.OrderedEntries,
      Value.OrderedNodes, Entries.Sorted, Entries.names, and_true]
    decide
  obtain ⟨-, hfirst, hpublish⟩ := storing_refuses_the_first_without_form .standard hord
  have hfunction : (Value.function ["x"] "x" []).FirstWithoutForm [] _ :=
    Value.firstWithoutForm_here trivial
  have hnumber : (Value.int 1).AllStored :=
    Value.allStored_of_flat id fun step rest => by cases step <;> rfl
  have hplace : handlerValue.FirstWithoutForm [.entry "f", .item 1] _ :=
    ((hfunction.head_item []).tail_item hnumber).head_entry hord.1
  have herror := (hfirst _).2 ⟨_, _, hplace, rfl⟩
  exact ⟨hord, herror, hpublish _ herror _ _ _⟩

end NodePipeline

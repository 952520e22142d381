import NodePipeline.Json.Parser
import NodePipeline.Json.Printer
import NodePipeline.Proofs.Json.Strings

/-!
# JSON documents are read back

Reading passes over the line breaks and blanks that writing puts between values. So
a document that is made of texts is read back as it was, with its members in their
order.
-/

namespace NodePipeline.Json

mutual

/-- Made without numbers, and without strings that are no texts. -/
def Textual : Json → Prop
  | .null => True
  | .bool _ => True
  | .str _ => True
  | .arr items => TextualItems items
  | .obj members => TextualMembers members
  | .num _ => False
  | .brokenString => False
  | .brokenObject => False

def TextualItems : List Json → Prop
  | [] => True
  | item :: rest => Textual item ∧ TextualItems rest

def TextualMembers : List (String × Json) → Prop
  | [] => True
  | (_, value) :: rest => Textual value ∧ TextualMembers rest

end

/-! ## Blanks -/

theorem skipSpace_cons {c : Char} (h : isSpace c = false) (rest : List Char) :
    skipSpace (c :: rest) = c :: rest := by
  rw [skipSpace, List.dropWhile_cons, h]
  rfl

theorem skipSpace_newLine (depth : Nat) (rest : List Char) :
    skipSpace (newLine depth ++ rest) = skipSpace rest := by
  have hblank : ∀ c ∈ newLine depth, isSpace c = true := by
    intro c hc
    rcases List.mem_cons.1 hc with rfl | hc
    · rfl
    · rw [List.eq_of_mem_replicate hc]
      rfl
  exact List.dropWhile_append_of_pos hblank

/-- Reading a value begins with passing over blanks. -/
theorem parseValue_congr {cs cs' : List Char} (h : skipSpace cs = skipSpace cs') (fuel : Nat) :
    parseValue fuel cs = parseValue fuel cs' := by
  cases fuel with
  | zero => rfl
  | succ fuel => rw [parseValue, parseValue, h]

theorem parseItems_congr {cs cs' : List Char} (h : skipSpace cs = skipSpace cs') (fuel : Nat) :
    parseItems fuel cs = parseItems fuel cs' := by
  cases fuel with
  | zero => rfl
  | succ fuel => rw [parseItems, parseItems, parseValue_congr h]

theorem scanName_congr {cs cs' : List Char} (h : skipSpace cs = skipSpace cs') :
    scanName cs = scanName cs' := by
  rw [scanName, scanName, h]

theorem parseMembers_congr {cs cs' : List Char} (h : skipSpace cs = skipSpace cs') (fuel : Nat) :
    parseMembers fuel cs = parseMembers fuel cs' := by
  cases fuel with
  | zero => rfl
  | succ fuel => rw [parseMembers, parseMembers, scanName_congr h]

theorem prettyChars_head (depth : Nat) {j : Json} (h : Textual j) :
    ∃ c more, prettyChars depth j = c :: more ∧ isSpace c = false ∧ c ≠ ']' := by
  have hblock : ∀ opening closing entries, isSpace opening = false → opening ≠ ']' →
      ∃ c more, block opening closing depth entries = c :: more ∧ isSpace c = false ∧ c ≠ ']' := by
    intro opening closing entries hspace hne
    unfold block
    split
    · exact ⟨opening, _, rfl, hspace, hne⟩
    · exact ⟨opening, _, rfl, hspace, hne⟩
  cases j with
  | null => exact ⟨'n', _, rfl, rfl, by decide⟩
  | bool b => cases b <;> exact ⟨_, _, rfl, rfl, by decide⟩
  | str s => exact ⟨'"', _, rfl, rfl, by decide⟩
  | arr items => exact hblock _ _ _ rfl (by decide)
  | obj members => exact hblock _ _ _ rfl (by decide)
  | num n => exact absurd h id
  | brokenString => exact absurd h id
  | brokenObject => exact absurd h id

/-! ## Lists of entries -/

/-- Entries on lines of their own, with commas between them. -/
def lines (depth : Nat) (entries : List (List Char)) : List Char :=
  [','].intercalate (entries.map fun e => newLine depth ++ e)

theorem lines_singleton (depth : Nat) (e : List Char) : lines depth [e] = newLine depth ++ e := by
  simp [lines]

theorem lines_cons_cons (depth : Nat) (e e' : List Char) (rest : List (List Char)) :
    lines depth (e :: e' :: rest) = newLine depth ++ e ++ ',' :: lines depth (e' :: rest) := by
  simp [lines, List.intercalate]

theorem block_cons (opening closing : Char) (depth : Nat) (e : List Char)
    (rest : List (List Char)) :
    block opening closing depth (e :: rest)
      = opening :: lines (depth + 1) (e :: rest) ++ newLine depth ++ [closing] := rfl

theorem skipSpace_lines (depth : Nat) {e : List Char} {c : Char} {cs : List Char} (he : e = c :: cs)
    (hspace : isSpace c = false) (rest : List (List Char)) (tail : List Char) :
    ∃ more, skipSpace (lines depth (e :: rest) ++ tail) = c :: more := by
  subst he
  cases rest with
  | nil =>
      rw [lines_singleton, List.append_assoc, skipSpace_newLine]
      exact ⟨_, skipSpace_cons hspace _⟩
  | cons e' rest =>
      rw [lines_cons_cons, List.append_assoc, List.append_assoc, skipSpace_newLine]
      exact ⟨_, skipSpace_cons hspace _⟩

/-! ## Values -/

theorem scanName_quoted (name : String) (rest : List Char) :
    scanName (quoted name ++ ':' :: rest) = some (some name, rest) := by
  obtain ⟨cs, hquoted, hscan⟩ := scanString_quoted name (':' :: rest)
  rw [hquoted, scanName, skipSpace_cons rfl]
  simp [hscan, skipSpace_cons (rfl : isSpace ':' = false)]

theorem ofMembers_some (members : List (String × Json)) :
    ofMembers (members.map fun m => (some m.1, m.2)) = .obj members := by
  have hmap : (members.map fun m => (some m.1, m.2)).mapM (fun m => m.1.map (·, m.2))
      = some members := by
    induction members with
    | nil => rfl
    | cons m rest ih =>
        rw [List.map_cons, List.mapM_cons, ih]
        rfl
  rw [ofMembers, hmap]

/-! ## Brackets -/

section Brackets

variable {cs rest : List Char} {c : Char} {more : List Char} {fuel : Nat}

theorem parseValue_array (hhead : skipSpace cs = c :: more) (hspace : isSpace c = false)
    (hclose : c ≠ ']') {items : List Json} (h : parseItems fuel cs = some (items, rest)) :
    parseValue (fuel + 1) ('[' :: cs) = some (.arr items, rest) := by
  have hagain : skipSpace (c :: more) = skipSpace cs := by rw [hhead, skipSpace_cons hspace]
  rw [parseValue, skipSpace_cons rfl]
  simp only [hhead]
  split
  · next heq => exact absurd (List.cons.inj heq).1 hclose
  · rw [parseItems_congr hagain, h]
    rfl

theorem parseValue_object (hhead : skipSpace cs = c :: more) (hspace : isSpace c = false)
    (hclose : c ≠ '}') {members : List (Option String × Json)}
    (h : parseMembers fuel cs = some (members, rest)) :
    parseValue (fuel + 1) ('{' :: cs) = some (ofMembers members, rest) := by
  have hagain : skipSpace (c :: more) = skipSpace cs := by rw [hhead, skipSpace_cons hspace]
  rw [parseValue, skipSpace_cons rfl]
  simp only [hhead]
  split
  · next heq => exact absurd (List.cons.inj heq).1 hclose
  · rw [parseMembers_congr hagain, h]
    rfl

end Brackets

theorem length_newLine (depth : Nat) : (newLine depth).length = 2 * depth + 1 := by
  simp [newLine]

section Blocks

variable {item : Json} {items : List Json} {member : String × Json}
  {members : List (String × Json)} {depth fuel : Nat}

theorem prettyChars_arr (depth : Nat) (item : Json) (items : List Json) (rest : List Char) :
    prettyChars depth (.arr (item :: items)) ++ rest =
      '[' :: (lines (depth + 1) (prettyItems (depth + 1) (item :: items))
        ++ (newLine depth ++ ']' :: rest)) := by
  simp [prettyChars, prettyItems, block_cons]

theorem prettyChars_obj (depth : Nat) (member : String × Json) (members : List (String × Json))
    (rest : List Char) : prettyChars depth (.obj (member :: members)) ++ rest =
      '{' :: (lines (depth + 1) (prettyMembers (depth + 1) (member :: members))
        ++ (newLine depth ++ '}' :: rest)) := by
  obtain ⟨name, value⟩ := member
  simp [prettyChars, prettyMembers, block_cons]

theorem length_lines_items
    (h : (prettyChars depth (.arr (item :: items))).length < fuel + 1) :
    (lines (depth + 1) (prettyItems (depth + 1) (item :: items))).length < fuel := by
  have hlength := congrArg List.length (prettyChars_arr depth item items [])
  simp only [List.length_append, List.length_cons, List.length_nil] at hlength
  omega

theorem length_lines_members
    (h : (prettyChars depth (.obj (member :: members))).length < fuel + 1) :
    (lines (depth + 1) (prettyMembers (depth + 1) (member :: members))).length < fuel := by
  have hlength := congrArg List.length (prettyChars_obj depth member members [])
  simp only [List.length_append, List.length_cons, List.length_nil] at hlength
  omega

/-- The first line of a block is no closing bracket. -/
theorem parseValue_arr {rest : List Char} (h : TextualItems (item :: items))
    (hitems : parseItems fuel (lines (depth + 1) (prettyItems (depth + 1) (item :: items))
      ++ (newLine depth ++ ']' :: rest)) = some (item :: items, rest)) :
    parseValue (fuel + 1) (prettyChars depth (.arr (item :: items)) ++ rest)
      = some (.arr (item :: items), rest) := by
  obtain ⟨c, cs, hhead, hspace, hclose⟩ := prettyChars_head (depth + 1) h.1
  obtain ⟨after, hafter⟩ := skipSpace_lines (depth + 1) hhead hspace
    (prettyItems (depth + 1) items) (newLine depth ++ ']' :: rest)
  rw [prettyChars_arr]
  exact parseValue_array hafter hspace hclose hitems

theorem parseValue_obj {rest : List Char}
    (hmembers : parseMembers fuel (lines (depth + 1) (prettyMembers (depth + 1) (member :: members))
      ++ (newLine depth ++ '}' :: rest))
        = some ((member :: members).map fun m => (some m.1, m.2), rest)) :
    parseValue (fuel + 1) (prettyChars depth (.obj (member :: members)) ++ rest)
      = some (.obj (member :: members), rest) := by
  obtain ⟨name, value⟩ := member
  obtain ⟨after, hafter⟩ := skipSpace_lines (depth + 1)
    (rfl : quoted name ++ [':', ' '] ++ prettyChars (depth + 1) value = '"' :: _) rfl
    (prettyMembers (depth + 1) members) (newLine depth ++ '}' :: rest)
  rw [prettyChars_obj, ← ofMembers_some]
  exact parseValue_object hafter rfl (by decide) hmembers

end Blocks

mutual

theorem parseValue_pretty (j : Json) (h : Textual j) (depth fuel : Nat) (rest : List Char)
    (hfuel : (prettyChars depth j).length < fuel) :
    parseValue fuel (prettyChars depth j ++ rest) = some (j, rest) := by
  cases fuel with
  | zero => omega
  | succ fuel =>
      cases j with
      | null => rfl
      | bool b => cases b <;> rfl
      | str s =>
          obtain ⟨cs, hquoted, hscan⟩ := scanString_quoted s rest
          rw [prettyChars, hquoted, parseValue, skipSpace_cons rfl]
          simp [hscan]
      | arr items =>
          cases items with
          | nil => rfl
          | cons item more =>
              exact parseValue_arr h (parseItems_pretty (item :: more) h (by simp) (depth + 1) depth
                fuel rest (length_lines_items hfuel))
      | obj members =>
          cases members with
          | nil => rfl
          | cons m more =>
              exact parseValue_obj (parseMembers_pretty (m :: more) h (by simp) (depth + 1) depth
                fuel rest (length_lines_members hfuel))
      | num n => exact absurd h id
      | brokenString => exact absurd h id
      | brokenObject => exact absurd h id
termination_by structural j

theorem parseItems_pretty (items : List Json) (h : TextualItems items) (hne : items ≠ [])
    (depth outer fuel : Nat) (rest : List Char)
    (hfuel : (lines depth (prettyItems depth items)).length < fuel) :
    parseItems fuel (lines depth (prettyItems depth items) ++ (newLine outer ++ ']' :: rest))
      = some (items, rest) := by
  cases fuel with
  | zero => omega
  | succ fuel =>
      have hline := length_newLine depth
      cases items with
      | nil => exact absurd rfl hne
      | cons item more =>
          have hitem := fun rest hfuel => parseValue_pretty item h.1 depth fuel rest hfuel
          have hmore := fun hne => parseItems_pretty more h.2 hne depth outer fuel rest
          cases more with
          | nil =>
              rw [prettyItems, prettyItems, lines_singleton, List.length_append] at hfuel
              rw [prettyItems, prettyItems, lines_singleton, parseItems, List.append_assoc,
                parseValue_congr (skipSpace_newLine depth _), hitem _ (by omega)]
              simp [skipSpace_newLine, skipSpace_cons (rfl : isSpace ']' = false)]
          | cons next others =>
              rw [prettyItems, prettyItems, lines_cons_cons, ← prettyItems] at hfuel ⊢
              simp only [List.length_append, List.length_cons] at hfuel
              rw [parseItems, List.append_assoc, List.append_assoc,
                parseValue_congr (skipSpace_newLine depth _), List.cons_append,
                hitem _ (by omega)]
              simp [skipSpace_cons (rfl : isSpace ',' = false), hmore (by simp) (by omega)]
termination_by structural items

theorem parseMembers_pretty (members : List (String × Json)) (h : TextualMembers members)
    (hne : members ≠ []) (depth outer fuel : Nat) (rest : List Char)
    (hfuel : (lines depth (prettyMembers depth members)).length < fuel) :
    parseMembers fuel (lines depth (prettyMembers depth members) ++ (newLine outer ++ '}' :: rest))
      = some (members.map fun m => (some m.1, m.2), rest) := by
  cases fuel with
  | zero => omega
  | succ fuel =>
      have hline := length_newLine depth
      cases members with
      | nil => exact absurd rfl hne
      | cons m more =>
          obtain ⟨name, value⟩ := m
          have hvalue := fun rest hfuel => parseValue_pretty value h.1 depth fuel rest hfuel
          have hmore := fun hne => parseMembers_pretty more h.2 hne depth outer fuel rest
          have hblank : ∀ cs, parseValue fuel (' ' :: cs) = parseValue fuel cs :=
            fun cs => parseValue_congr (List.dropWhile_cons_of_pos rfl) fuel
          cases more with
          | nil =>
              rw [prettyMembers, prettyMembers, lines_singleton] at hfuel ⊢
              simp only [List.length_append, List.length_cons] at hfuel
              rw [parseMembers, List.append_assoc, scanName_congr (skipSpace_newLine depth _)]
              simp only [List.append_assoc, List.cons_append, List.nil_append, scanName_quoted,
                bind, Option.bind, hblank, hvalue _ (by omega : (prettyChars depth value).length < fuel)]
              simp [skipSpace_newLine, skipSpace_cons (rfl : isSpace '}' = false)]
          | cons next others =>
              obtain ⟨nextName, nextValue⟩ := next
              rw [prettyMembers, prettyMembers, lines_cons_cons, ← prettyMembers] at hfuel ⊢
              simp only [List.length_append, List.length_cons] at hfuel
              rw [parseMembers, List.append_assoc, List.append_assoc,
                scanName_congr (skipSpace_newLine depth _)]
              simp only [List.append_assoc, List.cons_append, List.nil_append, scanName_quoted,
                bind, Option.bind, hblank, hvalue _ (by omega : (prettyChars depth value).length < fuel)]
              simp [skipSpace_cons (rfl : isSpace ',' = false), hmore (by simp) (by omega)]
termination_by structural members

end

/-- **Documents are read back.** -/
theorem parse?_pretty {j : Json} (h : Textual j) : parse? j.pretty = some j := by
  have hvalue := parseValue_pretty j h 0 (2 * (prettyChars 0 j).length + 2) [] (by omega)
  rw [List.append_nil] at hvalue
  unfold parse? pretty
  rw [String.toList_ofList]
  simp only [bind, Option.bind, hvalue]
  rfl

end NodePipeline.Json

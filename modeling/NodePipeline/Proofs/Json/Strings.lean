import NodePipeline.Json.Text

/-!
# JSON strings are read back

Each character of a text is written as one unit: as itself, by a short escape, or by
four digits. Reading the units up to the closing quote and joining them gives the
text again.
-/

namespace NodePipeline.Json

/-- How a character is written. -/
def unitOf (c : Char) : StringUnit :=
  if c.toNat < 32 ∧ c ≠ '\n' ∧ c ≠ '\r' ∧ c ≠ '\t' ∧ c.toNat ≠ 8 ∧ c.toNat ≠ 12 then .code c.toNat
  else .char c

theorem unitOf_cases (c : Char) :
    unitOf c = .char c ∨ c.toNat < 32 ∧ unitOf c = .code c.toNat := by
  unfold unitOf
  split
  · next h => exact Or.inr ⟨h.1, rfl⟩
  · exact Or.inl rfl

theorem hexCode?_low : ∀ n < 32,
    hexCode? '0' '0' (Bytes.hexDigit (n / 16)) (Bytes.hexDigit (n % 16)) = some n := by
  decide

theorem scanUnits_code {a b c d : Char} {n : Nat} (h : hexCode? a b c d = some n)
    (rest : List Char) :
    scanUnits ('\\' :: 'u' :: a :: b :: c :: d :: rest)
      = (scanUnits rest).map fun r => (.code n :: r.1, r.2) := by
  rw [scanUnits, h]
  cases scanUnits rest <;> rfl

theorem scanUnits_short {e c : Char} (h : shortEscape? e = some c) (rest : List Char) :
    scanUnits ('\\' :: e :: rest) = (scanUnits rest).map fun r => (.char c :: r.1, r.2) := by
  have hu : e ≠ 'u' := by
    rintro rfl
    cases h
  rw [scanUnits, h]
  · cases scanUnits rest <;> rfl
  · rintro a b c d more heq
    exact absurd heq (by simp [hu])

theorem scanUnits_char {c : Char} (hquote : c ≠ '"') (hslash : c ≠ '\\') (hlow : 32 ≤ c.toNat)
    (rest : List Char) :
    scanUnits (c :: rest) = (scanUnits rest).map fun r => (.char c :: r.1, r.2) := by
  rw [scanUnits]
  · rw [if_neg (by simp [hslash, hlow])]
    cases scanUnits rest <;> rfl
  · exact hquote
  · intro a b c' d more heq
    exact absurd heq hslash
  · intro e more heq
    exact absurd heq hslash

theorem scanUnits_escapeChar (c : Char) (rest : List Char) :
    scanUnits (escapeChar c ++ rest) = (scanUnits rest).map fun r => (unitOf c :: r.1, r.2) := by
  unfold escapeChar
  split
  · next h => subst h; exact scanUnits_short rfl rest
  split
  · next h => subst h; exact scanUnits_short rfl rest
  split
  · next h => subst h; exact scanUnits_short rfl rest
  split
  · next h => subst h; exact scanUnits_short rfl rest
  split
  · next h => subst h; exact scanUnits_short rfl rest
  split
  · next h =>
      obtain rfl : c = Char.ofNat 8 := by rw [← h, Char.ofNat_toNat]
      exact scanUnits_short rfl rest
  split
  · next h =>
      obtain rfl : c = Char.ofNat 12 := by rw [← h, Char.ofNat_toNat]
      exact scanUnits_short rfl rest
  split
  · next hnewline hreturn htab hback hfeed hlow =>
      have hunit : unitOf c = .code c.toNat :=
        if_pos ⟨hlow, hnewline, hreturn, htab, hback, hfeed⟩
      rw [hunit]
      exact scanUnits_code (hexCode?_low _ hlow) rest
  · next hquote hslash _ _ _ _ _ hlow =>
      have hunit : unitOf c = .char c := if_neg fun h => hlow h.1
      rw [hunit]
      exact scanUnits_char hquote hslash (Nat.le_of_not_lt hlow) rest

theorem scanUnits_escaped (cs rest : List Char) :
    scanUnits (cs.flatMap escapeChar ++ '"' :: rest) = some (cs.map unitOf, rest) := by
  induction cs with
  | nil => rfl
  | cons c more ih =>
      rw [List.flatMap_cons, List.append_assoc, scanUnits_escapeChar, ih]
      rfl

/-- A low number is no half of a character. -/
theorem joinUnits_code {n : Nat} (h : n < 0xd800) (units : List StringUnit) :
    joinUnits (.code n :: units) = (joinUnits units).map (Char.ofNat n :: ·) := by
  have hhigh : isHighHalf n = false := by
    rw [isHighHalf, decide_eq_false_iff_not]
    omega
  have hlow : isLowHalf n = false := by
    rw [isLowHalf, decide_eq_false_iff_not]
    omega
  cases units with
  | nil => simp [joinUnits, hhigh, hlow]
  | cons unit more => cases unit <;> simp [joinUnits, hhigh, hlow]

theorem joinUnits_map_unitOf (cs : List Char) : joinUnits (cs.map unitOf) = some cs := by
  induction cs with
  | nil => rfl
  | cons c more ih =>
      rw [List.map_cons]
      rcases unitOf_cases c with hchar | ⟨hlow, hcode⟩
      · rw [hchar, joinUnits, ih]
        rfl
      · rw [hcode, joinUnits_code (by omega), ih, Char.ofNat_toNat]
        rfl

/-- **Strings are read back.** -/
theorem scanString_quoted (s : String) (rest : List Char) :
    ∃ cs, quoted s ++ rest = '"' :: cs ∧ scanString cs = some (some s, rest) := by
  refine ⟨s.toList.flatMap escapeChar ++ '"' :: rest, by simp [quoted], ?_⟩
  unfold scanString
  rw [scanUnits_escaped]
  simp [joinUnits_map_unitOf]

end NodePipeline.Json

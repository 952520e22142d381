import Mathlib.Data.List.TakeDrop
import NodePipeline.Expr.Spans
import NodePipeline.Proofs.Expr.Tokens
import NodePipeline.Proofs.Text.Utf8

/-!
# Scanning in place finds the tokens

An index of the scanner always stands behind a number of whole characters. There it sees the
first byte of the next character, which is an ASCII character only if this is one, so that the
loops over bytes stop where those over characters do. Scanning in place therefore ends, never
leaves the source, and finds the same tokens or the same fault as scanning from the front.
-/

namespace NodePipeline

/-! ## Decimals -/

namespace Binary64

theorem spanDigits_append {digits rest : List Char} (hdigits : ∀ c ∈ digits, c.isDigit = true)
    (hrest : ∀ c, rest.head? = some c → c.isDigit = false) :
    spanDigits (digits ++ rest) = (digits, rest) := by
  have htake : rest.takeWhile Char.isDigit = [] := by
    cases rest with
    | nil => rfl
    | cons c more => rw [List.takeWhile_cons_of_neg (by simp [hrest c rfl])]
  have hdrop : rest.dropWhile Char.isDigit = rest := by
    cases rest with
    | nil => rfl
    | cons c more => rw [List.dropWhile_cons_of_neg (by simp [hrest c rfl])]
  rw [spanDigits, List.span_eq_takeWhile_dropWhile, List.takeWhile_append_of_pos hdigits,
    List.dropWhile_append_of_pos hdigits, htake, hdrop, List.append_nil]

theorem toLower_of_isDigit {c : Char} (h : c.isDigit = true) : c.toLower = c := by
  simp only [Char.isDigit, Bool.and_eq_true, decide_eq_true_eq] at h
  have hhigh : c.val ≤ 57 := h.2
  exact dif_neg fun hupper => absurd (UInt32.le_trans hupper.1 hhigh) (by decide)

/-- Digits around a point are a number. -/
theorem read?_decimal {whole fraction : List Char} (hwhole : ∀ c ∈ whole, c.isDigit = true)
    (hfraction : ∀ c ∈ fraction, c.isDigit = true) (hpos : whole ≠ []) :
    read? (String.ofList (whole ++ '.' :: fraction))
      = some (ofDecimal false (natOfDigits (whole ++ fraction)) (-(fraction.length : Int))) := by
  obtain ⟨d, more, rfl⟩ := List.exists_cons_of_ne_nil hpos
  have hd : d.isDigit = true := hwhole d List.mem_cons_self
  have hword (word : String) (hhead : word.toList.head?.any Char.isDigit = false) :
      String.ofList (((d :: more) ++ '.' :: fraction).map Char.toLower) ≠ word := by
    rintro rfl
    simp [toLower_of_isDigit hd, hd] at hhead
  have hmagnitude : readMagnitude false ((d :: more) ++ '.' :: fraction)
      = some (ofDecimal false (natOfDigits ((d :: more) ++ fraction))
          (-(fraction.length : Int))) := by
    have hfrac : spanDigits (fraction ++ []) = (fraction, []) :=
      spanDigits_append hfraction nofun
    rw [List.append_nil] at hfrac
    rw [readMagnitude, spanDigits_append hwhole (by rintro c hc; cases hc; rfl)]
    simp only [hfrac, List.isEmpty_cons, Bool.false_and, Bool.false_eq_true, if_false]
  unfold read?
  rw [String.toList_ofList]
  split
  next negative cs hsign =>
  have hsame : negative = false ∧ cs = (d :: more) ++ '.' :: fraction := by
    split at hsign
    · next rest heq => cases heq; cases hd
    · next rest heq => cases heq; cases hd
    · cases hsign; exact ⟨rfl, rfl⟩
  obtain ⟨rfl, rfl⟩ := hsame
  rw [if_neg (not_or.2 ⟨hword _ (by decide), hword _ (by decide)⟩), if_neg (hword _ (by decide)),
    hmagnitude]

end Binary64

namespace Expr

open Text (width width_append)

/-! ## Readings of texts -/

/-- A reading goes on where the computation that it follows does. -/
theorem Reading.bind_orFault {α β γ δ : Type} {x : Reading γ} {r : Except SyntaxFault α}
    {view : α → γ} {f : γ → Reading δ} {g : α → Except SyntaxFault β} {view' : β → δ}
    (hx : x = orFault (r.map view))
    (hf : ∀ a, r = .ok a → f (view a) = orFault ((g a).map view')) :
    x >>= f = orFault ((r >>= g).map view') := by
  subst hx
  cases r with
  | error fault => rfl
  | ok a => exact hf a rfl

/-! ## Kinds of bytes -/

/-- All characters of the kind are ASCII characters. -/
def Narrow (kind : Char → Bool) : Prop := ∀ c, kind c = true → c.toNat < 128

theorem utf8Size_eq_one_iff {c : Char} : c.utf8Size = 1 ↔ c.toNat < 128 := by
  rw [Char.utf8Size_eq_one_iff, UInt32.le_iff_toNat_le]
  exact Nat.lt_succ_iff.symm

theorem toNat_ofNat_byte (b : UInt8) : (Char.ofNat b.toNat).toNat = b.toNat := by
  have hb := b.toNat_lt
  have hvalid : b.toNat.isValidChar := .inl (by omega)
  rw [Char.ofNat, dif_pos hvalid]
  rfl

theorem leadingByte_eq (c : Char) :
    leadingByte c = Char.ofNat ((String.utf8EncodeChar c).headD 0).toNat := by
  rw [leadingByte, Text.ofString_ofList, List.flatMap_singleton]

theorem leadingByte_of_narrow {c : Char} (h : c.toNat < 128) : leadingByte c = c := by
  rw [leadingByte_eq, String.utf8EncodeChar_eq_singleton (utf8Size_eq_one_iff.2 h)]
  have hbyte : c.val.toUInt8.toNat = c.toNat := by
    rw [UInt32.toNat_toUInt8]
    exact Nat.mod_eq_of_lt (by show c.toNat < 2 ^ 8; omega)
  rw [List.headD_cons, hbyte, Char.ofNat_toNat]

theorem le_leadingByte {c : Char} (h : ¬ c.toNat < 128) : 128 ≤ (leadingByte c).toNat := by
  obtain ⟨b, more, hc⟩ := List.exists_cons_of_ne_nil (String.utf8EncodeChar_ne_nil (c := c))
  have hb := Text.le_head_utf8EncodeChar (fun hsize => h (utf8Size_eq_one_iff.1 hsize)) b
    (by rw [hc]; rfl)
  rw [leadingByte_eq, hc, List.headD_cons, toNat_ofNat_byte]
  exact hb

variable {kind : Char → Bool}

/-- The first byte of a character is of the kind if the character is. -/
theorem Narrow.leadingByte (h : Narrow kind) (c : Char) : kind (leadingByte c) = kind c := by
  by_cases hc : c.toNat < 128
  · rw [leadingByte_of_narrow hc]
  · have hbyte := le_leadingByte hc
    have hnot (d : Char) (hd : 128 ≤ d.toNat) : kind d = false :=
      Bool.eq_false_iff.2 fun hkind => absurd (h d hkind) (Nat.not_lt.2 hd)
    rw [hnot _ hbyte, hnot c (Nat.le_of_not_lt hc)]

theorem narrow_isDigit : Narrow Char.isDigit := fun c h =>
  utf8Size_eq_one_iff.1 (Bytes.utf8Size_of_isAlphanum (by simp [Char.isAlphanum, h]))

theorem narrow_isNamePart : Narrow isNamePart := by
  intro c h
  rcases Bool.or_eq_true_iff.1 h with hword | hunder
  · exact utf8Size_eq_one_iff.1 (Bytes.utf8Size_of_isAlphanum hword)
  · rw [eq_of_beq hunder]
    decide

theorem narrow_isNameStart : Narrow isNameStart := by
  intro c h
  refine narrow_isNamePart c ?_
  rcases Bool.or_eq_true_iff.1 h with hletter | hunder
  · simp [isNamePart, Char.isAlphanum, hletter]
  · simp [isNamePart, hunder]

theorem narrow_isSkipped : Narrow isSkipped := by
  intro c h
  simp only [isSkipped, Bool.or_eq_true, beq_iff_eq] at h
  rcases h with (((rfl | rfl) | rfl) | rfl) | rfl <;> decide

theorem narrow_decide {d : Char} (hd : d.toNat < 128) : Narrow fun c => c == d := by
  intro c h
  rwa [eq_of_beq h]

theorem leadingByte_eq_iff {c d : Char} (hd : d.toNat < 128) : leadingByte c = d ↔ c = d := by
  have := (narrow_decide hd).leadingByte c
  rwa [Bool.eq_iff_iff, beq_iff_eq, beq_iff_eq] at this

namespace Source

variable {source : String} {before between after cs rest : List Char} {c : Char}

/-! ## Access behind a number of characters -/

theorem byteAt_width (h : source.toList = before ++ c :: rest) :
    byteAt source (width before) = pure (leadingByte c) := by
  obtain ⟨b, more, hc⟩ := List.exists_cons_of_ne_nil (String.utf8EncodeChar_ne_nil (c := c))
  rw [byteAt, Text.ofString_getElem? h, leadingByte_eq, hc]
  rfl

theorem slice_width (h : source.toList = before ++ between ++ after) :
    slice source (width before) (width (before ++ between)) = pure (String.ofList between) := by
  have hstart : String.Pos.Raw.IsValid source ⟨width before⟩ :=
    Text.isValid_width (h.trans (List.append_assoc ..))
  have hstop : String.Pos.Raw.IsValid source ⟨width (before ++ between)⟩ := Text.isValid_width h
  have hle : width before ≤ width (before ++ between) := by
    rw [width_append]
    exact Nat.le_add_right _ _
  rw [slice, dif_pos ⟨hle, hstart, hstop⟩, Text.extract_eq h rfl (by rw [← width_append])]

/-- Exactly what is no run of whole characters of the source stops the reader. -/
theorem slice_eq_outOfRange_iff {start stop : Nat} :
    slice source start stop = throw .outOfRange ↔ ¬ (start ≤ stop ∧
      String.Pos.Raw.IsValid source ⟨start⟩ ∧ String.Pos.Raw.IsValid source ⟨stop⟩) := by
  unfold slice
  split
  · next h => exact ⟨nofun, fun hnot => absurd h hnot⟩
  · next h => exact ⟨fun _ => h, fun _ => rfl⟩

example : slice "né" 0 2 = throw .outOfRange := slice_eq_outOfRange_iff.2 (by decide)

theorem width_lt (h : source.toList = before ++ c :: rest) :
    width before < source.utf8ByteSize := by
  have := c.utf8Size_pos
  rw [Text.utf8ByteSize_eq, h, width_append, Text.width_cons]
  omega

theorem width_of_end (h : source.toList = before ++ []) : width before = source.utf8ByteSize := by
  rw [Text.utf8ByteSize_eq, h, List.append_nil]

/-- A character of a narrow kind takes one byte. -/
theorem width_concat_of_narrow (h : c.toNat < 128) : width (before ++ [c]) = width before + 1 := by
  rw [width_append, Text.width_cons, utf8Size_eq_one_iff.2 h]
  rfl

theorem skipWhile_width {fuel : Nat} (hkind : Narrow kind) (h : source.toList = before ++ cs)
    (hfuel : cs.length < fuel) :
    skipWhile source kind fuel (width before) = pure (width (before ++ cs.takeWhile kind)) := by
  induction cs generalizing before fuel with
  | nil =>
      obtain ⟨fuel, rfl⟩ : ∃ k, fuel = k + 1 := ⟨fuel - 1, by omega⟩
      rw [skipWhile, if_neg (Nat.not_lt.2 (Nat.le_of_eq (width_of_end h).symm)),
        List.takeWhile_nil, List.append_nil]
  | cons c rest ih =>
      rw [List.length_cons] at hfuel
      obtain ⟨fuel, rfl⟩ : ∃ k, fuel = k + 1 := ⟨fuel - 1, by omega⟩
      rw [skipWhile, if_pos (width_lt h), byteAt_width h, pure_bind, hkind.leadingByte,
        List.takeWhile_cons]
      split
      · next hc =>
          have hnext : source.toList = (before ++ [c]) ++ rest := by rw [h, List.append_cons]
          rw [← width_concat_of_narrow (hkind c hc), ih hnext (by omega), List.append_assoc,
            List.singleton_append]
      · rw [List.append_nil]

/-! ## One token -/

theorem fractionAt_point (h : source.toList = before ++ '.' :: c :: rest) :
    fractionAt source (width before) = pure c.isDigit := by
  have hpoint : width (before ++ ['.']) = width before + 1 := width_concat_of_narrow (by decide)
  have hnext : source.toList = (before ++ ['.']) ++ c :: rest := by rw [h, List.append_cons]
  have hlt := width_lt hnext
  rw [hpoint] at hlt
  rw [fractionAt, if_pos hlt, byteAt_width h, pure_bind, if_pos (leadingByte_of_narrow (by decide)),
    ← hpoint, byteAt_width hnext, pure_bind, narrow_isDigit.leadingByte]

theorem fractionAt_none (h : source.toList = before ++ cs)
    (hcs : ∀ d more, cs ≠ '.' :: d :: more) : fractionAt source (width before) = pure false := by
  rw [fractionAt]
  split
  · next hlt =>
      cases cs with
      | nil =>
          rw [width_of_end h] at hlt
          omega
      | cons c rest =>
          have hpoint : ¬ leadingByte c = '.' := by
            rw [leadingByte_eq_iff (by decide)]
            rintro rfl
            -- The point would be the last character, and no byte follows it.
            obtain rfl : rest = [] := by
              cases rest with
              | nil => rfl
              | cons d more => exact absurd rfl (hcs d more)
            have hend : width (before ++ ['.']) = source.utf8ByteSize :=
              width_of_end (by simpa using h)
            rw [width_concat_of_narrow (by decide)] at hend
            omega
          rw [byteAt_width h, pure_bind, if_neg hpoint]
  · rfl

theorem scanNumber_of_not {whole tail : List Char} (hwhole : cs.takeWhile Char.isDigit = whole)
    (htail : cs.drop whole.length = tail)
    (hnone : ∀ d more, tail = '.' :: d :: more → d.isDigit = false) :
    scanNumber cs = integerLexeme whole := by
  unfold scanNumber
  simp only [hwhole, htail]
  split
  · next d more => rw [if_neg (by simp [hnone d more rfl])]
  · rfl

/-- What a reader of one token finds: the lexeme and the index behind the characters scanned. -/
def found (before cs : List Char) (r : Except SyntaxFault (Lexeme × Nat)) :
    Reading (Lexeme × Nat) :=
  Reading.orFault (r.map fun (lexeme, n) => (lexeme, width (before ++ cs.take n)))

/-- A number with a point. -/
theorem readNumber_decimal {fuel : Nat} {whole more : List Char}
    (h : source.toList = before ++ (whole ++ '.' :: c :: more))
    (hwhole : (whole ++ '.' :: c :: more).takeWhile Char.isDigit = whole) (hpos : whole ≠ [])
    (hc : c.isDigit = true) (hfuel : (whole ++ '.' :: c :: more).length < fuel) :
    readNumber source fuel (width before)
      = found before (whole ++ '.' :: c :: more) (scanNumber (whole ++ '.' :: c :: more)) := by
  have hdigits : ∀ d ∈ whole, d.isDigit = true := fun d hd => by
    rw [← hwhole] at hd
    exact List.mem_takeWhile_imp hd
  obtain ⟨fraction, hfraction⟩ : ∃ ds, (c :: more).takeWhile Char.isDigit = ds := ⟨_, rfl⟩
  obtain ⟨after, hafter⟩ : ∃ ds, (c :: more).dropWhile Char.isDigit = ds := ⟨_, rfl⟩
  have hmore : c :: more = fraction ++ after := by
    rw [← hfraction, ← hafter, List.takeWhile_append_dropWhile]
  have hfractionDigits : ∀ d ∈ fraction, d.isDigit = true := fun d hd => by
    rw [← hfraction] at hd
    exact List.mem_takeWhile_imp hd
  have hbehind : source.toList = (before ++ whole) ++ '.' :: c :: more := by
    rw [h, List.append_assoc]
  have hpoint : source.toList = (before ++ whole ++ ['.']) ++ c :: more := by
    rw [hbehind, List.append_cons]
  have hwidth : width (before ++ whole ++ ['.']) = width (before ++ whole) + 1 :=
    width_concat_of_narrow (by decide)
  have hstop : before ++ whole ++ ['.'] ++ fraction = before ++ (whole ++ '.' :: fraction) := by
    simp
  have htext : source.toList = before ++ (whole ++ '.' :: fraction) ++ after := by
    rw [hpoint, hmore, ← hstop, List.append_assoc _ fraction]
  have hshort : (c :: more).length < fuel := by
    rw [List.length_append, List.length_cons] at hfuel
    omega
  have hscan := (scanNumber_eq hwhole List.drop_left).2 (.inl ⟨c, more, rfl, hc, rfl, rfl⟩)
  have htake : (whole ++ '.' :: c :: more).take (whole.length + 1 + fraction.length)
      = whole ++ '.' :: fraction := by
    rw [hmore]
    show (whole ++ ('.' :: fraction ++ after)).take _ = _
    rw [← List.append_assoc, List.take_left' (by simp; omega)]
  rw [readNumber, skipWhile_width narrow_isDigit h hfuel, hwhole, pure_bind,
    fractionAt_point hbehind, pure_bind, hc, if_pos rfl, ← hwidth,
    skipWhile_width narrow_isDigit hpoint hshort, hfraction, pure_bind, hstop,
    slice_width htext, pure_bind, Binary64.read?_decimal hdigits hfractionDigits hpos, hscan,
    hfraction]
  show _ = pure (_, width (before ++ (whole ++ '.' :: c :: more).take _))
  rw [htake]

/-- Digits alone. -/
theorem readNumber_integer {fuel : Nat} {whole tail : List Char}
    (h : source.toList = before ++ (whole ++ tail))
    (hwhole : (whole ++ tail).takeWhile Char.isDigit = whole)
    (hnone : ∀ d more, tail = '.' :: d :: more → d.isDigit = false)
    (hfuel : (whole ++ tail).length < fuel) :
    readNumber source fuel (width before)
      = found before (whole ++ tail) (scanNumber (whole ++ tail)) := by
  have hbehind : source.toList = (before ++ whole) ++ tail := by rw [h, List.append_assoc]
  have hat : fractionAt source (width (before ++ whole)) = pure false := by
    by_cases hpoint : ∃ d more, tail = '.' :: d :: more
    · obtain ⟨d, more, rfl⟩ := hpoint
      rw [fractionAt_point hbehind, hnone d more rfl]
    · exact fractionAt_none hbehind fun d more heq => hpoint ⟨d, more, heq⟩
  rw [readNumber, skipWhile_width narrow_isDigit h hfuel, hwhole, pure_bind, hat, pure_bind,
    if_neg Bool.false_ne_true, slice_width hbehind, pure_bind, String.toList_ofList,
    scanNumber_of_not hwhole List.drop_left hnone]
  cases hint : integerLexeme whole with
  | error fault => rfl
  | ok result =>
      obtain ⟨lexeme, n⟩ := result
      obtain rfl := integerLexeme_length hint
      show (pure _ : Reading (Lexeme × Nat))
        = pure (lexeme, width (before ++ (whole ++ tail).take whole.length))
      rw [List.take_left]

theorem readNumber_width {fuel : Nat} (h : source.toList = before ++ c :: rest)
    (hc : c.isDigit = true) (hfuel : (c :: rest).length < fuel) :
    readNumber source fuel (width before) = found before (c :: rest) (scanNumber (c :: rest)) := by
  obtain ⟨whole, hwhole⟩ : ∃ whole, (c :: rest).takeWhile Char.isDigit = whole := ⟨_, rfl⟩
  obtain ⟨tail, htail⟩ : ∃ tail, (c :: rest).dropWhile Char.isDigit = tail := ⟨_, rfl⟩
  have hsplit : c :: rest = whole ++ tail := by
    rw [← hwhole, ← htail, List.takeWhile_append_dropWhile]
  have hpos : whole ≠ [] := by
    rw [← hwhole, List.takeWhile_cons, hc]
    exact List.cons_ne_nil _ _
  rw [hsplit] at h hwhole hfuel ⊢
  by_cases hfraction : ∃ d more, tail = '.' :: d :: more ∧ d.isDigit = true
  · obtain ⟨d, more, rfl, hd⟩ := hfraction
    exact readNumber_decimal h hwhole hpos hd hfuel
  · refine readNumber_integer h hwhole (fun d more heq => ?_) hfuel
    exact Bool.eq_false_iff.2 fun hd => hfraction ⟨d, more, heq, hd⟩

theorem readWord_width {fuel : Nat} (h : source.toList = before ++ cs) (hfuel : cs.length < fuel) :
    readWord source fuel (width before) = found before cs
      (.ok (wordLexeme (cs.takeWhile isNamePart), (cs.takeWhile isNamePart).length)) := by
  have hsplit : source.toList = before ++ cs.takeWhile isNamePart ++ cs.dropWhile isNamePart := by
    rw [h, List.append_assoc, List.takeWhile_append_dropWhile]
  have htake : cs.take (cs.takeWhile isNamePart).length = cs.takeWhile isNamePart :=
    (List.prefix_iff_eq_take.1 (List.takeWhile_prefix _)).symm
  rw [readWord, skipWhile_width narrow_isNamePart h hfuel, pure_bind, slice_width hsplit, pure_bind,
    String.toList_ofList]
  show _ = pure (_, width (before ++ cs.take _))
  rw [htake]

/-- The quoted characters are found with the number of bytes that they take. -/
theorem readQuoted_charIndices (text : List Char) (offset : Nat) (cs : List Char) :
    readQuoted text (charIndices offset cs)
      = (scanString cs).map fun (s, n) => (text ++ s, offset + width (cs.take n)) := by
  induction cs using scanString.induct generalizing text offset with
  | case1 => rfl
  | case2 rest =>
      rw [charIndices, readQuoted, scanString, Option.map_some]
      show _ = some (text ++ [], _)
      rw [List.append_nil]
      rfl
  | case3 c rest ih =>
      rw [charIndices, charIndices, readQuoted, ih, scanString, Option.map_map]
      congr 1
      funext r
      obtain ⟨s, n⟩ := r
      simp [Nat.add_assoc]
  | case4 => rfl
  | case5 c rest hquote hescape hlone ih =>
      have hnext : ∀ o d more, charIndices (offset + c.utf8Size) rest = (o, d) :: more →
          c = '\\' → False := by
        intro o d more heq hc
        cases rest with
        | nil => cases heq
        | cons e more => exact hescape e more hc rfl
      have hlast : charIndices (offset + c.utf8Size) rest = [] → c = '\\' → False := by
        intro heq hc
        cases rest with
        | nil => exact hlone hc rfl
        | cons e more => cases heq
      rw [charIndices, readQuoted.eq_5 _ _ _ _ hquote hnext hlast, ih,
        scanString.eq_5 c rest hquote hescape hlone, Option.map_map]
      congr 1
      funext r
      obtain ⟨s, n⟩ := r
      simp [Nat.add_assoc]

theorem readString_width (h : source.toList = before ++ '"' :: rest) :
    readString source (width before) = found before ('"' :: rest)
      (match scanString rest with
      | some (s, n) => .ok (.str (String.ofList s), n + 1)
      | none => .error .unterminatedString) := by
  have hquote : width (before ++ ['"']) = width before + 1 := width_concat_of_narrow (by decide)
  have hrest : source.toList = (before ++ ['"']) ++ rest ++ [] := by
    rw [h, List.append_nil, List.append_cons]
  rw [readString, ← hquote, ← width_of_end hrest, slice_width hrest, pure_bind,
    String.toList_ofList, readQuoted_charIndices]
  cases scanString rest with
  | none => rfl
  | some result =>
      obtain ⟨s, n⟩ := result
      show (pure _ : Reading (Lexeme × Nat))
        = pure (.str (String.ofList s), width (before ++ ('"' :: rest).take (n + 1)))
      simp [Nat.add_assoc]

/-- A byte is an ASCII character only if this character comes next. -/
theorem getElem?_eq_iff (h : source.toList = before ++ cs) {d : Char} (hd : d.toNat < 128) :
    (Bytes.ofString source)[width before]? = some d.toUInt8 ↔ cs.head? = some d := by
  cases cs with
  | nil =>
      rw [width_of_end h, List.getElem?_eq_none (Nat.le_of_eq (Bytes.length_ofString source))]
      exact ⟨nofun, nofun⟩
  | cons c rest =>
      obtain ⟨b, more, hc⟩ := List.exists_cons_of_ne_nil (String.utf8EncodeChar_ne_nil (c := c))
      have hbyte : b = d.toUInt8 ↔ leadingByte c = d := by
        have hbyte : d.toUInt8.toNat = d.toNat :=
          Nat.mod_eq_of_lt (by show d.toNat < 2 ^ 8; omega)
        rw [leadingByte_eq, hc, List.headD_cons, ← Char.toNat_inj, toNat_ofNat_byte,
          ← UInt8.toNat_inj, hbyte]
      rw [Text.ofString_getElem? h, hc, List.head?_cons, List.head?_cons, Option.some.injEq,
        Option.some.injEq, hbyte, leadingByte_eq_iff hd]

/-- The one symbol that is told from another by the byte behind it. -/
theorem readSymbol_minus (h : source.toList = before ++ '-' :: rest) :
    readSymbol source (width before) '-' = found before ('-' :: rest) (scanSymbol '-' rest) := by
  have hminus : source.toList = (before ++ ['-']) ++ rest := by rw [h, List.append_cons]
  have hwidth : width (before ++ ['-']) = width before + 1 := width_concat_of_narrow (by decide)
  have harrow := getElem?_eq_iff hminus (d := '>') (by decide)
  rw [hwidth] at harrow
  show (if _ then _ else _) = found before _ (if _ then _ else _)
  by_cases hnext : rest.head? = some '>'
  · obtain ⟨more, rfl⟩ : ∃ more, rest = '>' :: more := by
      cases rest with
      | nil => cases hnext
      | cons d more => cases hnext; exact ⟨more, rfl⟩
    rw [if_pos hnext, if_pos (harrow.2 hnext)]
    show (pure _ : Reading (Lexeme × Nat)) = pure (.arrow, width (before ++ ['-', '>']))
    rw [← hwidth, ← width_concat_of_narrow (c := '>') (by decide), List.append_assoc]
    rfl
  · rw [if_neg hnext, if_neg (mt harrow.1 hnext), ← hwidth]
    rfl

theorem readSymbol_width (h : source.toList = before ++ c :: rest) :
    readSymbol source (width before) (leadingByte c)
      = found before (c :: rest) (scanSymbol c rest) := by
  have hone (hc : c.toNat < 128) (lexeme : Lexeme) :
      found before (c :: rest) (.ok (lexeme, 1)) = pure (lexeme, width before + 1) := by
    rw [← width_concat_of_narrow hc]
    rfl
  by_cases hminus : c = '-'
  · subst hminus
    rw [leadingByte_of_narrow (by decide), readSymbol_minus h]
  unfold scanSymbol
  split
  case h_2 => contradiction
  case h_15 =>
    -- The character is no symbol, so its first byte is none either.
    unfold readSymbol
    split
    case h_15 => rfl
    all_goals
      next heq =>
        have hc := (leadingByte_eq_iff (by decide)).1 heq
        contradiction
  all_goals
    rw [leadingByte_of_narrow (by decide)]
    exact (hone (by decide) _).symm

theorem readLexeme_width {fuel : Nat} (h : source.toList = before ++ c :: rest)
    (hfuel : (c :: rest).length < fuel) :
    readLexeme source fuel (width before) (leadingByte c)
      = found before (c :: rest) (scan c rest) := by
  unfold readLexeme scan
  rw [narrow_isDigit.leadingByte, narrow_isNameStart.leadingByte]
  split
  · next hdigit => exact readNumber_width h hdigit hfuel
  · split
    · exact readWord_width h hfuel
    · by_cases hquote : c = '"'
      · subst hquote
        rw [leadingByte_of_narrow (by decide), if_pos rfl, if_pos rfl]
        exact readString_width h
      · rw [if_neg hquote, if_neg (mt (leadingByte_eq_iff (by decide)).1 hquote)]
        exact readSymbol_width h

end Source

/-! ## All tokens -/

/-- The spans of tokens that are read from an index on. -/
def Token.spans (start : Nat) : List Token → List Span
  | [] => []
  | t :: rest =>
      ⟨t.lexeme, start + width t.gap, start + width t.gap + width t.text⟩
        :: spans (start + width t.gap + width t.text) rest

namespace Source

variable {source : String} {before gap cs rest : List Char} {found : List Span}

theorem readSpans_gap {fuel : Nat} (h : source.toList = before ++ gap ++ cs)
    (hgap : ∀ c ∈ gap, isSkipped c = true) :
    readSpans source (fuel + gap.length) found (width before)
      = readSpans source fuel found (width (before ++ gap)) := by
  induction gap generalizing before with
  | nil => rw [List.append_nil]; rfl
  | cons c gap ih =>
      have hc : isSkipped c = true := hgap c List.mem_cons_self
      have hcons : source.toList = before ++ c :: (gap ++ cs) := by rw [h, List.append_assoc]; rfl
      have hnext : source.toList = (before ++ [c]) ++ gap ++ cs := by
        rw [h, List.append_cons before c gap]
      have hwidth : width (before ++ [c]) = width before + 1 :=
        width_concat_of_narrow (narrow_isSkipped c hc)
      rw [List.length_cons, ← Nat.add_assoc, readSpans, if_pos (width_lt hcons),
        byteAt_width hcons, pure_bind, narrow_isSkipped.leadingByte, if_pos hc,
        ← hwidth, ih hnext fun d hd => hgap d (List.mem_cons_of_mem c hd), ← List.append_cons]

/-- From behind a number of characters on, the scanner finds the tokens of the rest. -/
theorem readSpans_width {fuel bound : Nat} (h : source.toList = before ++ cs)
    (hfuel : cs.length < fuel) (hbound : cs.length + 1 < bound) :
    readSpans source bound found (width before)
      = .orFault ((tokensUpTo fuel cs).map fun ts => found ++ Token.spans (width before) ts) := by
  induction fuel generalizing before cs found bound with
  | zero => omega
  | succ fuel ih =>
      rcases blank_or_gap cs with hblank | ⟨gap, c, rest, rfl, hgap, hc⟩
      · obtain ⟨bound, rfl⟩ : ∃ k, bound = k + 1 + cs.length := ⟨bound - 1 - cs.length, by omega⟩
        have hend : source.toList = before ++ cs ++ [] := by rw [h, List.append_nil]
        rw [readSpans_gap hend hblank, readSpans,
          if_neg (Nat.not_lt.2 (Nat.le_of_eq (width_of_end hend).symm)), tokensUpTo_blank hblank]
        show _ = (pure (found ++ []) : Reading (List Span))
        rw [List.append_nil]
      · rw [List.length_append] at hfuel hbound
        obtain ⟨bound, rfl⟩ : ∃ k, bound = k + 1 + gap.length :=
          ⟨bound - 1 - gap.length, by omega⟩
        rw [← List.append_assoc] at h
        rw [readSpans_gap h hgap, readSpans, if_pos (width_lt h), byteAt_width h, pure_bind,
          narrow_isSkipped.leadingByte, if_neg (by simp [hc]), tokensUpTo_gap hgap hc]
        refine Reading.bind_orFault (readLexeme_width h (by omega)) fun r hscan => ?_
        obtain ⟨lexeme, n⟩ := r
        have hn := scan_length hscan
        have hafter : source.toList
            = (before ++ gap ++ (c :: rest).take n) ++ (c :: rest).drop n := by
          rw [List.append_assoc, List.take_append_drop, h]
        have hshort : ((c :: rest).drop n).length + 1 ≤ (c :: rest).length := by
          rw [List.length_drop, List.length_cons]
          omega
        show readSpans source bound _ (width (before ++ gap ++ (c :: rest).take n)) = _
        rw [ih hafter (by omega) (by omega)]
        dsimp only
        cases tokensUpTo fuel ((c :: rest).drop n) with
        | error fault => rfl
        | ok more =>
            show (pure _ : Reading (List Span)) = pure _
            simp [Token.spans, Nat.add_assoc]

/-- **Scanning in place.** The spans are those of the tokens of the source. -/
theorem spans_eq {source : String} {fuel : Nat} (hfuel : source.toList.length + 1 < fuel) :
    spans source fuel = .orFault ((tokens source.toList).map (Token.spans 0)) :=
  readSpans_width (show source.toList = [] ++ source.toList from rfl) (Nat.lt_succ_self _) hfuel

end Source

end Expr

end NodePipeline

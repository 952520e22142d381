import NodePipeline.Proofs.Text.Blank
import NodePipeline.Proofs.Time.Calendar
import NodePipeline.Time.Rfc3339

/-!
# Time stamps are read back

Numbers are written with as many digits as reading takes, and no blank stands before
them. So every instant that is kept is read back from its time stamp, to the nanosecond,
leap seconds and years with signs included.
-/

namespace NodePipeline

open Text

/-! ## Digits -/

theorem natOfDigits_eq (digits : List Char) :
    Binary64.natOfDigits digits = Nat.ofDigitChars 10 digits 0 := by
  rw [Nat.ofDigitChars_eq_foldl]
  rfl

namespace Rfc3339

/-- The number is spelled by so many digits. -/
structure Spells (digits : List Char) (width n : Nat) : Prop where
  length : digits.length = width
  isDigit : ∀ c ∈ digits, c.isDigit = true
  value : Binary64.natOfDigits digits = n

theorem toList_padded (width n : Nat) : (padded width n).toList
    = List.replicate (width - (Nat.toDigits 10 n).length) '0' ++ Nat.toDigits 10 n := by
  simp [padded, ← String.length_toList]

theorem isDigit_padded (width n : Nat) : ∀ c ∈ (padded width n).toList, c.isDigit = true := by
  intro c hc
  rw [toList_padded, List.mem_append] at hc
  rcases hc with hc | hc
  · rw [List.eq_of_mem_replicate hc]
    rfl
  · exact Nat.isDigit_of_mem_toDigits (by decide) (by decide) hc

theorem natOfDigits_padded (width n : Nat) :
    Binary64.natOfDigits (padded width n).toList = n := by
  rw [toList_padded, natOfDigits_eq, Nat.ofDigitChars_append, Nat.ofDigitChars_replicate_zero,
    Nat.mul_zero, Nat.ofDigitChars_ten_toDigits]

theorem spells_padded {width n : Nat} (hwidth : 0 < width) (h : n < 10 ^ width) :
    Spells (padded width n).toList width n := by
  have hlen := (Nat.length_toDigits_le_iff (by decide) hwidth).2 h
  refine ⟨?_, isDigit_padded width n, natOfDigits_padded width n⟩
  rw [toList_padded, List.length_append, List.length_replicate]
  omega

section Spells

variable {digits : List Char} {width n : Nat} (h : Spells digits width n) (hwidth : 0 < width)

include h

theorem Spells.takeWhile_eq {rest : List Char} (hrest : ∀ c ∈ rest.head?, c.isDigit = false) :
    (digits ++ rest).takeWhile Char.isDigit = digits := by
  rw [List.takeWhile_append_of_pos h.isDigit]
  cases rest with
  | nil => simp
  | cons c more => rw [List.takeWhile_cons, hrest c rfl]; simp

include hwidth

theorem Spells.head : ∃ c more, digits = c :: more ∧ c.isDigit = true := by
  cases hdigits : digits with
  | nil =>
      have := h.length
      rw [hdigits, List.length_nil] at this
      omega
  | cons c more => exact ⟨c, more, rfl, h.isDigit c (by simp [hdigits])⟩

theorem Spells.trimLeft_append (rest : List Char) : trimLeft (digits ++ rest) = digits ++ rest := by
  obtain ⟨c, more, rfl, hc⟩ := h.head hwidth
  exact trimLeft_cons (isBlank_of_isDigit hc) _

theorem Spells.readNumber (rest : List Char) :
    Rfc3339.readNumber width (digits ++ rest) = some (n, rest) := by
  obtain ⟨c, more, hhead, -⟩ := h.head hwidth
  have htake : (digits ++ rest).take width = digits := by
    rw [← h.length, List.take_left]
  have hwhile : digits.takeWhile Char.isDigit = digits := by
    have hnone : ∀ c ∈ ([] : List Char).head?, c.isDigit = false := by simp
    simpa using h.takeWhile_eq hnone
  unfold Rfc3339.readNumber
  simp only [htake, hwhile, h.value, List.drop_left]
  simp [hhead]

theorem Spells.readField {low high : Nat} (hlow : low ≤ n) (hhigh : n ≤ high) (htwo : width = 2)
    (rest : List Char) : Rfc3339.readField low high (digits ++ rest) = some (n, rest) := by
  have hread := h.readNumber hwidth rest
  rw [htwo] at hread
  unfold Rfc3339.readField
  rw [h.trimLeft_append hwidth, hread]
  simp [hlow, hhigh]

end Spells

theorem readMark_cons {mark : Char} (h : isBlank mark = false) (rest : List Char) :
    readMark mark (mark :: rest) = some rest := by
  unfold readMark
  rw [trimLeft_cons h]
  simp

/-- A number is read as far as its digits go. -/
theorem readNumber_padded {width n : Nat} (hwidth : 0 < width) {rest : List Char}
    (hrest : ∀ c ∈ rest.head?, c.isDigit = false) :
    readNumber ((padded width n).toList ++ rest).length ((padded width n).toList ++ rest)
      = some (n, rest) := by
  have hspells : Spells (padded width n).toList (padded width n).toList.length n :=
    ⟨rfl, isDigit_padded width n, natOfDigits_padded width n⟩
  have hne : (padded width n).toList ≠ [] := by
    intro hnil
    have hlength := congrArg List.length ((toList_padded width n).symm.trans hnil)
    rw [List.length_append, List.length_replicate, List.length_nil] at hlength
    omega
  unfold readNumber
  rw [List.take_length, hspells.takeWhile_eq hrest]
  simp only [List.isEmpty_eq_false_iff.2 hne, Bool.false_eq_true, if_false, hspells.value,
    List.drop_left]

theorem readYear_spells {digits : List Char} {n : Nat} (h : Spells digits 4 n)
    (rest : List Char) : readYear (digits ++ rest) = some ((n : Int), rest) := by
  have hread := h.readNumber (by decide) rest
  unfold readYear
  rw [h.trimLeft_append (by decide)]
  obtain ⟨c, more, hhead, hc⟩ := h.head (by decide)
  rw [hhead, List.cons_append] at hread ⊢
  split
  · next heq =>
      obtain ⟨rfl, -⟩ := List.cons.inj heq
      cases hc
  · next heq =>
      obtain ⟨rfl, -⟩ := List.cons.inj heq
      cases hc
  · rw [hread]
    rfl

/-- A year is read with its sign, if it has one. -/
theorem readYear_yearText (year : Int) {rest : List Char}
    (hrest : ∀ c ∈ rest.head?, c.isDigit = false) :
    readYear ((yearText year).toList ++ rest) = some (year, rest) := by
  unfold yearText
  split
  · next hfour =>
      rw [readYear_spells (spells_padded (by decide) (by omega)), Int.toNat_of_nonneg hfour.1]
  · next hfour =>
      have hread := @readNumber_padded 4 year.natAbs (by decide) rest hrest
      split
      · next hneg =>
          have hchars : ("-" ++ padded 4 year.natAbs).toList ++ rest
              = '-' :: ((padded 4 year.natAbs).toList ++ rest) := by
            rw [String.toList_append]
            rfl
          have hvalue : -(year.natAbs : Int) = year := by omega
          unfold readYear
          rw [hchars, trimLeft_cons (by decide)]
          simp only [hread, Option.map_some, hvalue]
      · next hneg =>
          have hchars : ("+" ++ padded 4 year.natAbs).toList ++ rest
              = '+' :: ((padded 4 year.natAbs).toList ++ rest) := by
            rw [String.toList_append]
            rfl
          have hvalue : (year.natAbs : Int) = year := by omega
          unfold readYear
          rw [hchars, trimLeft_cons (by decide)]
          simp only [hread, Option.map_some, hvalue]

/-- A fraction of so many digits is read in nanoseconds. -/
theorem readFraction_spells {digits : List Char} {width n : Nat} (h : Spells digits width n)
    (hwidth : 0 < width) (hnine : width ≤ 9) {rest : List Char}
    (hrest : ∀ c ∈ rest.head?, c.isDigit = false) :
    readFraction ('.' :: (digits ++ rest)) = some (n * 10 ^ (9 - width), rest) := by
  obtain ⟨c, more, hhead, -⟩ := h.head hwidth
  have htake : digits.take 9 = digits := List.take_of_length_le (by rw [h.length]; exact hnine)
  unfold readFraction
  simp only [h.takeWhile_eq hrest, htake, h.value, h.length]
  rw [if_neg (by simp [hhead])]
  rw [← h.length, List.drop_left]
  rfl

theorem readFraction_fractionText {nanos : Nat} (h : nanos < 10 ^ 9) {c : Char}
    (hpoint : c ≠ '.') (hdigit : c.isDigit = false) (rest : List Char) :
    readFraction ((fractionText nanos).toList ++ c :: rest) = some (nanos, c :: rest) := by
  have hrest : ∀ c' ∈ (c :: rest).head?, c'.isDigit = false := by
    intro c' hc'
    obtain rfl : c = c' := by simpa using hc'
    exact hdigit
  have hgroup : ∀ width m, 0 < width → width ≤ 9 → m < 10 ^ width → m * 10 ^ (9 - width) = nanos →
      readFraction (("." ++ padded width m).toList ++ c :: rest) = some (nanos, c :: rest) := by
    intro width m hwidth hnine hm hnanos
    have hchars : ("." ++ padded width m).toList ++ c :: rest
        = '.' :: ((padded width m).toList ++ c :: rest) := by
      rw [String.toList_append]
      rfl
    rw [hchars, ← hnanos]
    exact readFraction_spells (spells_padded hwidth hm) hwidth hnine hrest
  unfold fractionText
  split
  · next hzero =>
      subst hzero
      show readFraction (c :: rest) = _
      unfold readFraction
      split
      · next heq => exact absurd (List.cons.inj heq).1 hpoint
      · rfl
  · split
    · exact hgroup 3 _ (by decide) (by decide) (by omega) (by omega)
    · split
      · exact hgroup 6 _ (by decide) (by decide) (by omega) (by omega)
      · exact hgroup 9 _ (by decide) (by decide) (by omega) (by omega)

/-! ## Dates and times -/

theorem readDate_spells {date : Date} {month day rest : List Char}
    (hkept : isKeptYear date.year = true)
    (hmonth : Spells month 2 date.month) (hday : Spells day 2 date.day)
    (hdate : Date.InMonth (Date.isLeapYear date.year) date.month date.day) :
    readDate ((yearText date.year).toList ++ '-' :: (month ++ '-' :: (day ++ rest)))
      = some (date, rest) := by
  have hvalid : date.isValid = true := hdate.isValid
  have hmark : ∀ c ∈ ('-' :: (month ++ '-' :: (day ++ rest))).head?, c.isDigit = false := by
    simp
  unfold readDate
  simp only [bind, Option.bind, readYear_yearText date.year hmark,
    readMark_cons (by decide : isBlank '-' = false),
    hmonth.readField (by decide) hdate.month_pos hdate.month_le rfl,
    hday.readField (by decide) hdate.day_pos hdate.day_le_31 rfl]
  simp [hvalid, hkept]

theorem readTime_spells {c : Civil} {hour minute second : List Char}
    (hhour : Spells hour 2 c.hour) (hminute : Spells minute 2 c.minute)
    (hsecond : Spells second 2 c.second) (hh : c.hour ≤ 23) (hm : c.minute ≤ 59)
    (hs : c.second ≤ 60) (hnanos : c.nanos < 10 ^ 9) :
    readTime c.date (hour ++ ':' :: (minute ++ ':' :: (second ++
      ((fractionText c.nanos).toList ++ ['Z'])))) = some (c, ['Z']) := by
  unfold readTime
  simp only [bind, Option.bind, readMark_cons (by decide : isBlank ':' = false),
    hhour.readField (by decide) (Nat.zero_le _) hh rfl,
    hminute.readField (by decide) (Nat.zero_le _) hm rfl,
    hsecond.readField (by decide) (Nat.zero_le _) hs rfl,
    readFraction_fractionText hnanos (by decide : 'Z' ≠ '.') (by decide) []]
  rfl

end Rfc3339

/-! ## Instants -/

/-- A clock shows the instant: seconds have a billion nanoseconds each, but for the last one of
a minute, which may be followed by a leap second. -/
def Instant.Regular (t : Instant) : Prop :=
  t.nanos < 10 ^ 9 ∨ t.nanos < 2 * 10 ^ 9 ∧ t.seconds % 60 = 59

instance (t : Instant) : Decidable t.Regular :=
  inferInstanceAs (Decidable (t.nanos < 10 ^ 9 ∨ t.nanos < 2 * 10 ^ 9 ∧ t.seconds % 60 = 59))

theorem Instant.toInstant_civil {t : Instant} (h : t.Regular) : t.civil.toInstant 0 = t := by
  obtain ⟨-, hnumber⟩ := Date.ofNumber_spec (epochDay + t.seconds / 86400)
  obtain ⟨seconds, nanos⟩ := t
  unfold Instant.Regular at h
  unfold civil Civil.toInstant
  simp only [hnumber] at h ⊢
  rw [Instant.mk.injEq]
  constructor
  · omega
  · omega

/-- What a clock can show. -/
structure Civil.Shown (c : Civil) : Prop where
  date : Date.InMonth (Date.isLeapYear c.date.year) c.date.month c.date.day
  hour_le : c.hour ≤ 23
  minute_le : c.minute ≤ 59
  second_le : c.second ≤ 60
  nanos_lt : c.nanos < 10 ^ 9

theorem Instant.shown_civil {t : Instant} (h : t.Regular) : t.civil.Shown := by
  have hclock : t.civil.hour ≤ 23 ∧ t.civil.minute ≤ 59 ∧ t.civil.second ≤ 60 ∧
      t.civil.nanos < 10 ^ 9 := by
    unfold Instant.Regular at h
    unfold Instant.civil
    simp only
    omega
  exact ⟨(Date.ofNumber_spec _).1, hclock.1, hclock.2.1, hclock.2.2.1, hclock.2.2.2⟩

/-- Instants are kept for the year of this one. -/
def Instant.Kept (t : Instant) : Prop := Rfc3339.isKeptYear t.civil.date.year = true

instance (t : Instant) : Decidable t.Kept :=
  inferInstanceAs (Decidable (Rfc3339.isKeptYear t.civil.date.year = true))

theorem toList_write (t : Instant) :
    (Rfc3339.write t).toList = (Rfc3339.yearText t.civil.date.year).toList ++
      '-' :: ((Rfc3339.padded 2 t.civil.date.month).toList ++
        '-' :: ((Rfc3339.padded 2 t.civil.date.day).toList ++
          'T' :: ((Rfc3339.padded 2 t.civil.hour).toList ++
            ':' :: ((Rfc3339.padded 2 t.civil.minute).toList ++
              ':' :: ((Rfc3339.padded 2 t.civil.second).toList ++
                ((Rfc3339.fractionText t.civil.nanos).toList ++ ['Z'])))))) := by
  unfold Rfc3339.write
  simp

/-- **Time stamps are read back.** -/
theorem read_write {t : Instant} (h : t.Regular) (hkept : t.Kept) :
    Rfc3339.read? (Rfc3339.write t) = some t := by
  have hchars := toList_write t
  have hback := Instant.toInstant_civil h
  have hshown := Instant.shown_civil h
  unfold Instant.Kept at hkept
  generalize hcivil : t.civil = c at *
  have htwo : ∀ n, n < 10 ^ 2 → Rfc3339.Spells (Rfc3339.padded 2 n).toList 2 n :=
    fun n => Rfc3339.spells_padded (by decide)
  have hmonth := hshown.date.month_le
  have hday := hshown.date.day_le_31
  have hhour := hshown.hour_le
  have hminute := hshown.minute_le
  have hsecond := hshown.second_le
  have hdate : ∀ rest, Rfc3339.readDate ((Rfc3339.yearText c.date.year).toList ++
      '-' :: ((Rfc3339.padded 2 c.date.month).toList ++
        '-' :: ((Rfc3339.padded 2 c.date.day).toList ++ rest))) = some (c.date, rest) := fun rest =>
    Rfc3339.readDate_spells hkept (htwo _ (by omega)) (htwo _ (by omega)) hshown.date
  have htime := Rfc3339.readTime_spells (htwo _ (by omega)) (htwo _ (by omega)) (htwo _ (by omega))
    hhour hminute hsecond hshown.nanos_lt
  have hoffset : Rfc3339.readOffset ['Z'] = some (0, []) := by decide
  unfold Rfc3339.read?
  rw [hchars]
  simp only [bind, Option.bind, hdate, true_or, if_true, htime, hoffset, hback, hcivil]
  simp [hkept, trimLeft]

end NodePipeline

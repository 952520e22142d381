import NodePipeline.Proofs.Time.Rfc3339

/-!
# Clocks show time in order

Of two instants the later one has the later date, or the later time on the same date.
Year, month, day, hour, minute, second and microsecond are therefore in the order of
lists, where the first difference decides.
-/

namespace NodePipeline

namespace Date

/-! ## Dates -/

theorem daysBeforeYear_le {year year' : Int} (h : year ≤ year') :
    daysBeforeYear year ≤ daysBeforeYear year' := by
  unfold daysBeforeYear
  omega

/-- The days of a year that have passed when a month begins. -/
def daysBeforeMonth (leap : Bool) (month : Nat) : Nat :=
  ((monthLengths leap).take (month - 1)).sum

theorem number_eq (d : Date) : d.number
    = daysBeforeYear d.year + daysBeforeMonth (isLeapYear d.year) d.month + (d.day : Int) - 1 := by
  unfold number daysBeforeMonth
  simp only [← List.sum_eq_foldl]

section InMonth

variable {leap : Bool} {month month' day : Nat} (h : InMonth leap month day)

include h

/-- A day comes before the months that follow its own. -/
theorem InMonth.day_add_le (hmonth : month < month') (hlast : month' ≤ 13) :
    daysBeforeMonth leap month + day ≤ daysBeforeMonth leap month' := by
  have hnext : ∀ leap : Bool, ∀ k < 12, ((monthLengths leap).take k).sum
      + (monthLengths leap).getD k 0 = ((monthLengths leap).take (k + 1)).sum := by decide
  have hmono : ∀ leap : Bool, ∀ k ≤ 12, ∀ j ≤ k, ((monthLengths leap).take j).sum
      ≤ ((monthLengths leap).take k).sum := by decide
  have hday := h.day_le
  have hlow := h.month_pos
  have hhigh := h.month_le
  have hown := hnext leap (month - 1) (by omega)
  have hlater := hmono leap (month' - 1) (by omega) (month - 1 + 1) (by omega)
  unfold daysBeforeMonth
  omega

theorem InMonth.day_add_le_year :
    daysBeforeMonth leap month + day ≤ if leap then 366 else 365 := by
  have hend := h.day_add_le (by have := h.month_le; omega) (Nat.le_refl 13)
  have hyear : daysBeforeMonth leap 13 = if leap then 366 else 365 := by
    cases leap <;> rfl
  exact hyear ▸ hend

end InMonth

variable {d d' : Date} (h : InMonth (isLeapYear d.year) d.month d.day)
  (h' : InMonth (isLeapYear d'.year) d'.month d'.day)

include h h'

theorem number_lt_of_year_lt (hyear : d.year < d'.year) : d.number < d'.number := by
  have hend := h.day_add_le_year
  have hnext := daysBeforeYear_succ d.year
  have hlater : daysBeforeYear (d.year + 1) ≤ daysBeforeYear d'.year := daysBeforeYear_le hyear
  have hday := h'.day_pos
  rw [number_eq, number_eq]
  split at hend
  · next hleap => rw [if_pos hleap] at hnext; omega
  · next hleap => rw [if_neg hleap] at hnext; omega

theorem number_lt_of_month_lt (hyear : d.year = d'.year) (hmonth : d.month < d'.month) :
    d.number < d'.number := by
  have hend := h.day_add_le hmonth (Nat.le_succ_of_le h'.month_le)
  have hday := h'.day_pos
  rw [number_eq, number_eq, ← hyear]
  omega

/-- The day with the smaller number has the earlier date, whatever the times on them are. -/
theorem parts_lt_of_number_lt (hyear : 0 ≤ d.year) (hnumber : d.number < d'.number)
    (time time' : List Nat) :
    d.year.toNat :: d.month :: d.day :: time < d'.year.toNat :: d'.month :: d'.day :: time' := by
  simp only [List.cons_lt_cons_iff]
  rcases Int.lt_trichotomy d.year d'.year with hlt | heq | hgt
  · exact .inl (by omega)
  · refine .inr ⟨by rw [heq], ?_⟩
    rcases Nat.lt_trichotomy d.month d'.month with hlt | hmonth | hgt
    · exact .inl hlt
    · refine .inr ⟨hmonth, .inl ?_⟩
      rw [number_eq, number_eq, heq, hmonth] at hnumber
      omega
    · have := number_lt_of_month_lt h' h heq.symm hgt
      omega
  · have := number_lt_of_year_lt h' h hgt
    omega

end Date

/-! ## Instants -/

namespace Instant

/-- The whole microseconds since the beginning of 1970. -/
def micros (t : Instant) : Int := t.seconds * 1000000 + (t.nanos / 1000 : Nat)

/-- A clock shows the instant, with a year of four digits. -/
structure FourDigits (t : Instant) : Prop where
  regular : t.Regular
  year_nonneg : 0 ≤ t.civil.date.year
  year_le : t.civil.date.year ≤ 9999

end Instant

/-- Year, month, day, hour, minute, second and microsecond. -/
def Civil.parts (c : Civil) : List Nat :=
  [c.date.year.toNat, c.date.month, c.date.day, c.hour, c.minute, c.second, c.nanos / 1000]

namespace Instant

variable {t t' : Instant}

theorem seconds_of_isBefore (h : t.isBefore t' = true) :
    t.seconds < t'.seconds ∨ t.seconds = t'.seconds ∧ t.nanos < t'.nanos := of_decide_eq_true h

theorem number_civil (t : Instant) : t.civil.date.number = epochDay + t.seconds / 86400 :=
  (Date.ofNumber_spec _).2

/-- On one day a later instant is shown at a later time. A leap second belongs to the last
second of its minute, so that the next minute is later still. -/
theorem clock_lt (h : t.Regular) (hbefore : t.isBefore t' = true) (hmicros : t.micros ≠ t'.micros)
    (hday : t.seconds / 86400 = t'.seconds / 86400) :
    [t.civil.hour, t.civil.minute, t.civil.second, t.civil.nanos / 1000]
      < [t'.civil.hour, t'.civil.minute, t'.civil.second, t'.civil.nanos / 1000] := by
  have hseconds := seconds_of_isBefore hbefore
  unfold Regular at h
  unfold micros at hmicros
  unfold civil
  generalize hs : (t.seconds % 86400).toNat = s
  generalize hs' : (t'.seconds % 86400).toNat = s'
  have hle : s < s' ∨ s = s' ∧ t.nanos / 1000 < t'.nanos / 1000 := by omega
  have hlast : t.nanos < 10 ^ 9 ∨ t.nanos < 2 * 10 ^ 9 ∧ s % 60 = 59 := by omega
  simp only [List.cons_lt_cons_iff, List.not_lt_nil, and_false, or_false]
  omega

/-- **Clocks show time in order.** -/
theorem parts_lt (h : t.FourDigits) (h' : t'.FourDigits) (hbefore : t.isBefore t' = true)
    (hmicros : t.micros ≠ t'.micros) : t.civil.parts < t'.civil.parts := by
  have hseconds := seconds_of_isBefore hbefore
  by_cases hday : t.seconds / 86400 = t'.seconds / 86400
  · have hdate : t.civil.date = t'.civil.date := by
      show Date.ofNumber _ = Date.ofNumber _
      rw [hday]
    have hclock := clock_lt h.regular hbefore hmicros hday
    unfold Civil.parts
    rw [hdate]
    simpa only [List.cons_lt_cons_self] using hclock
  · have hnumber : t.civil.date.number < t'.civil.date.number := by
      rw [number_civil, number_civil]
      omega
    exact Date.parts_lt_of_number_lt (shown_civil h.regular).date (shown_civil h'.regular).date
      h.year_nonneg hnumber _ _

end Instant

end NodePipeline

import Mathlib.Algebra.Order.Ring.Nat
import NodePipeline.Time.Instant

/-!
# Dates and numbers of days

Every day belongs to the date that its number is split into: this date is one that
the calendar has, and counting its days gives the number again.
-/

namespace NodePipeline.Date

/-! ## Years -/

theorem daysBeforeYear_succ (year : Int) :
    daysBeforeYear (year + 1)
      = daysBeforeYear year + (if isLeapYear year then 366 else 365) := by
  unfold daysBeforeYear isLeapYear
  by_cases h : year % 4 = 0 ∧ (year % 100 ≠ 0 ∨ year % 400 = 0)
  · rw [decide_eq_true h, if_pos rfl]
    omega
  · rw [decide_eq_false h, if_neg (by simp)]
    omega

/-- A day lies in its year. -/
theorem yearOf_spec (day : Int) :
    daysBeforeYear (yearOf day) ≤ day ∧ day < daysBeforeYear (yearOf day + 1) := by
  have hguess : daysBeforeYear (400 * day / 146097 - 1) ≤ day ∧
      day < daysBeforeYear (400 * day / 146097 + 2) := by
    unfold daysBeforeYear
    omega
  unfold yearOf
  simp only
  split
  · next h => exact ⟨h, by rw [Int.add_assoc]; exact hguess.2⟩
  · next h =>
      split
      · next h' => exact ⟨h', by omega⟩
      · next h' => exact ⟨hguess.1, by rw [Int.sub_add_cancel]; omega⟩

/-! ## Months -/

/-- A day that the months have comes to lie in one of them. -/
theorem splitMonth_spec {lengths : List Nat} {day : Nat} (h : day < lengths.sum) (first : Nat) :
    ∃ k d, splitMonth lengths first day = (first + k, d) ∧ k < lengths.length ∧
      1 ≤ d ∧ d ≤ lengths.getD k 0 ∧ (lengths.take k).sum + d = day + 1 := by
  induction lengths generalizing day first with
  | nil => simp at h
  | cons length rest ih =>
      unfold splitMonth
      by_cases hday : day < length
      · rw [if_pos hday]
        refine ⟨0, day + 1, rfl, by simp, by omega, ?_, by simp⟩
        show day + 1 ≤ length
        omega
      · rw [if_neg hday]
        have hrest : day - length < rest.sum := by
          rw [List.sum_cons] at h
          omega
        obtain ⟨k, d, hsplit, hk, hlow, hhigh, hsum⟩ := ih hrest (first + 1)
        refine ⟨k + 1, d, ?_, by simpa using hk, hlow, hhigh, ?_⟩
        · rw [hsplit, Nat.add_assoc, Nat.add_comm 1 k]
        · rw [List.take_succ_cons, List.sum_cons]
          omega

theorem sum_monthLengths (leap : Bool) :
    (monthLengths leap).sum = if leap then 366 else 365 := by
  cases leap <;> rfl

/-- A month that the calendar has, with a day in it. -/
structure InMonth (leap : Bool) (month day : Nat) : Prop where
  month_pos : 1 ≤ month
  month_le : month ≤ 12
  day_pos : 1 ≤ day
  day_le : day ≤ (monthLengths leap).getD (month - 1) 0

theorem InMonth.day_le_31 {leap : Bool} {month day : Nat} (h : InMonth leap month day) :
    day ≤ 31 := by
  have hbound : ∀ leap : Bool, ∀ k < 12, (monthLengths leap).getD k 0 ≤ 31 := by decide
  have hk := h.month_le
  exact Nat.le_trans h.day_le (hbound leap _ (by omega))

theorem InMonth.isValid {year : Int} {month day : Nat} (h : InMonth (isLeapYear year) month day) :
    isValid ⟨year, month, day⟩ = true := by
  unfold Date.isValid
  rw [Bool.and_eq_true, decide_eq_true_iff, decide_eq_true_iff]
  exact ⟨⟨h.month_pos, h.day_pos⟩, h.day_le⟩

/-- **Dates of days.** The date of a day is one that the calendar has, and its number is that
of the day. -/
theorem ofNumber_spec (day : Int) :
    InMonth (isLeapYear (ofNumber day).year) (ofNumber day).month (ofNumber day).day ∧
      (ofNumber day).number = day := by
  obtain ⟨hlow, hhigh⟩ := yearOf_spec day
  have hyear : (ofNumber day).year = yearOf day := rfl
  generalize hleap : isLeapYear (yearOf day) = leap at *
  rw [daysBeforeYear_succ, hleap] at hhigh
  have hin : (day - daysBeforeYear (yearOf day)).toNat < (monthLengths leap).sum := by
    rw [sum_monthLengths]
    cases leap <;> simp only [if_true, Bool.false_eq_true, if_false] at hhigh ⊢ <;> omega
  obtain ⟨k, d, hsplit, hk, hd, hdle, hsum⟩ := splitMonth_spec hin 1
  have hk' : k < 12 := by
    cases leap <;> exact hk
  have hdate : ofNumber day = ⟨yearOf day, 1 + k, d⟩ := by
    unfold ofNumber
    simp only [hleap, hsplit]
  rw [hdate]
  simp only [hleap]
  refine ⟨⟨by omega, by show 1 + k ≤ 12; omega, hd, ?_⟩, ?_⟩
  · rw [Nat.add_sub_cancel_left]
    exact hdle
  · unfold number
    simp only [hleap]
    rw [Nat.add_sub_cancel_left, ← List.sum_eq_foldl]
    omega

end NodePipeline.Date

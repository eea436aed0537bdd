/-
# RestCase.Proofs.Clock.Calendar — the calendar, there and back

A day is named by its year, its month and the day of the month.  The year is guessed from the mean
length of a year, and the guess is off by one at most (`year_near`, `year_spec`); within a year the
months are taken off one after the other (`monthAndDay_spec`).  Both ways the numbers are those by
which the day is found again (`dayOf?_date`).
-/
import Mathlib.Algebra.Ring.Nat
import RestCase.Clock

namespace RestCase.Instant

/-! ## Years -/

/-- The year of a day that is counted from the beginning of the year 1, as `Instant.date` computes
it. -/
def yearOf (n : Int) : Int :=
  let near := (400 * n) / 146097 + 1
  if n < daysOfYears near then near - 1
  else if daysOfYears (near + 1) ≤ n then near + 1 else near

/-- The guess is off by one at most: four hundred years have 146097 days. -/
theorem year_near (n : Int) :
    daysOfYears ((400 * n) / 146097 + 1 - 1) ≤ n ∧
      n < daysOfYears ((400 * n) / 146097 + 1 + 1 + 1) := by
  simp only [daysOfYears]
  omega

/-- **A day lies between the beginnings of its year and of the next one** (`yearOf`,
`daysOfYears`). -/
theorem year_spec (n : Int) : daysOfYears (yearOf n) ≤ n ∧ n < daysOfYears (yearOf n + 1) := by
  obtain ⟨hlow, hhigh⟩ := year_near n
  unfold yearOf
  simp only
  split
  · next hbefore =>
    refine ⟨hlow, ?_⟩
    rwa [Int.sub_add_cancel]
  · next hbefore =>
    split
    · next hafter => exact ⟨hafter, hhigh⟩
    · next hafter => exact ⟨Int.not_lt.1 hbefore, Int.not_le.1 hafter⟩

/-- The day of the year, counted from zero. -/
def dayOfYear (n : Int) : Nat := (n - daysOfYears (yearOf n)).toNat

theorem daysOfYears_add_dayOfYear (n : Int) : daysOfYears (yearOf n) + dayOfYear n = n := by
  have h := (year_spec n).1
  unfold dayOfYear
  omega

theorem sum_monthLengths (leap : Bool) :
    (monthLengths leap).sum = if leap then 366 else 365 := by
  cases leap <;> rfl

theorem dayOfYear_lt (n : Int) : dayOfYear n < (monthLengths (isLeap (yearOf n))).sum := by
  have h := (year_spec n).2
  have hnext := daysOfYears_succ (yearOf n)
  have hsplit := daysOfYears_add_dayOfYear n
  rw [sum_monthLengths]
  split at hnext <;> simp_all <;> omega

/-! ## Months -/

/-- **A day of a year lies within its month** (`monthAndDay`): behind the months before it, and
before the end. -/
theorem monthAndDay_spec {lengths : List Nat} {n : Nat} (h : n < lengths.sum) (first : Nat) :
    ∃ i day length, monthAndDay first n lengths = (first + i, day + 1) ∧
      lengths[i]? = some length ∧ day < length ∧ n = (lengths.take i).sum + day := by
  induction lengths generalizing n first with
  | nil => exact absurd h (Nat.not_lt_zero n)
  | cons length lengths ih =>
    rw [monthAndDay]
    split
    · next hfirst => exact ⟨0, n, length, rfl, rfl, hfirst, by simp⟩
    · next hlater =>
      rw [List.sum_cons] at h
      have hrest : n - length < lengths.sum := by omega
      obtain ⟨i, day, l, hdate, hl, hday, hn⟩ := ih hrest (first + 1)
      refine ⟨i + 1, day, l, ?_, hl, hday, ?_⟩
      · rw [hdate, Nat.add_assoc, Nat.add_comm 1 i]
      · rw [List.take_succ_cons, List.sum_cons]
        omega

theorem monthLengths_le (leap : Bool) : ∀ l ∈ monthLengths leap, l ≤ 31 := by
  cases leap <;> decide

/-! ## Dates -/

/-- The date of a day, its parts by their names. -/
theorem date_eq (t : Instant) :
    t.date = (yearOf (t.day + epochOffset),
      monthAndDay 1 (dayOfYear (t.day + epochOffset))
        (monthLengths (isLeap (yearOf (t.day + epochOffset))))) := rfl

/-- The month and the day of the month, as the parts of the year (`monthAndDay_spec`) give them. -/
theorem date_spec (t : Instant) :
    ∃ i day length, t.date = (yearOf (t.day + epochOffset), 1 + i, day + 1) ∧
      (monthLengths (isLeap (yearOf (t.day + epochOffset))))[i]? = some length ∧ day < length ∧
      dayOfYear (t.day + epochOffset) =
        ((monthLengths (isLeap (yearOf (t.day + epochOffset)))).take i).sum + day := by
  obtain ⟨i, day, length, hdate, hlength, hday, hn⟩ :=
    monthAndDay_spec (dayOfYear_lt (t.day + epochOffset)) 1
  exact ⟨i, day, length, by rw [date_eq, hdate], hlength, hday, hn⟩

/-- The numbers of a date are within the bounds of all months. -/
theorem date_bounds (t : Instant) :
    (1 ≤ t.date.2.1 ∧ t.date.2.1 ≤ 12) ∧ 1 ≤ t.date.2.2 ∧ t.date.2.2 ≤ 31 := by
  obtain ⟨i, day, length, hdate, hlength, hday, -⟩ := date_spec t
  have hmonth := (List.getElem?_eq_some_iff.1 hlength).1
  have htwelve : (monthLengths (isLeap (yearOf (t.day + epochOffset)))).length = 12 := rfl
  have hle := monthLengths_le _ length (List.mem_of_getElem? hlength)
  rw [hdate]
  simp only
  omega

/-- **The day that a date names is the day that has the date**: `dayOf?` undoes `date`. -/
theorem dayOf?_date (t : Instant) : dayOf? t.date.1 t.date.2.1 t.date.2.2 = some t.day := by
  obtain ⟨i, day, length, hdate, hlength, hday, hn⟩ := date_spec t
  have hsplit := daysOfYears_add_dayOfYear (t.day + epochOffset)
  have hindex : 1 + i - 1 = i := by omega
  have hbounds : 1 ≤ 1 + i ∧ 1 ≤ day + 1 ∧ day + 1 ≤ length := by omega
  rw [hdate]
  simp only [dayOf?, hindex, hlength, hbounds, and_self, if_true, ← List.sum_eq_foldl]
  congr 1
  omega

end RestCase.Instant

/-
Steps of whole months: a month has an index, a step moves it by a fixed number, and the day is cut to
the length of the month it lands in. Of several steps each is cut from the one before
(`MonthsLater.step`), so that the shortest month on the way has its day kept (`MonthsLater.day`).
-/
import Mathlib.Order.Bounds.Basic
import Prosepect.Data.Time

namespace Time

/-- The months counted from the year 0. -/
def monthIndex (c : Civil) : Int := 12 * c.year + (c.month - 1)

/-- The number of days of a month, by its index. -/
def monthLength (m : Int) : Int := daysInMonth (m / 12) (m % 12 + 1)

/-- The month and the day of an instant. -/
def monthOf (t : DateTime) : Int := monthIndex (civil (dateNaive t))

def dayOf (t : DateTime) : Int := (civil (dateNaive t)).day

theorem dateNaive_of_day (d t : Int) : dateNaive (midnight d + t % usPerDay) = d := by
  show (d * 86400000000 + t % 86400000000) / 86400000000 = d
  omega

theorem time_of_day (d t : Int) : (midnight d + t % usPerDay) % usPerDay = t % usPerDay := by
  show (d * 86400000000 + t % 86400000000) % 86400000000 = t % 86400000000
  omega

/-- One step: the month is moved, the day cut to its length, and the time of day kept. -/
theorem checkedAddMonths_ok {t u : DateTime} {k : Nat} (h : checkedAddMonths t k = some u) :
    monthOf u = monthOf t + k ∧ dayOf u = min (dayOf t) (monthLength (monthOf u)) ∧ u % usPerDay = t % usPerDay := by
  obtain ⟨⟨hm0, hm1⟩, -⟩ := civil_bounds (dateNaive t)
  have hindex : monthOf t = 12 * (civil (dateNaive t)).year + ((civil (dateNaive t)).month - 1) := rfl
  have hday : dayOf t = (civil (dateNaive t)).day := rfl
  unfold checkedAddMonths at h
  simp only at h
  generalize civil (dateNaive t) = c at *
  split at h
  · rename_i hvalid
    cases h
    have hback : civil (dateNaive (midnight (daysOf
        ⟨c.year + (c.month - 1 + k) / 12, (c.month - 1 + k) % 12 + 1,
          min c.day (daysInMonth (c.year + (c.month - 1 + k) / 12) ((c.month - 1 + k) % 12 + 1))⟩) + t % usPerDay)) =
        ⟨c.year + (c.month - 1 + k) / 12, (c.month - 1 + k) % 12 + 1,
          min c.day (daysInMonth (c.year + (c.month - 1 + k) / 12) ((c.month - 1 + k) % 12 + 1))⟩ := by
      rw [dateNaive_of_day]
      unfold Civil.valid at hvalid
      simp only [Bool.and_eq_true, beq_iff_eq] at hvalid
      exact hvalid.1.1
    have hmonth : monthOf (midnight (daysOf
        ⟨c.year + (c.month - 1 + k) / 12, (c.month - 1 + k) % 12 + 1,
          min c.day (daysInMonth (c.year + (c.month - 1 + k) / 12) ((c.month - 1 + k) % 12 + 1))⟩) + t % usPerDay) =
        monthOf t + k := by
      show monthIndex (civil _) = _
      rw [hback, hindex]
      unfold monthIndex
      simp only
      omega
    refine ⟨hmonth, ?_, ?_⟩
    · rw [hmonth, hindex, hday]
      unfold dayOf monthLength
      rw [hback]
      simp only
      have hyear : (12 * c.year + (c.month - 1) + k) / 12 = c.year + (c.month - 1 + k) / 12 := by omega
      have hmod : (12 * c.year + (c.month - 1) + k) % 12 = (c.month - 1 + k) % 12 := by omega
      rw [hyear, hmod]
    · exact time_of_day _ t
  · cases h

/-- `u` comes `n` steps of `k` months after `t`. -/
structure MonthsLater (k : Nat) (t : DateTime) (n : Nat) (u : DateTime) : Prop where
  time : u % usPerDay = t % usPerDay
  month : monthOf u = monthOf t + n * k
  /-- The least of the day of `t` and of the lengths of the months on the way. -/
  day : IsLeast {x | x = dayOf t ∨ ∃ i : Nat, 1 ≤ i ∧ i ≤ n ∧ x = monthLength (monthOf t + i * k)} (dayOf u)

theorem MonthsLater.zero (k : Nat) (t : DateTime) : MonthsLater k t 0 t := by
  refine ⟨rfl, by simp, .inl rfl, ?_⟩
  rintro x (rfl | ⟨i, h0, h1, -⟩)
  · exact le_rfl
  · omega

theorem MonthsLater.step {k n : Nat} {t u v : DateTime} (h : MonthsLater k t n u) (hs : checkedAddMonths u k = some v) :
    MonthsLater k t (n + 1) v := by
  obtain ⟨hmonth, hday, htime⟩ := checkedAddMonths_ok hs
  have hv : monthOf v = monthOf t + ((n + 1 : Nat) : Int) * k := by
    rw [hmonth, h.month, Nat.cast_succ, add_one_mul, add_assoc]
  refine ⟨htime.trans h.time, hv, ?_, ?_⟩
  · -- the day is that of `u`, or the length of the month of `v`
    rw [hday]
    rcases min_choice (dayOf u) (monthLength (monthOf v)) with hm | hm
    · rw [hm]
      rcases h.day.1 with hd | ⟨i, h0, h1, hd⟩
      · exact .inl hd
      · exact .inr ⟨i, h0, Nat.le_succ_of_le h1, hd⟩
    · exact .inr ⟨n + 1, Nat.le_add_left _ _, le_rfl, by rw [hm, hv]⟩
  · rintro x (rfl | ⟨i, h0, h1, rfl⟩)
    · rw [hday]
      exact (min_le_left _ _).trans (h.day.2 (.inl rfl))
    · rw [hday]
      rcases Nat.lt_or_eq_of_le h1 with hi | rfl
      · exact (min_le_left _ _).trans (h.day.2 (.inr ⟨i, h0, Nat.lt_succ_iff.1 hi, rfl⟩))
      · rw [← hv]
        exact min_le_right _ _

end Time

import Mathlib.Data.Nat.Basic
import Mathlib.Order.Monotone.Basic

/-! Months and days of the proleptic Gregorian calendar, numbered from the first day of year 1. -/

namespace Calendar

def IsLeap (year : ℕ) : Prop := year % 4 = 0 ∧ (year % 100 ≠ 0 ∨ year % 400 = 0)

instance (year : ℕ) : Decidable (IsLeap year) := by
  unfold IsLeap
  infer_instance

def daysInMonth (year month : ℕ) : ℕ :=
  if month = 2 then if IsLeap year then 29 else 28
  else if month = 4 ∨ month = 6 ∨ month = 9 ∨ month = 11 then 30 else 31

def daysBeforeYear (year : ℕ) : ℕ :=
  (year - 1) * 365 + ((year - 1) / 4 - (year - 1) / 100 + (year - 1) / 400)

def daysBeforeMonth (year : ℕ) : ℕ → ℕ
  | 0 | 1 => 0
  | month + 2 => daysBeforeMonth year (month + 1) + daysInMonth year (month + 1)

structure YearMonth where
  year : ℕ
  month : ℕ
  year_pos : 1 ≤ year
  month_pos : 1 ≤ month
  month_le : month ≤ 12
  deriving DecidableEq

structure Date extends YearMonth where
  day : ℕ
  day_pos : 1 ≤ day
  day_le : day ≤ daysInMonth year month
  deriving DecidableEq

theorem daysBeforeMonth_succ (year : ℕ) {month : ℕ} (h : 1 ≤ month) :
    daysBeforeMonth year (month + 1) = daysBeforeMonth year month + daysInMonth year month := by
  obtain ⟨k, rfl⟩ := Nat.exists_eq_add_of_le' h
  rw [daysBeforeMonth]

theorem daysBeforeMonth_mono (year : ℕ) : Monotone (daysBeforeMonth year) := by
  refine monotone_nat_of_le_succ fun month => ?_
  rcases Nat.eq_zero_or_pos month with rfl | h
  · exact le_rfl
  · rw [daysBeforeMonth_succ year h]
    exact Nat.le_add_right _ _

theorem daysBeforeMonth_thirteen (year : ℕ) :
    daysBeforeMonth year 13 = 365 + if IsLeap year then 1 else 0 := by
  by_cases hleap : IsLeap year <;> simp [daysBeforeMonth, daysInMonth, hleap]

theorem isLeap_iff {year : ℕ} : IsLeap year ↔ 4 ∣ year ∧ (¬ 100 ∣ year ∨ 400 ∣ year) := by
  simp only [IsLeap, Nat.dvd_iff_mod_eq_zero, ne_eq]

theorem leapDays_succ (n : ℕ) : (n + 1) / 4 - (n + 1) / 100 + (n + 1) / 400 =
    n / 4 - n / 100 + n / 400 + if IsLeap (n + 1) then 1 else 0 := by
  have hle : n / 100 ≤ n / 4 := Nat.div_le_div_left (by decide) (by decide)
  rw [Nat.succ_div, Nat.succ_div, Nat.succ_div]
  by_cases h4 : 4 ∣ n + 1
  · by_cases h100 : 100 ∣ n + 1
    · by_cases h400 : 400 ∣ n + 1
      · rw [if_pos h4, if_pos h100, if_pos h400, if_pos (isLeap_iff.mpr ⟨h4, .inr h400⟩)]
        omega
      · rw [if_pos h4, if_pos h100, if_neg h400,
          if_neg (fun h => (isLeap_iff.mp h).2.elim (absurd h100) h400)]
        omega
    · have h400 : ¬ 400 ∣ n + 1 := fun h => h100 (Nat.dvd_trans (by decide) h)
      rw [if_pos h4, if_neg h100, if_neg h400, if_pos (isLeap_iff.mpr ⟨h4, .inl h100⟩)]
      omega
  · have h100 : ¬ 100 ∣ n + 1 := fun h => h4 (Nat.dvd_trans (by decide) h)
    have h400 : ¬ 400 ∣ n + 1 := fun h => h4 (Nat.dvd_trans (by decide) h)
    rw [if_neg h4, if_neg h100, if_neg h400, if_neg (fun h => h4 (isLeap_iff.mp h).1)]
    omega

theorem daysBeforeYear_succ {year : ℕ} (h : 1 ≤ year) :
    daysBeforeYear (year + 1) = daysBeforeYear year + daysBeforeMonth year 13 := by
  obtain ⟨n, rfl⟩ := Nat.exists_eq_add_of_le' h
  have hleap := leapDays_succ n
  rw [daysBeforeMonth_thirteen, daysBeforeYear, daysBeforeYear, Nat.add_sub_cancel,
    Nat.add_sub_cancel]
  omega

theorem daysBeforeYear_mono {year year' : ℕ} (h : 1 ≤ year) (hle : year ≤ year') :
    daysBeforeYear year ≤ daysBeforeYear year' := by
  induction year', hle using Nat.le_induction with
  | base => exact le_rfl
  | succ year' hle ih =>
    rw [daysBeforeYear_succ (h.trans hle)]
    exact ih.trans (Nat.le_add_right _ _)

namespace YearMonth

def firstDay (m : YearMonth) : ℕ := daysBeforeYear m.year + daysBeforeMonth m.year m.month + 1

def length (m : YearMonth) : ℕ := daysInMonth m.year m.month

def Precedes (m n : YearMonth) : Prop := m.year < n.year ∨ m.year = n.year ∧ m.month < n.month

theorem precedes_or_eq_or_precedes (m n : YearMonth) : m.Precedes n ∨ m = n ∨ n.Precedes m := by
  unfold Precedes
  rcases lt_trichotomy m.year n.year with hyear | hyear | hyear
  · exact .inl (.inl hyear)
  · rcases lt_trichotomy m.month n.month with hmonth | hmonth | hmonth
    · exact .inl (.inr ⟨hyear, hmonth⟩)
    · cases m
      cases n
      cases hyear
      cases hmonth
      exact .inr (.inl rfl)
    · exact .inr (.inr (.inr ⟨hyear.symm, hmonth⟩))
  · exact .inr (.inr (.inl hyear))

theorem Precedes.firstDay_add_length_le {m n : YearMonth} (h : m.Precedes n) :
    m.firstDay + m.length ≤ n.firstDay := by
  have hnext := daysBeforeMonth_succ m.year m.month_pos
  unfold firstDay length
  rcases h with hyear | ⟨hyear, hmonth⟩
  · have hmonth : m.month + 1 ≤ 13 := Nat.succ_le_succ m.month_le
    have hyear' : m.year + 1 ≤ n.year := hyear
    have hmonths := daysBeforeMonth_mono m.year hmonth
    have hyears := daysBeforeYear_mono (Nat.le_add_left 1 m.year) hyear'
    rw [daysBeforeYear_succ m.year_pos] at hyears
    omega
  · have hmonth' : m.month + 1 ≤ n.month := hmonth
    have hmonths := daysBeforeMonth_mono m.year hmonth'
    rw [← hyear]
    omega

end YearMonth

namespace Date

def ordinal (d : Date) : ℕ := daysBeforeYear d.year + daysBeforeMonth d.year d.month + d.day

theorem firstDay_le (d : Date) : d.toYearMonth.firstDay ≤ d.ordinal :=
  Nat.add_le_add_left d.day_pos _

theorem ordinal_lt (d : Date) : d.ordinal < d.toYearMonth.firstDay + d.toYearMonth.length := by
  have hday := d.day_le
  unfold ordinal YearMonth.firstDay YearMonth.length
  omega

def Precedes (d e : Date) : Prop :=
  d.toYearMonth.Precedes e.toYearMonth ∨ d.toYearMonth = e.toYearMonth ∧ d.day < e.day

theorem precedes_or_eq_or_precedes (d e : Date) : d.Precedes e ∨ d = e ∨ e.Precedes d := by
  unfold Precedes
  rcases d.toYearMonth.precedes_or_eq_or_precedes e.toYearMonth with hmonth | hmonth | hmonth
  · exact .inl (.inl hmonth)
  · rcases lt_trichotomy d.day e.day with hday | hday | hday
    · exact .inl (.inr ⟨hmonth, hday⟩)
    · cases d
      cases e
      cases hmonth
      cases hday
      exact .inr (.inl rfl)
    · exact .inr (.inr (.inr ⟨hmonth.symm, hday⟩))
  · exact .inr (.inr (.inl hmonth))

theorem Precedes.ordinal_lt {d e : Date} (h : d.Precedes e) : d.ordinal < e.ordinal := by
  rcases h with hmonth | ⟨hmonth, hday⟩
  · exact (d.ordinal_lt.trans_le hmonth.firstDay_add_length_le).trans_le e.firstDay_le
  · rw [YearMonth.mk.injEq] at hmonth
    unfold ordinal
    rw [hmonth.1, hmonth.2]
    exact Nat.add_lt_add_left hday _

end Date
end Calendar

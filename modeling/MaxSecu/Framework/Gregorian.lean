import Mathlib.Tactic
import Mathlib.Data.Prod.Lex

/-!
# The proleptic Gregorian calendar

Dates from the year 0 on, counted in days from the first one.  A date is less than another in the order
of its fields exactly when its count is (`Date.number_lt_number`), so a count has one date.

A year may also be counted from the first of March, which puts the leap day at its end:
`daysBeforeYear_march` and `daysBeforeMonth_march` say how such counts become dates.
-/

namespace Gregorian

def IsLeap (y : ℕ) : Prop := y % 4 = 0 ∧ (y % 100 ≠ 0 ∨ y % 400 = 0)

instance (y : ℕ) : Decidable (IsLeap y) := inferInstanceAs (Decidable (_ ∧ _))

def daysInYear (y : ℕ) : ℕ := if IsLeap y then 366 else 365

def daysInMonth (y m : ℕ) : ℕ :=
  if m = 2 then (if IsLeap y then 29 else 28)
  else if m = 4 ∨ m = 6 ∨ m = 9 ∨ m = 11 then 30
  else 31

def daysBeforeYear : ℕ → ℕ
  | 0 => 0
  | y + 1 => daysBeforeYear y + daysInYear y

def daysBeforeMonth (y : ℕ) : ℕ → ℕ
  | 0 => 0
  | 1 => 0
  | m + 2 => daysBeforeMonth y (m + 1) + daysInMonth y (m + 1)

/-- A date of the calendar. -/
@[ext]
structure Date where
  year : ℕ
  month : ℕ
  day : ℕ
  month_pos : 1 ≤ month
  month_le : month ≤ 12
  day_pos : 1 ≤ day
  day_le : day ≤ daysInMonth year month

/-- The days before a date, from the first day of the year 0. -/
def Date.number (date : Date) : ℕ :=
  daysBeforeYear date.year + daysBeforeMonth date.year date.month + (date.day - 1)

/-- Dates are ordered by year, month and day. -/
def Date.key (date : Date) : ℕ ×ₗ ℕ ×ₗ ℕ := toLex (date.year, toLex (date.month, date.day))

variable {y m n : ℕ} {date date' : Date}

/-! ## Counting is in order -/

lemma daysBeforeYear_mono (h : y ≤ n) : daysBeforeYear y ≤ daysBeforeYear n := by
  induction n, h using Nat.le_induction with
  | base => rfl
  | succ n _ ih => exact ih.trans (Nat.le_add_right _ _)

lemma daysBeforeMonth_mono (h : m ≤ n) : daysBeforeMonth y m ≤ daysBeforeMonth y n := by
  induction n, h using Nat.le_induction with
  | base => rfl
  | succ n _ ih =>
    refine ih.trans ?_
    cases n with
    | zero => rfl
    | succ n => exact Nat.le_add_right _ _

lemma daysBeforeMonth_thirteen (y : ℕ) : daysBeforeMonth y 13 = daysInYear y := by
  unfold daysInYear
  by_cases hleap : IsLeap y
  · simp [daysBeforeMonth, daysInMonth, hleap]
  · simp [daysBeforeMonth, daysInMonth, hleap]

lemma Date.daysBeforeMonth_lt (date : Date) : daysBeforeMonth date.year date.month +
    (date.day - 1) < daysBeforeMonth date.year (date.month + 1) := by
  obtain ⟨k, hk⟩ := Nat.exists_eq_add_of_le' date.month_pos
  have hnext : daysBeforeMonth date.year (date.month + 1) =
      daysBeforeMonth date.year date.month + daysInMonth date.year date.month := by
    rw [hk]
    rfl
  have hpos := date.day_pos
  have hle := date.day_le
  omega

lemma Date.daysBeforeYear_le (date : Date) : daysBeforeYear date.year ≤ date.number := by
  unfold Date.number
  omega

lemma Date.number_lt_daysBeforeYear (date : Date) :
    date.number < daysBeforeYear (date.year + 1) := by
  have hmonth := date.daysBeforeMonth_lt
  have hyear : daysBeforeMonth date.year (date.month + 1) ≤ daysInYear date.year := by
    rw [← daysBeforeMonth_thirteen]
    exact daysBeforeMonth_mono (Nat.succ_le_succ date.month_le)
  show daysBeforeYear date.year + daysBeforeMonth date.year date.month + (date.day - 1) <
    daysBeforeYear date.year + daysInYear date.year
  omega

lemma Date.number_lt_of_key_lt (h : date.key < date'.key) : date.number < date'.number := by
  rcases Prod.Lex.toLex_lt_toLex.mp h with hyear | ⟨hyear, hrest⟩
  · calc date.number < daysBeforeYear (date.year + 1) := date.number_lt_daysBeforeYear
      _ ≤ daysBeforeYear date'.year := daysBeforeYear_mono hyear
      _ ≤ date'.number := date'.daysBeforeYear_le
  · have hyear : date.year = date'.year := hyear
    unfold Date.number
    rw [hyear]
    rcases Prod.Lex.toLex_lt_toLex.mp hrest with hmonth | ⟨hmonth, hday⟩
    · have hin := date.daysBeforeMonth_lt
      have hle : daysBeforeMonth date'.year (date.month + 1) ≤
          daysBeforeMonth date'.year date'.month := daysBeforeMonth_mono hmonth
      rw [hyear] at hin
      omega
    · have hmonth : date.month = date'.month := hmonth
      have hday : date.day < date'.day := hday
      have hpos := date.day_pos
      rw [hmonth]
      omega

lemma Date.key_inj (h : date.key = date'.key) : date = date' := by
  have hfields := Prod.mk.inj (toLex_inj.mp h)
  have hrest := Prod.mk.inj (toLex_inj.mp hfields.2)
  exact Date.ext hfields.1 hrest.1 hrest.2

/-- The order of dates is the order of their counts. -/
theorem Date.number_lt_number : date.number < date'.number ↔ date.key < date'.key := by
  constructor
  · intro hnumber
    rcases lt_trichotomy date.key date'.key with hlt | heq | hgt
    · exact hlt
    · rw [Date.key_inj heq] at hnumber
      exact absurd hnumber (lt_irrefl _)
    · exact absurd hnumber (Date.number_lt_of_key_lt hgt).not_gt
  · exact Date.number_lt_of_key_lt

lemma Date.number_inj (h : date.number = date'.number) : date = date' := by
  rcases lt_trichotomy date.key date'.key with hlt | heq | hgt
  · exact absurd h (Date.number_lt_of_key_lt hlt).ne
  · exact Date.key_inj heq
  · exact absurd h (Date.number_lt_of_key_lt hgt).ne'

/-! ## Times of a day -/

/-- A second of a day.  There are no leap seconds. -/
@[ext]
structure Time where
  date : Date
  hour : ℕ
  minute : ℕ
  second : ℕ
  hour_lt : hour < 24
  minute_lt : minute < 60
  second_lt : second < 60

/-- The seconds before a time, from the beginning of the year 0. -/
def Time.seconds (time : Time) : ℕ :=
  86400 * time.date.number + 3600 * time.hour + 60 * time.minute + time.second

/-- The earlier of two times is the less one in the first field in which they differ. -/
lemma Time.lt_cases {time time' : Time} (h : time.seconds < time'.seconds) :
    time.date.key < time'.date.key ∨ time.date = time'.date ∧ (time.hour < time'.hour ∨
      time.hour = time'.hour ∧ (time.minute < time'.minute ∨
        time.minute = time'.minute ∧ time.second < time'.second)) := by
  unfold Time.seconds at h
  have hhour := time.hour_lt
  have hminute := time.minute_lt
  have hsecond := time.second_lt
  have hhour' := time'.hour_lt
  have hminute' := time'.minute_lt
  have hsecond' := time'.second_lt
  by_cases hdate : time.date.number < time'.date.number
  · exact .inl (Date.number_lt_number.mp hdate)
  · have hnumber : time.date.number = time'.date.number := by omega
    refine .inr ⟨Date.number_inj hnumber, ?_⟩
    omega

/-! ## Years that begin in March -/

/-- The multiples of 4, 100 and 400 below the next number. -/
lemma multiples_succ (y : ℕ) : (y + 4) / 4 = (y + 3) / 4 + (if y % 4 = 0 then 1 else 0) ∧
    (y + 100) / 100 = (y + 99) / 100 + (if y % 100 = 0 then 1 else 0) ∧
    (y + 400) / 400 = (y + 399) / 400 + (if y % 400 = 0 then 1 else 0) := by
  refine ⟨?_, ?_, ?_⟩
  · split <;> omega
  · split <;> omega
  · split <;> omega

/-- A year is as long as the multiples say. -/
lemma daysInYear_eq (y : ℕ) : daysInYear y + (if y % 100 = 0 then 1 else 0) =
    365 + (if y % 4 = 0 then 1 else 0) + (if y % 400 = 0 then 1 else 0) := by
  unfold daysInYear
  by_cases hleap : IsLeap y
  · rw [if_pos hleap]
    unfold IsLeap at hleap
    split_ifs <;> omega
  · rw [if_neg hleap]
    unfold IsLeap at hleap
    split_ifs <;> omega

/-- The years before a year, by its leap years. -/
lemma daysBeforeYear_eq (y : ℕ) :
    daysBeforeYear y + (y + 99) / 100 = 365 * y + (y + 3) / 4 + (y + 399) / 400 := by
  induction y with
  | zero => rfl
  | succ y ih =>
    obtain ⟨hfour, hhundred, hfourHundred⟩ := multiples_succ y
    have hyear := daysInYear_eq y
    have hnext : daysBeforeYear (y + 1) = daysBeforeYear y + daysInYear y := rfl
    rw [show y + 1 + 99 = y + 100 by omega, show y + 1 + 3 = y + 4 by omega,
      show y + 1 + 399 = y + 400 by omega, hfour, hhundred, hfourHundred, hnext]
    generalize (y + 3) / 4 = fours at *
    generalize (y + 99) / 100 = hundreds at *
    generalize (y + 399) / 400 = fourHundreds at *
    omega

/-- The first of March, counted from the one of the year 0. -/
def marchStart (y : ℕ) : ℕ := 365 * y + y / 4 + y / 400 - y / 100

lemma marchStart_add (y : ℕ) : marchStart y + y / 100 = 365 * y + y / 4 + y / 400 := by
  unfold marchStart
  omega

/-- The first of March, counted from the first of January before. -/
lemma daysBeforeYear_march (y : ℕ) : daysBeforeYear (y + 1) = marchStart y + 366 := by
  have hbefore := daysBeforeYear_eq (y + 1)
  have hmarch := marchStart_add y
  have hfour : (y + 1 + 3) / 4 = y / 4 + 1 := by omega
  have hhundred : (y + 1 + 99) / 100 = y / 100 + 1 := by omega
  have hfourHundred : (y + 1 + 399) / 400 = y / 400 + 1 := by omega
  rw [hfour, hhundred, hfourHundred] at hbefore
  generalize y / 4 = fours at *
  generalize y / 100 = hundreds at *
  generalize y / 400 = fourHundreds at *
  omega

/-- From March on, the months before do not depend on the year but by its leap day. -/
lemma daysBeforeMonth_march {k : ℕ} (hk : k < 10) :
    daysBeforeMonth y (k + 3) + 365 = daysInYear y + 59 + (153 * k + 2) / 5 := by
  unfold daysInYear
  by_cases hleap : IsLeap y
  · rw [if_pos hleap]
    interval_cases k <;> simp [daysBeforeMonth, daysInMonth, hleap]
  · rw [if_neg hleap]
    interval_cases k <;> simp [daysBeforeMonth, daysInMonth, hleap]

/-- The month of a day, by a division: the months from March on come in fives of 153 days. -/
def marchMonth (doy : ℕ) : ℕ := (5 * doy + 2) / 153

/-- A day from March to December. -/
lemma exists_date_early {doy : ℕ} (hmonth : marchMonth doy < 10) :
    ∃ date : Date, date.number = marchStart y + doy + 60 ∧ date.year = y ∧
      date.month = marchMonth doy + 3 ∧ date.day + (153 * marchMonth doy + 2) / 5 = doy + 1 := by
  have hlow : 153 * marchMonth doy ≤ 5 * doy + 2 := by
    unfold marchMonth
    omega
  have hhigh : 5 * doy + 2 < 153 * (marchMonth doy + 1) := by
    unfold marchMonth
    omega
  have hbefore := @daysBeforeMonth_march y _ hmonth
  have hmarch := daysBeforeYear_march y
  have hnext : daysBeforeYear (y + 1) = daysBeforeYear y + daysInYear y := rfl
  have hday : doy + 1 - (153 * marchMonth doy + 2) / 5 ≤ daysInMonth y (marchMonth doy + 3) := by
    unfold daysInMonth
    generalize marchMonth doy = mp at *
    interval_cases mp <;> simp <;> omega
  refine ⟨⟨y, marchMonth doy + 3, doy + 1 - (153 * marchMonth doy + 2) / 5, by omega, by omega,
    by omega, hday⟩, ?_, rfl, rfl, ?_⟩
  · show daysBeforeYear y + daysBeforeMonth y (marchMonth doy + 3) +
      (doy + 1 - (153 * marchMonth doy + 2) / 5 - 1) = marchStart y + doy + 60
    omega
  · show doy + 1 - (153 * marchMonth doy + 2) / 5 + (153 * marchMonth doy + 2) / 5 = doy + 1
    omega

/-- A day of January or February, which are in the next year. -/
lemma exists_date_late {doy : ℕ} (hdoy : doy < daysInYear (y + 1)) (hmonth : 10 ≤ marchMonth doy) :
    ∃ date : Date, date.number = marchStart y + doy + 60 ∧ date.year = y + 1 ∧
      date.month = marchMonth doy - 9 ∧ date.day + (153 * marchMonth doy + 2) / 5 = doy + 1 := by
  have hmarch := daysBeforeYear_march y
  have hyear : doy < 366 := by
    refine hdoy.trans_le ?_
    unfold daysInYear
    split <;> omega
  have hmonths : marchMonth doy = 10 ∧ 306 ≤ doy ∧ doy < 337 ∨
      marchMonth doy = 11 ∧ 337 ≤ doy := by
    unfold marchMonth at hmonth ⊢
    omega
  rcases hmonths with ⟨heq, hlow, hhigh⟩ | ⟨heq, hlow⟩
  · rw [heq]
    refine ⟨⟨y + 1, 1, doy - 305, by omega, by omega, by omega, ?_⟩, ?_, rfl, rfl, ?_⟩
    · show doy - 305 ≤ 31
      omega
    · show daysBeforeYear (y + 1) + 0 + (doy - 305 - 1) = marchStart y + doy + 60
      omega
    · show doy - 305 + 306 = doy + 1
      omega
  · rw [heq]
    refine ⟨⟨y + 1, 2, doy - 336, by omega, by omega, by omega, ?_⟩, ?_, rfl, rfl, ?_⟩
    · show doy - 336 ≤ if IsLeap (y + 1) then 29 else 28
      unfold daysInYear at hdoy
      by_cases hleap : IsLeap (y + 1)
      · rw [if_pos hleap] at hdoy ⊢
        omega
      · rw [if_neg hleap] at hdoy ⊢
        omega
    · show daysBeforeYear (y + 1) + (0 + 31) + (doy - 336 - 1) = marchStart y + doy + 60
      omega
    · show doy - 336 + 337 = doy + 1
      omega

end Gregorian

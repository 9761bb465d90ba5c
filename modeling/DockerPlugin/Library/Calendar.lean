import Mathlib.Algebra.BigOperators.Group.List.Basic
import Mathlib.Tactic.Ring

/-! Dates of the proleptic Gregorian calendar, counted from the first of January 1970. -/

namespace Calendar

def leap (year : Int) : Bool := year % 4 = 0 ∧ (year % 100 ≠ 0 ∨ year % 400 = 0)

def yearLength (year : Int) : Nat := if leap year then 366 else 365

def monthLength (leap : Bool) (month : Nat) : Nat :=
  match month with
  | 1 => if leap then 29 else 28
  | 3 | 5 | 8 | 10 => 30
  | _ => 31

/-- Days walked off from consecutive spans until the rest falls into one. -/
def walk (length : Nat → Nat) : Nat → Nat → Nat → Nat × Nat
  | 0, i, d => (i, d)
  | fuel + 1, i, d => if d < length i then (i, d) else walk length fuel (i + 1) (d - length i)

structure Date where
  year : Int
  month : Nat
  day : Nat
  deriving DecidableEq

/-- The days of 400 years, after which the calendar repeats itself. -/
def cycleLength : Int := 146097

def ofDays (days : Int) : Date :=
  let (y, d) := walk (fun i => yearLength (1970 + i)) 399 0 (days % cycleLength).toNat
  let year := 1970 + 400 * (days / cycleLength) + y
  let (m, d) := walk (monthLength (leap year)) 11 0 d
  ⟨year, m + 1, d + 1⟩

/-- The days before a date, by adding up the years and months before it. -/
def toDays (date : Date) : Int :=
  let years := date.year - 1970
  let inCycle := (years % 400).toNat
  cycleLength * (years / 400) + ((List.range inCycle).map fun i : Nat => (yearLength (1970 + i) : Int)).sum +
    ((List.range (date.month - 1)).map fun m => (monthLength (leap date.year) m : Int)).sum + (date.day - 1 : Nat)

structure Time where
  date : Date
  hour : Nat
  minute : Nat
  second : Nat
  deriving DecidableEq

def secondsPerDay : Int := 86400

def ofSeconds (seconds : Int) : Time :=
  let rest := (seconds % secondsPerDay).toNat
  ⟨ofDays (seconds / secondsPerDay), rest / 3600, rest / 60 % 60, rest % 60⟩

def toSeconds (time : Time) : Int :=
  toDays time.date * secondsPerDay + (time.hour * 3600 + time.minute * 60 + time.second : Nat)

/-- The total of the spans before the one with the given index. -/
def before (length : Nat → Nat) (i : Nat) : Nat := ((List.range i).map length).sum

theorem before_succ (length : Nat → Nat) (i : Nat) : before length (i + 1) = before length i + length i := by
  simp [before, List.range_succ]

theorem walk_total (length : Nat → Nat) (fuel i d : Nat) :
    before length (walk length fuel i d).1 + (walk length fuel i d).2 = before length i + d := by
  induction fuel generalizing i d with
  | zero => rfl
  | succ fuel ih =>
    rw [walk]
    split
    · rfl
    · rename_i beyond
      rw [ih, before_succ]
      omega

theorem walk_index (length : Nat → Nat) (fuel i d : Nat) : (walk length fuel i d).1 ≤ i + fuel := by
  induction fuel generalizing i d with
  | zero => exact le_rfl
  | succ fuel ih =>
    rw [walk]
    split
    · exact Nat.le_add_right i _
    · exact (ih (i + 1) _).trans (by omega)

/-- Where the spans are long enough in total, what is left lies within the last one. -/
theorem walk_rest {length : Nat → Nat} {fuel i d : Nat} (enough : before length i + d < before length (i + fuel + 1)) :
    (walk length fuel i d).2 < length (walk length fuel i d).1 := by
  induction fuel generalizing i d with
  | zero =>
    rw [Nat.add_zero, before_succ] at enough
    show d < length i
    omega
  | succ fuel ih =>
    rw [walk]
    split
    · assumption
    · rename_i beyond
      apply ih
      rw [before_succ, show i + 1 + fuel + 1 = i + (fuel + 1) + 1 by omega]
      omega

theorem yearLengths_cycle : before (fun i => yearLength (1970 + i)) 400 = 146097 := by
  decide +kernel

theorem monthLengths_year : ∀ l : Bool, before (monthLength l) 12 = if l then 366 else 365 := by
  decide

theorem monthLength_le (l : Bool) (month : Nat) : monthLength l month ≤ 31 := by
  unfold monthLength
  split
  · split <;> omega
  · omega
  · omega
  · omega
  · omega
  · omega

theorem leap_cycle (year cycles : Int) : leap (1970 + 400 * cycles + year) = leap (1970 + year) := by
  simp only [leap, decide_eq_decide]
  omega

/-- Both walks of a date: the years and months walked off add up to the days, and what is left
is a day of the month. -/
theorem ofDays_walk (days : Int) : ∃ y m d : Nat, y < 400 ∧ m < 12 ∧ d < monthLength (leap (1970 + y)) m ∧
    ofDays days = ⟨1970 + 400 * (days / cycleLength) + y, m + 1, d + 1⟩ ∧
    before (fun i => yearLength (1970 + i)) y + (before (monthLength (leap (1970 + y))) m + d) =
      (days % cycleLength).toNat := by
  have total := walk_total (fun i => yearLength (1970 + i)) 399 0 (days % cycleLength).toNat
  have index := walk_index (fun i => yearLength (1970 + i)) 399 0 (days % cycleLength).toNat
  have inYear := @walk_rest (fun i => yearLength (1970 + i)) 399 0 (days % cycleLength).toNat (by
    rw [show 0 + 399 + 1 = 400 from rfl, yearLengths_cycle]
    simp only [before, List.range_zero, List.map_nil, List.sum_nil, cycleLength]
    omega)
  obtain ⟨⟨y, rest⟩, years⟩ : ∃ place, walk (fun i => yearLength (1970 + i)) 399 0 (days % cycleLength).toNat = place :=
    ⟨_, rfl⟩
  rw [years] at total index inYear
  have monthTotal := walk_total (monthLength (leap (1970 + y))) 11 0 rest
  have monthIndex := walk_index (monthLength (leap (1970 + y))) 11 0 rest
  have inMonth := @walk_rest (monthLength (leap (1970 + y))) 11 0 rest (by
    rw [show 0 + 11 + 1 = 12 from rfl, monthLengths_year]
    simpa [before, yearLength] using inYear)
  obtain ⟨⟨m, d⟩, months⟩ : ∃ place, walk (monthLength (leap (1970 + y))) 11 0 rest = place := ⟨_, rfl⟩
  rw [months] at monthTotal monthIndex inMonth
  refine ⟨y, m, d, by simp only at index; omega, by simp only at monthIndex; omega, inMonth, ?_, ?_⟩
  · simp only [ofDays, years, leap_cycle, months]
  · simp only [before, List.range_zero, List.map_nil, List.sum_nil, Nat.zero_add] at total monthTotal ⊢
    rw [monthTotal, total]

theorem ofDays_bounds (days : Int) : 1 ≤ (ofDays days).month ∧ (ofDays days).month ≤ 12 ∧
    1 ≤ (ofDays days).day ∧ (ofDays days).day ≤ 31 := by
  obtain ⟨y, m, d, -, inYear, inMonth, date, -⟩ := ofDays_walk days
  have longest := monthLength_le (leap (1970 + y)) m
  rw [date]
  exact ⟨Nat.le_add_left 1 m, by simp only; omega, Nat.le_add_left 1 d, by simp only; omega⟩

theorem sum_before (length : Nat → Nat) (i : Nat) :
    ((List.range i).map fun k => (length k : Int)).sum = (before length i : Int) := by
  induction i with
  | zero => rfl
  | succ i ih => simp [before_succ, List.range_succ, ih]

/-- Counting the days before a date undoes the walk to it. -/
theorem toDays_ofDays (days : Int) : toDays (ofDays days) = days := by
  obtain ⟨y, m, d, inCycle, -, -, date, total⟩ := ofDays_walk days
  have split := Int.mul_ediv_add_emod days cycleLength
  have positive : 0 ≤ days % cycleLength := Int.emod_nonneg days (by decide)
  have years : (1970 + 400 * (days / cycleLength) + (y : Int) - 1970) % 400 = y := by omega
  have cycles : (1970 + 400 * (days / cycleLength) + (y : Int) - 1970) / 400 = days / cycleLength := by omega
  rw [date]
  simp only [toDays, years, cycles, leap_cycle, Int.toNat_natCast, Nat.add_sub_cancel,
    sum_before (fun i => yearLength (1970 + i)), sum_before (monthLength (leap (1970 + y)))]
  omega

theorem toSeconds_ofSeconds (seconds : Int) : toSeconds (ofSeconds seconds) = seconds := by
  have split := Int.mul_ediv_add_emod seconds secondsPerDay
  have positive : 0 ≤ seconds % secondsPerDay := Int.emod_nonneg seconds (by decide)
  simp only [toSeconds, ofSeconds, toDays_ofDays]
  simp only [secondsPerDay] at split positive ⊢
  omega

end Calendar

import DockerPlugin.ToJson

namespace DockerPlugin
open Octets

/-- A point in time in whole seconds. -/
def wholeSeconds (tp : Int) : Int := tp / 1000000000

/-- The years that `convert_time` can write in four digits. -/
def WrittenYear (tp : Int) : Prop :=
  1970 ≤ (Calendar.ofSeconds (wholeSeconds tp)).date.year ∧ (Calendar.ofSeconds (wholeSeconds tp)).date.year ≤ 9999

/-- A time read in the format of RFC 3339, in whole seconds of UTC. -/
def readTime (text : Bytes) : Option Calendar.Time :=
  match text with
  | [a, b, c, d, 45, e, f, 45, g, h, 84, i, j, 58, k, l, 58, m, n, 90] => do
    let year ← readNumeral 10 [a, b, c, d]
    let month ← readNumeral 10 [e, f]
    let day ← readNumeral 10 [g, h]
    let hour ← readNumeral 10 [i, j]
    let minute ← readNumeral 10 [k, l]
    let second ← readNumeral 10 [m, n]
    return ⟨⟨year, month, day⟩, hour, minute, second⟩
  | _ => none

theorem twoDigits_read {n : Nat} (small : n < 100) : ∃ a b, twoDigits n = [a, b] ∧ readNumeral 10 [a, b] = some n := by
  by_cases single : n < 10
  · refine ⟨48, _, by rw [twoDigits, if_pos single, decimal, numeral_of_lt single]; rfl, ?_⟩
    have zero : readDigits 10 0 [48] = some 0 := by decide
    have digit := readDigits_digitChar (show 10 ≤ 16 by decide) single 0
    rw [readNumeral, if_neg (List.cons_ne_nil _ _), ← List.singleton_append, readDigits_append, zero, Option.bind_some,
      digit, Nat.zero_mul, Nat.zero_add]
  · have long : (decimal n).length = 2 := numeral_length (by decide) (show 10 ^ 1 ≤ n by omega) (by omega)
    obtain ⟨a, b, digits⟩ := List.length_eq_two.mp long
    refine ⟨a, b, by rw [twoDigits, if_neg single, digits]; rfl, ?_⟩
    rw [← digits, decimal, readNumeral_numeral (by decide) (by decide)]

theorem fourDigits_read {n : Nat} (low : 1000 ≤ n) (high : n ≤ 9999) :
    ∃ a b c d, decimal n = [a, b, c, d] ∧ readNumeral 10 [a, b, c, d] = some n := by
  have long : (decimal n).length = 4 := numeral_length (by decide) (show 10 ^ 3 ≤ n by omega) (by omega)
  obtain ⟨a, b, c, d, digits⟩ : ∃ a b c d, decimal n = [a, b, c, d] := by
    match decimal n, long with
    | [a, b, c, d], _ => exact ⟨a, b, c, d, rfl⟩
  refine ⟨a, b, c, d, digits, ?_⟩
  rw [← digits, decimal, readNumeral_numeral (by decide) (by decide)]

/-- A time whose fields have their digits is written in twenty bytes and read back from them. -/
theorem timeText_read {time : Calendar.Time} (low : 1000 ≤ time.date.year) (high : time.date.year ≤ 9999)
    (month : time.date.month < 100) (day : time.date.day < 100) (hour : time.hour < 100) (minute : time.minute < 100)
    (second : time.second < 100) : (timeText time).length = 20 ∧ readTime (timeText time) = some time := by
  obtain ⟨⟨year, mo, da⟩, ho, mi, se⟩ := time
  obtain ⟨n, rfl⟩ := Int.eq_ofNat_of_zero_le (show 0 ≤ year by simp only at low; omega)
  simp only at low high month day hour minute second
  obtain ⟨a, b, c, d, yearDigits, yearRead⟩ := fourDigits_read (n := n) (by omega) (by omega)
  obtain ⟨e, f, monthDigits, monthRead⟩ := twoDigits_read month
  obtain ⟨g, h, dayDigits, dayRead⟩ := twoDigits_read day
  obtain ⟨i, j, hourDigits, hourRead⟩ := twoDigits_read hour
  obtain ⟨k, l, minuteDigits, minuteRead⟩ := twoDigits_read minute
  obtain ⟨o, p, secondDigits, secondRead⟩ := twoDigits_read second
  have unsigned : signedDecimal (n : Int) = decimal n := by
    rw [signedDecimal, if_neg (by simp)]
    rfl
  have written : timeText ⟨⟨n, mo, da⟩, ho, mi, se⟩ =
      [a, b, c, d, 45, e, f, 45, g, h, 84, i, j, 58, k, l, 58, o, p, 90] := by
    simp only [timeText, unsigned, yearDigits, monthDigits, dayDigits, hourDigits, minuteDigits, secondDigits]
    rfl
  rw [written]
  refine ⟨rfl, ?_⟩
  simp only [readTime, yearRead, monthRead, dayRead, hourRead, minuteRead, secondRead]
  rfl

theorem ofSeconds_bounds (seconds : Int) : (Calendar.ofSeconds seconds).hour < 24 ∧
    (Calendar.ofSeconds seconds).minute < 60 ∧ (Calendar.ofSeconds seconds).second < 60 := by
  have low := Int.emod_nonneg seconds (show Calendar.secondsPerDay ≠ 0 by decide)
  have high := Int.emod_lt_of_pos seconds (show 0 < Calendar.secondsPerDay by decide)
  simp only [Calendar.ofSeconds]
  simp only [Calendar.secondsPerDay] at low high ⊢
  omega

/-- A date of 1970 or later is not before the epoch. -/
theorem seconds_nonneg {seconds : Int} (late : 1970 ≤ (Calendar.ofSeconds seconds).date.year) : 0 ≤ seconds := by
  obtain ⟨y, m, d, inCycle, -, -, date, -⟩ := Calendar.ofDays_walk (seconds / Calendar.secondsPerDay)
  rw [Calendar.ofSeconds, date] at late
  simp only [Calendar.secondsPerDay, Calendar.cycleLength] at late
  omega

/-- What `convert_time` writes is the time to the second. -/
theorem convertTime_read {tp : Int} (written : WrittenYear tp) :
    ∃ time, readTime (convertTime tp) = some time ∧ Calendar.toSeconds time = wholeSeconds tp := by
  have late := seconds_nonneg written.1
  have rounded : toTimeT tp = wholeSeconds tp := by
    have positive : 0 ≤ tp := by
      simp only [wholeSeconds] at late
      omega
    exact Int.tdiv_eq_ediv_of_nonneg positive
  obtain ⟨-, month, -, day⟩ := Calendar.ofDays_bounds (wholeSeconds tp / Calendar.secondsPerDay)
  obtain ⟨hour, minute, second⟩ := ofSeconds_bounds (wholeSeconds tp)
  have date : (Calendar.ofSeconds (wholeSeconds tp)).date = Calendar.ofDays (wholeSeconds tp / Calendar.secondsPerDay) := rfl
  rw [← date] at month day
  obtain ⟨fits, read⟩ := timeText_read ((show (1000 : Int) ≤ 1970 by decide).trans written.1) written.2
    (by omega) (by omega) (by omega) (by omega) (by omega)
  refine ⟨_, ?_, Calendar.toSeconds_ofSeconds _⟩
  simp only [convertTime, rounded, fits, le_refl, if_true, read]

end DockerPlugin

import Mathlib.Algebra.Ring.Nat
import Mathlib.Data.List.Basic
import Mathlib.Tactic.Common

namespace Octets

/-- A string of octets, as `std::string` holds it: any bytes, of any length. -/
abbrev Bytes := List UInt8

/-- The bytes of a text constant. -/
def bytes (s : String) : Bytes := s.toByteArray.data.toList

def crlf : Bytes := [13, 10]

/-- `tolower` of the C locale on one byte. -/
def toLower (b : UInt8) : UInt8 := if 65 ≤ b ∧ b ≤ 90 then b + 32 else b

/-- The text of `n` in base `base`, most significant digit first and without leading zeros. -/
def numeral (base n : Nat) : Bytes := (Nat.toDigits base n).map fun c => c.toNat.toUInt8

def decimal (n : Nat) : Bytes := numeral 10 n

def hexadecimal (n : Nat) : Bytes := numeral 16 n

/-- `std::to_string` of a signed integer. -/
def signedDecimal (i : Int) : Bytes :=
  if i < 0 then 45 :: decimal i.natAbs else decimal i.natAbs

/-- The value of a digit, letters in either case standing for ten and up. -/
def digitValue (b : UInt8) : Option Nat :=
  if 48 ≤ b ∧ b ≤ 57 then some (b.toNat - 48)
  else if 97 ≤ b ∧ b ≤ 102 then some (b.toNat - 87)
  else if 65 ≤ b ∧ b ≤ 70 then some (b.toNat - 55)
  else none

/-- Digits read on after `acc`, or nothing at the first byte that is no digit of the base. -/
def readDigits (base : Nat) : Nat → Bytes → Option Nat
  | acc, [] => some acc
  | acc, b :: rest =>
    match digitValue b with
    | some d => if d < base then readDigits base (acc * base + d) rest else none
    | none => none

/-- A whole text read as a numeral of at least one digit. -/
def readNumeral (base : Nat) (text : Bytes) : Option Nat :=
  if text = [] then none else readDigits base 0 text

theorem readDigits_append (base : Nat) (front back : Bytes) (acc : Nat) :
    readDigits base acc (front ++ back) =
      (readDigits base acc front).bind fun value => readDigits base value back := by
  induction front generalizing acc with
  | nil => rfl
  | cons b front ih =>
    simp only [List.cons_append, readDigits]
    cases digitValue b with
    | none => rfl
    | some d =>
      by_cases small : d < base
      · simp only [if_pos small, ih]
      · simp only [if_neg small, Option.bind_none]

theorem digitValue_digitChar : ∀ d < 16, digitValue (Nat.digitChar d).toNat.toUInt8 = some d := by
  decide

theorem numeral_of_lt {base d : Nat} (small : d < base) :
    numeral base d = [(Nat.digitChar d).toNat.toUInt8] := by
  simp only [numeral, Nat.toDigits_of_lt_base small, List.map_cons, List.map_nil]

theorem numeral_of_le {base n : Nat} (wide : 1 < base) (large : base ≤ n) :
    numeral base n = numeral base (n / base) ++ [(Nat.digitChar (n % base)).toNat.toUInt8] := by
  simp only [numeral, Nat.toDigits_of_base_le wide large, List.map_append, List.map_cons, List.map_nil]

theorem readDigits_digitChar {base d : Nat} (hex : base ≤ 16) (small : d < base) (acc : Nat) :
    readDigits base acc [(Nat.digitChar d).toNat.toUInt8] = some (acc * base + d) := by
  simp only [readDigits, digitValue_digitChar d (by omega), if_pos small]

theorem readDigits_numeral {base : Nat} (wide : 1 < base) (hex : base ≤ 16) (n : Nat) :
    readDigits base 0 (numeral base n) = some n := by
  induction n using Nat.strongRecOn with
  | ind n ih =>
    by_cases small : n < base
    · rw [numeral_of_lt small, readDigits_digitChar hex small, Nat.zero_mul, Nat.zero_add]
    · have positive : 0 < base := by omega
      have smaller : n / base < n := Nat.div_lt_self (by omega) wide
      rw [numeral_of_le wide (by omega), readDigits_append, ih _ smaller, Option.bind_some,
        readDigits_digitChar hex (Nat.mod_lt n positive), Nat.div_add_mod']

theorem numeral_ne_nil (base n : Nat) : numeral base n ≠ [] := by
  simp [numeral, Nat.toDigits_ne_nil]

theorem numeral_length {base digits n : Nat} (wide : 1 < base) (low : base ^ digits ≤ n) (high : n < base ^ (digits + 1)) :
    (numeral base n).length = digits + 1 := by
  induction digits generalizing n with
  | zero => rw [numeral_of_lt (by simpa using high), List.length_singleton]
  | succ digits ih =>
    have positive : 0 < base := by omega
    have first : base ≤ n := Nat.le_trans (Nat.le_self_pow (Nat.succ_ne_zero digits) base) low
    have quotientLow : base ^ digits ≤ n / base := (Nat.le_div_iff_mul_le positive).mpr low
    have quotientHigh : n / base < base ^ (digits + 1) := (Nat.div_lt_iff_lt_mul positive).mpr high
    rw [numeral_of_le wide first, List.length_append, ih quotientLow quotientHigh, List.length_singleton]

/-- What a numeral says is read back. -/
theorem readNumeral_numeral {base : Nat} (wide : 1 < base) (hex : base ≤ 16) (n : Nat) :
    readNumeral base (numeral base n) = some n := by
  rw [readNumeral, if_neg (numeral_ne_nil base n), readDigits_numeral wide hex]

theorem mem_numeral {base n : Nat} {b : UInt8} (wide : 1 < base) (member : b ∈ numeral base n) :
    ∃ d < base, b = (Nat.digitChar d).toNat.toUInt8 := by
  induction n using Nat.strongRecOn with
  | ind n ih =>
    by_cases small : n < base
    · rw [numeral_of_lt small, List.mem_singleton] at member
      exact ⟨n, small, member⟩
    · rw [numeral_of_le wide (by omega), List.mem_append, List.mem_singleton] at member
      rcases member with front | last
      · exact ih _ (Nat.div_lt_self (by omega) wide) front
      · exact ⟨n % base, Nat.mod_lt n (by omega), last⟩

theorem digitChar_printable : ∀ d < 16, 48 ≤ (Nat.digitChar d).toNat.toUInt8 ∧
    (Nat.digitChar d).toNat.toUInt8 ≤ 102 := by
  decide

/-- The bytes of a numeral are neither blanks nor line ends. -/
theorem numeral_printable {base n : Nat} {b : UInt8} (wide : 1 < base) (hex : base ≤ 16)
    (member : b ∈ numeral base n) : 48 ≤ b ∧ b ≤ 102 := by
  obtain ⟨d, small, rfl⟩ := mem_numeral wide member
  exact digitChar_printable d (by omega)

theorem readDigits_digits {base acc n : Nat} {text : Bytes} (read : readDigits base acc text = some n) {b : UInt8}
    (member : b ∈ text) : ∃ d, digitValue b = some d := by
  induction text generalizing acc with
  | nil => cases member
  | cons first rest ih =>
    rw [readDigits] at read
    split at read
    · rename_i d digit
      split at read
      · rcases List.mem_cons.mp member with rfl | later
        · exact ⟨d, digit⟩
        · exact ih read later
      · cases read
    · cases read

theorem readNumeral_digits {base n : Nat} {text : Bytes} (read : readNumeral base text = some n) {b : UInt8}
    (member : b ∈ text) : ∃ d, digitValue b = some d := by
  rw [readNumeral, if_neg (List.ne_nil_of_mem member)] at read
  exact readDigits_digits read member

/-- The text of a signed integer is read as a numeral only if the integer is not negative. -/
theorem signedDecimal_read {i : Int} {n : Nat} (read : readNumeral 10 (signedDecimal i) = some n) : (n : Int) = i := by
  rw [signedDecimal] at read
  split at read
  · obtain ⟨d, digit⟩ := readNumeral_digits read List.mem_cons_self
    cases digit
  · rw [decimal, readNumeral_numeral (by decide) (by decide)] at read
    injection read with same
    omega

theorem signedDecimal_solid {i : Int} {b : UInt8} (member : b ∈ signedDecimal i) : b ≠ 32 := by
  rintro rfl
  have digits : (32 : UInt8) ∉ decimal i.natAbs := fun inside =>
    absurd (numeral_printable (show 1 < 10 by decide) (by decide) inside).1 (by decide)
  rw [signedDecimal] at member
  split at member
  · rcases List.mem_cons.mp member with sign | inside
    · cases sign
    · exact digits inside
  · exact digits member

end Octets

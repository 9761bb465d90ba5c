import DockerPlugin.Library.Octets
import DockerPlugin.Library.Multimap
import Mathlib.Data.Nat.Log

/-! The vendored `picojson`, with 64-bit integers enabled and in the C locale. -/

namespace DockerPlugin.Picojson
open Octets

/-- A finite double: its value is `mantissa * 2 ^ exponent`, with a sign. -/
structure Double where
  negative : Bool
  mantissa : Nat
  exponent : Int
  deriving DecidableEq, Repr

/-- `value`: an object is the list of its members in the order of `std::map`. -/
inductive Value
  | null
  | boolean (b : Bool)
  | number (n : Double)
  | int64 (i : Int64)
  | string (s : Bytes)
  | array (a : List Value)
  | object (o : List (Bytes × Value))

abbrev Object := List (Bytes × Value)

/-- `operator<` of `std::string`, which compares bytes as unsigned. -/
def stringLess (a b : Bytes) : Bool := lexicographicalCompare (fun x y => decide (x.toNat < y.toNat)) a b

namespace Object

/-- `obj[key] = val`. -/
def insert (key : Bytes) (val : Value) : Object → Object
  | [] => [(key, val)]
  | (k, v) :: rest =>
    if stringLess key k then (key, val) :: (k, v) :: rest
    else if stringLess k key then (k, v) :: insert key val rest
    else (key, val) :: rest

/-- `obj.at(key)`, when `obj.count(key) != 0`. -/
def find? (o : Object) (key : Bytes) : Option Value := (List.find? (fun member => member.1 = key) o).map Prod.snd

end Object

/-! ### Numbers of the C library -/

/-- The quotient rounded to the nearest integer, ties to the even one. -/
def roundHalfEven (n d : Nat) : Nat :=
  let q := n / d
  let r := n % d
  if 2 * r < d then q else if d < 2 * r then q + 1 else if q % 2 = 0 then q else q + 1

/-- A rational scaled by a power, as a numerator and a denominator. -/
def scale (base : Nat) (power : Int) (n d : Nat) : Nat × Nat :=
  if 0 ≤ power then (n * base ^ power.toNat, d) else (n, d * base ^ (-power).toNat)

/-- The double nearest to `n / d`, or nothing where that overflows. -/
def Double.ofRatio (negative : Bool) (n d : Nat) : Option Double :=
  if n = 0 then some ⟨negative, 0, 0⟩
  else
    let guess : Int := (Nat.log 2 n : Int) - Nat.log 2 d - 52
    let (n', d') := scale 2 (-guess) n d
    let exponent := max (-1074) (if n' / d' < 2 ^ 52 then guess - 1 else guess)
    let (n', d') := scale 2 (-exponent) n d
    let mantissa := roundHalfEven n' d'
    if exponent + (Nat.log 2 mantissa : Int) < 1024 then some ⟨negative, mantissa, exponent⟩ else none

def isDigit (b : UInt8) : Bool := 48 ≤ b ∧ b ≤ 57

/-- An optional sign in front of a text, and whether it was a minus. -/
def takeSign (text : Bytes) : Bool × Bytes :=
  match text with
  | 45 :: rest => (true, rest)
  | 43 :: rest => (false, rest)
  | _ => (false, text)

/-- `strtoimax` in base ten, where it consumes the whole text and the value is in range. -/
def strtoimax (text : Bytes) : Option Int64 :=
  let (negative, digits) := takeSign text
  (readNumeral 10 digits).bind fun n =>
    let value : Int := if negative then -(n : Int) else n
    if Int64.minValue.toInt ≤ value ∧ value ≤ Int64.maxValue.toInt then some (Int64.ofInt value) else none

/-- What `strtod` makes of a text that it consumes to its end. -/
inductive Strtod
  | finite (n : Double)
  | infinite
  | refused

def strtod (text : Bytes) : Strtod :=
  let (negative, rest) := takeSign text
  let whole := rest.takeWhile isDigit
  let rest := rest.dropWhile isDigit
  let (fraction, rest) :=
    match rest with
    | 46 :: rest => (rest.takeWhile isDigit, rest.dropWhile isDigit)
    | _ => ([], rest)
  let exponent : Option Int :=
    match rest with
    | [] => some 0
    | mark :: rest =>
      if mark = 101 ∨ mark = 69 then
        let (negative, digits) := takeSign rest
        (readNumeral 10 digits).map fun n => if negative then -(n : Int) else n
      else none
  match readNumeral 10 (whole ++ fraction), exponent with
  | some digits, some exponent =>
    let (n, d) := scale 10 (exponent - fraction.length) digits 1
    match Double.ofRatio negative n d with
    | some double => .finite double
    | none => .infinite
  | _, _ => .refused

/-- Text without its trailing zeros, behind a decimal point unless it is then empty. -/
def fractionText (digits : Bytes) : Bytes :=
  let kept := (digits.reverse.dropWhile fun b => b = 48).reverse
  if kept.isEmpty then [] else 46 :: kept

/-- `%.17g` of the positive number `n / d`. -/
def formatGeneral (n d : Nat) : Bytes :=
  let guess : Int := if d ≤ n then Nat.log 10 (n / d) else -(Nat.clog 10 ((d + n - 1) / n) : Int)
  let (n', d') := scale 10 (16 - guess) n d
  let rounded := roundHalfEven n' d'
  let (digits, exponent) := if rounded = 10 ^ 17 then (decimal (10 ^ 16), guess + 1) else (decimal rounded, guess)
  if exponent < -4 ∨ 17 ≤ exponent then
    let size := decimal exponent.natAbs
    digits.take 1 ++ fractionText (digits.drop 1) ++ bytes "e" ++ (if exponent < 0 then bytes "-" else bytes "+") ++
      (if size.length < 2 then 48 :: size else size)
  else if 0 ≤ exponent then
    digits.take (exponent.toNat + 1) ++ fractionText (digits.drop (exponent.toNat + 1))
  else bytes "0" ++ fractionText (List.replicate (exponent.natAbs - 1) 48 ++ digits)

/-- The number formats of `to_str`: `%.f` for integers below 2^53 and `%.17g` otherwise. -/
def Double.toStr (x : Double) : Bytes :=
  let (n, d) := scale 2 x.exponent x.mantissa 1
  (if x.negative then bytes "-" else []) ++
    (if n % d = 0 ∧ n / d < 2 ^ 53 then decimal (n / d) else formatGeneral n d)

/-! ### Serialization -/

def hexDigit (n : Nat) : UInt8 := (Nat.digitChar n).toNat.toUInt8

/-- `serialize_str_char`. -/
def serializeStrChar (c : UInt8) : Bytes :=
  if c = 34 then bytes "\\\""
  else if c = 92 then bytes "\\\\"
  else if c = 47 then bytes "\\/"
  else if c = 8 then bytes "\\b"
  else if c = 12 then bytes "\\f"
  else if c = 10 then bytes "\\n"
  else if c = 13 then bytes "\\r"
  else if c = 9 then bytes "\\t"
  else if c < 32 ∨ c = 127 then bytes "\\u00" ++ [hexDigit (c.toNat / 16), hexDigit (c.toNat % 16)]
  else [c]

def serializeStr (s : Bytes) : Bytes := [34] ++ s.flatMap serializeStrChar ++ [34]

mutual

/-- `serialize()` without prettifying. -/
def serialize : Value → Bytes
  | .null => bytes "null"
  | .boolean b => if b then bytes "true" else bytes "false"
  | .number n => n.toStr
  | .int64 i => signedDecimal i.toInt
  | .string s => serializeStr s
  | .array a => bytes "[" ++ serializeItems a ++ bytes "]"
  | .object o => bytes "\x7b" ++ serializeMembers o ++ bytes "\x7d"

def serializeItems : List Value → Bytes
  | [] => []
  | [v] => serialize v
  | v :: w :: rest => serialize v ++ bytes "," ++ serializeItems (w :: rest)

def serializeMembers : List (Bytes × Value) → Bytes
  | [] => []
  | [(k, v)] => serializeStr k ++ bytes ":" ++ serialize v
  | (k, v) :: m :: rest => serializeStr k ++ bytes ":" ++ serialize v ++ bytes "," ++ serializeMembers (m :: rest)

end

end DockerPlugin.Picojson

import DockerPlugin.Library.Octets

/-! A reference reader of HTTP/1.1 responses and of the chunked coding, and the laws by
which it undoes the corresponding texts. -/

namespace Http
open Octets

abbrev Field := Bytes × Bytes

/-- A line up to the first CRLF, and what follows it. -/
def splitLine : Bytes → Option (Bytes × Bytes)
  | [] => none
  | b :: rest =>
    if b = 13 ∧ rest.head? = some 10 then some ([], rest.tail)
    else (splitLine rest).map fun parts => (b :: parts.1, parts.2)

/-- A line that has no carriage return or line feed of its own. -/
def readLine (input : Bytes) : Option (Bytes × Bytes) :=
  (splitLine input).filter fun parts => parts.1.all fun b => b ≠ 13 ∧ b ≠ 10

def isBlank (b : UInt8) : Bool := b = 32 ∨ b = 9

def trim (text : Bytes) : Bytes := ((text.dropWhile isBlank).reverse.dropWhile isBlank).reverse

/-- The characters of a token: visible ASCII without the delimiters. -/
def isTokenChar (b : UInt8) : Bool := 33 ≤ b ∧ b ≤ 126 ∧ b ∉ bytes "\"(),/:;<=>?@[\\]\x7b\x7d"

def readField (line : Bytes) : Option Field :=
  let name := line.takeWhile (· ≠ 58)
  match line.dropWhile (· ≠ 58) with
  | [] => none
  | _ :: value => if name ≠ [] ∧ name.all isTokenChar then some (name, trim value) else none

/-- Field lines up to the empty line. -/
def readFields : Nat → Bytes → Option (List Field × Bytes)
  | 0, _ => none
  | fuel + 1, input =>
    match readLine input with
    | none => none
    | some ([], rest) => some ([], rest)
    | some (line, rest) =>
      match readField line, readFields fuel rest with
      | some field, some (fields, after) => some (field :: fields, after)
      | _, _ => none

/-- `HTTP/1.1`, a code of three digits and the reason phrase. -/
def readStatusLine (line : Bytes) : Option (Nat × Bytes) :=
  if line.take 9 = bytes "HTTP/1.1 " ∧ (line.drop 12).head? = some 32 then
    (readNumeral 10 ((line.drop 9).take 3)).map fun code => (code, line.drop 13)
  else none

/-- The chunks up to and with the last one and the trailer section behind it. -/
def readChunks : Nat → Bytes → Option (Bytes × Bytes)
  | 0, _ => none
  | fuel + 1, input =>
    match readLine input with
    | none => none
    | some (line, rest) =>
      match readNumeral 16 (line.takeWhile (· ≠ 59)) with
      | none => none
      | some 0 => (readFields (rest.length + 1) rest).map fun parts => ([], parts.2)
      | some (size + 1) =>
        if (rest.drop (size + 1)).take 2 = crlf then
          (readChunks fuel (rest.drop (size + 3))).map fun parts => (rest.take (size + 1) ++ parts.1, parts.2)
        else none

/-- The reference decoder of the chunked coding: the payload, and the bytes behind it. -/
def decodeChunked (input : Bytes) : Option (Bytes × Bytes) := readChunks (input.length + 1) input

def sameName (a b : Bytes) : Bool := a.map toLower = b.map toLower

def valuesOf (name : Bytes) (fields : List Field) : List Bytes :=
  (fields.filter fun field => sameName name field.1).map Prod.snd

/-- Codes whose response ends with its header section. -/
def forbidsBody (status : Nat) : Bool := status < 200 ∨ status = 204 ∨ status = 304

/-- Whether the last coding that a field value lists is the chunked one. -/
def lastCodingChunked (value : Bytes) : Bool :=
  sameName (trim (value.reverse.takeWhile (· ≠ 44)).reverse) (bytes "chunked")

def readBody (status : Nat) (fields : List Field) (input : Bytes) : Option (Bytes × Bytes) :=
  if forbidsBody status then some ([], input)
  else
    match valuesOf (bytes "transfer-encoding") fields, valuesOf (bytes "content-length") fields with
    | [], [length] =>
      match readNumeral 10 length with
      | some size => if size ≤ input.length then some (input.take size, input.drop size) else none
      | none => none
    | [coding], [] => if lastCodingChunked coding then decodeChunked input else none
    | _, _ => none

structure Response where
  status : Nat
  reason : Bytes
  fields : List Field
  body : Bytes
  deriving DecidableEq, Repr

/-- One response from the front of a stream, and the bytes behind it. -/
def readResponse (input : Bytes) : Option (Response × Bytes) :=
  match readLine input with
  | none => none
  | some (line, rest) =>
    match readStatusLine line, readFields (rest.length + 1) rest with
    | some (status, reason), some (fields, content) =>
      (readBody status fields content).map fun parts => (⟨status, reason, fields, parts.1⟩, parts.2)
    | _, _ => none

/-- A stream read as responses to its end. -/
def readResponses : Nat → Bytes → Option (List Response)
  | _, [] => some []
  | 0, _ => none
  | fuel + 1, input =>
    match readResponse input with
    | some (response, rest) => (readResponses fuel rest).map (response :: ·)
    | none => none

end Http

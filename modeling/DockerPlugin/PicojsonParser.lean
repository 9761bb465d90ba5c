import DockerPlugin.Picojson

namespace DockerPlugin.Picojson
open Octets

/-- `input`: the text from `cur_` on, whether the byte in front of it has been handed out
already, and the line. -/
structure Input where
  cur : Bytes
  consumed : Bool := false
  line : Nat := 1

namespace Input

def getc (i : Input) : Option UInt8 × Input :=
  let i :=
    if i.consumed then { i with cur := i.cur.tail, line := if i.cur.head? = some 10 then i.line + 1 else i.line }
    else i
  match i.cur with
  | [] => (none, { i with consumed := false })
  | b :: _ => (some b, { i with consumed := true })

def ungetc (i : Input) : Input := { i with consumed := false }

def isSpace (b : UInt8) : Bool := b = 32 ∨ b = 9 ∨ b = 10 ∨ b = 13

def skipWsLoop : Nat → Input → Input
  | 0, i => i
  | fuel + 1, i =>
    match i.getc with
    | (some b, i) => if isSpace b then skipWsLoop fuel i else i.ungetc
    | (none, i) => i.ungetc

def skipWs (i : Input) : Input := skipWsLoop (i.cur.length + 1) i

def expect (expected : UInt8) (i : Input) : Bool × Input :=
  match i.skipWs.getc with
  | (some b, i) => if b = expected then (true, i) else (false, i.ungetc)
  | (none, i) => (false, i.ungetc)

/-- `match(pattern)`. -/
def matchText : Bytes → Input → Bool × Input
  | [], i => (true, i)
  | p :: pattern, i =>
    match i.getc with
    | (some b, i) => if b = p then matchText pattern i else (false, i.ungetc)
    | (none, i) => (false, i.ungetc)

end Input

/-- `_parse_quadhex`, with the rounds that are left and the value so far. -/
def parseQuadhexLoop : Nat → Nat → Input → Option Nat × Input
  | 0, uniCh, i => (some uniCh, i)
  | rounds + 1, uniCh, i =>
    match i.getc with
    | (none, i) => (none, i)
    | (some b, i) =>
      match digitValue b with
      | some hex => parseQuadhexLoop rounds (uniCh * 16 + hex) i
      | none => (none, i.ungetc)

def parseQuadhex (i : Input) : Option Nat × Input := parseQuadhexLoop 4 0 i

/-- The bytes that `_parse_codepoint` appends for a code point. -/
def encodeCodepoint (uniCh : Nat) : Bytes :=
  if uniCh < 0x80 then [uniCh.toUInt8]
  else
    (if uniCh < 0x800 then [(0xc0 ||| uniCh >>> 6).toUInt8]
    else
      (if uniCh < 0x10000 then [(0xe0 ||| uniCh >>> 12).toUInt8]
      else [(0xf0 ||| uniCh >>> 18).toUInt8, (0x80 ||| uniCh >>> 12 &&& 0x3f).toUInt8]) ++
        [(0x80 ||| uniCh >>> 6 &&& 0x3f).toUInt8]) ++
      [(0x80 ||| uniCh &&& 0x3f).toUInt8]

def parseCodepoint (i : Input) : Option Bytes × Input :=
  match parseQuadhex i with
  | (none, i) => (none, i)
  | (some uniCh, i) =>
    if 0xd800 ≤ uniCh ∧ uniCh ≤ 0xdfff then
      if 0xdc00 ≤ uniCh then (none, i)
      else
        match i.getc with
        | (some 92, i) =>
          match i.getc with
          | (some 117, i) =>
            match parseQuadhex i with
            | (some second, i) =>
              if 0xdc00 ≤ second ∧ second ≤ 0xdfff then
                (some (encodeCodepoint (((uniCh - 0xd800) <<< 10 ||| (second - 0xdc00 &&& 0x3ff)) + 0x10000)), i)
              else (none, i)
            | (none, i) => (none, i)
          | (_, i) => (none, i.ungetc)
        | (_, i) => (none, i.ungetc)
    else (some (encodeCodepoint uniCh), i)

/-- The byte that a one-letter escape stands for. -/
def unescape (ch : UInt8) : Option UInt8 :=
  if ch = 34 then some 34
  else if ch = 92 then some 92
  else if ch = 47 then some 47
  else if ch = 98 then some 8
  else if ch = 102 then some 12
  else if ch = 110 then some 10
  else if ch = 114 then some 13
  else if ch = 116 then some 9
  else none

def parseStringLoop : Nat → Bytes → Input → Option Bytes × Input
  | 0, _, i => (none, i)
  | fuel + 1, out, i =>
    match i.getc with
    | (none, i) => (none, i.ungetc)
    | (some ch, i) =>
      if ch < 32 then (none, i.ungetc)
      else if ch = 34 then (some out, i)
      else if ch = 92 then
        match i.getc with
        | (none, i) => (none, i)
        | (some ch, i) =>
          if ch = 117 then
            match parseCodepoint i with
            | (some code, i) => parseStringLoop fuel (out ++ code) i
            | (none, i) => (none, i)
          else
            match unescape ch with
            | some b => parseStringLoop fuel (out ++ [b]) i
            | none => (none, i)
      else parseStringLoop fuel (out ++ [ch]) i

/-- `_parse_string`, behind the opening quote. -/
def parseString (i : Input) : Option Bytes × Input := parseStringLoop (i.cur.length + 1) [] i

def isNumberByte (b : UInt8) : Bool := isDigit b ∨ b = 43 ∨ b = 45 ∨ b = 101 ∨ b = 69 ∨ b = 46

def parseNumberLoop : Nat → Bytes → Input → Bytes × Input
  | 0, numStr, i => (numStr, i)
  | fuel + 1, numStr, i =>
    match i.getc with
    | (some b, i) => if isNumberByte b then parseNumberLoop fuel (numStr ++ [b]) i else (numStr, i.ungetc)
    | (none, i) => (numStr, i.ungetc)

/-- `_parse_number`: the text of the number. -/
def parseNumber (i : Input) : Bytes × Input := parseNumberLoop (i.cur.length + 1) [] i

/-- What `_parse` leaves: a value, a refusal at some place of the text, or the
`overflow_error` that storing an infinite number throws. -/
inductive Parsed
  | ok (v : Value) (i : Input)
  | fail (i : Input)
  | overflow

/-- The rest of a constant whose first letter has been read. -/
def parseConstant (text : Bytes) (v : Value) (i : Input) : Parsed :=
  match i.matchText text with
  | (true, i) => .ok v i
  | (false, i) => .fail i

def parseNumeric (i : Input) : Parsed :=
  let (numStr, i) := parseNumber i
  if numStr.isEmpty then .fail i
  else
    match strtoimax numStr with
    | some ival => .ok (.int64 ival) i
    | none =>
      match strtod numStr with
      | .finite f => .ok (.number f) i
      | .infinite => .overflow
      | .refused => .fail i

mutual

/-- `_parse` with a `default_parse_context` that may still open `depths` arrays. An object is
refused at depth zero too, but does not count. -/
def parseValue : Nat → Nat → Input → Parsed
  | 0, _, i => .fail i
  | fuel + 1, depths, i =>
    match i.skipWs.getc with
    | (none, i) => .fail i.ungetc
    | (some ch, i) =>
      if ch = 110 then parseConstant (bytes "ull") .null i
      else if ch = 102 then parseConstant (bytes "alse") (.boolean false) i
      else if ch = 116 then parseConstant (bytes "rue") (.boolean true) i
      else if ch = 34 then
        match parseString i with
        | (some s, i) => .ok (.string s) i
        | (none, i) => .fail i
      else if ch = 91 then
        if depths = 0 then .fail i
        else
          match i.expect 93 with
          | (true, i) => .ok (.array []) i
          | (false, i) => parseItems fuel (depths - 1) [] i
      else if ch = 123 then
        if depths = 0 then .fail i
        else
          match i.expect 125 with
          | (true, i) => .ok (.object []) i
          | (false, i) => parseMembers fuel depths [] i
      else if isDigit ch ∨ ch = 45 then parseNumeric i.ungetc
      else .fail i.ungetc

/-- The loop of `_parse_array`. -/
def parseItems : Nat → Nat → List Value → Input → Parsed
  | 0, _, _, i => .fail i
  | fuel + 1, depths, a, i =>
    match parseValue fuel depths i with
    | .ok v i =>
      match i.expect 44 with
      | (true, i) => parseItems fuel depths (a ++ [v]) i
      | (false, i) =>
        match i.expect 93 with
        | (true, i) => .ok (.array (a ++ [v])) i
        | (false, i) => .fail i
    | other => other

/-- The loop of `_parse_object`. -/
def parseMembers : Nat → Nat → Object → Input → Parsed
  | 0, _, _, i => .fail i
  | fuel + 1, depths, o, i =>
    match i.expect 34 with
    | (false, i) => .fail i
    | (true, i) =>
      match parseString i with
      | (none, i) => .fail i
      | (some key, i) =>
        match i.expect 58 with
        | (false, i) => .fail i
        | (true, i) =>
          match parseValue fuel depths i with
          | .ok v i =>
            match i.expect 44 with
            | (true, i) => parseMembers fuel depths (o.insert key v) i
            | (false, i) =>
              match i.expect 125 with
              | (true, i) => .ok (.object (o.insert key v)) i
              | (false, i) => .fail i
          | other => other

end

def defaultMaxDepths : Nat := 100

/-- The text of the line from the place of an error on, without control characters. -/
def nearLoop : Nat → Bytes → Input → Bytes
  | 0, err, _ => err
  | fuel + 1, err, i =>
    match i.getc with
    | (none, _) => err
    | (some ch, i) => if ch = 10 then err else if 32 ≤ ch then nearLoop fuel (err ++ [ch]) i else nearLoop fuel err i

def syntaxError (i : Input) : Bytes :=
  nearLoop (i.cur.length + 1) (bytes "syntax error at line " ++ decimal i.line ++ bytes " near: ") i

/-- What `parse(out, s)` gives: the value in `out`, the text of an error, or an
`overflow_error`. -/
inductive ParseResult
  | ok (v : Value)
  | error (err : Bytes)
  | overflow

/-- `parse(out, s)`: one value from the front of the text, whatever follows it. -/
def parse (s : Bytes) : ParseResult :=
  match parseValue (2 * s.length + 2) defaultMaxDepths { cur := s } with
  | .ok v _ => .ok v
  | .fail i => .error (syntaxError i)
  | .overflow => .overflow

end DockerPlugin.Picojson

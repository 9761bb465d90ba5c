import DockerPlugin.Library.HttpReader

namespace Http
open Octets

/-- A text without line ends. -/
def SingleLine (text : Bytes) : Prop := ∀ b ∈ text, b ≠ 13 ∧ b ≠ 10

instance (text : Bytes) : Decidable (SingleLine text) :=
  List.decidableBAll (fun b => b ≠ 13 ∧ b ≠ 10) text

theorem SingleLine.append {a b : Bytes} (first : SingleLine a) (second : SingleLine b) : SingleLine (a ++ b) := by
  intro c member
  rcases List.mem_append.mp member with left | right
  · exact first c left
  · exact second c right

theorem SingleLine.numeral {base : Nat} (wide : 1 < base) (hex : base ≤ 16) (n : Nat) :
    SingleLine (numeral base n) := by
  intro b member
  obtain ⟨low, _⟩ := numeral_printable wide hex member
  constructor <;> rintro rfl <;> exact absurd low (by decide)

theorem SingleLine.signedDecimal (i : Int) : SingleLine (signedDecimal i) := by
  rw [Octets.signedDecimal]
  split
  · exact @SingleLine.append [45] _ (by decide) (numeral (by decide) (by decide) _)
  · exact numeral (by decide) (by decide) _

theorem splitLine_crlf {line : Bytes} (single : SingleLine line) (rest : Bytes) :
    splitLine (line ++ crlf ++ rest) = some (line, rest) := by
  induction line with
  | nil => rfl
  | cons b line ih =>
    have start : ¬(b = 13 ∧ (line ++ crlf ++ rest).head? = some 10) := fun h => (single b (by simp)).1 h.1
    have later := ih fun c member => single c (List.mem_cons_of_mem _ member)
    simp only [List.cons_append, splitLine, if_neg start, later, Option.map_some]

theorem readLine_crlf {line : Bytes} (single : SingleLine line) (rest : Bytes) :
    readLine (line ++ crlf ++ rest) = some (line, rest) := by
  have plain : (line.all fun b => b ≠ 13 ∧ b ≠ 10) = true := by simpa [List.all_eq_true, SingleLine] using single
  simp only [readLine, splitLine_crlf single, Option.filter_some, plain, if_true]

theorem splitLine_length {input line rest : Bytes} (split : splitLine input = some (line, rest)) :
    input.length = line.length + 2 + rest.length := by
  induction input generalizing line with
  | nil => simp [splitLine] at split
  | cons b input ih =>
    simp only [splitLine] at split
    split at split
    · rename_i atEnd
      cases input with
      | nil => simp at atEnd
      | cons c input =>
        cases Option.some.inj split
        simp only [List.length_cons, List.length_nil, List.tail_cons]
        omega
    · obtain ⟨⟨front, back⟩, found, same⟩ := Option.map_eq_some_iff.mp split
      cases same
      have smaller := ih found
      simp only [List.length_cons] at smaller ⊢
      omega

theorem readLine_length {input line rest : Bytes} (read : readLine input = some (line, rest)) :
    input.length = line.length + 2 + rest.length :=
  splitLine_length (Option.filter_eq_some_iff.mp read).1

/-- A field whose name is a token and whose value is one line without surrounding blanks. -/
structure CleanField (field : Field) : Prop where
  named : field.1 ≠ []
  token : ∀ b ∈ field.1, isTokenChar b = true
  single : SingleLine field.2
  trimmed : trim field.2 = field.2

theorem separator : bytes ": " = [58, 32] := rfl

def fieldText (field : Field) : Bytes := field.1 ++ bytes ": " ++ field.2

theorem isTokenChar_printable {b : UInt8} (token : isTokenChar b = true) : b ≠ 13 ∧ b ≠ 10 ∧ b ≠ 58 := by
  refine ⟨?_, ?_, ?_⟩ <;> rintro rfl <;> exact absurd token (by decide)

theorem CleanField.singleLine {field : Field} (clean : CleanField field) : SingleLine (fieldText field) := by
  refine SingleLine.append (SingleLine.append ?_ ?_) clean.single
  · intro b member
    have plain := isTokenChar_printable (clean.token b member)
    exact ⟨plain.1, plain.2.1⟩
  · intro b member
    have value : b = 58 ∨ b = 32 := by simpa [separator] using member
    rcases value with rfl | rfl <;> decide

theorem trim_cons_blank {b : UInt8} (blank : isBlank b = true) (text : Bytes) : trim (b :: text) = trim text := by
  simp only [trim, List.dropWhile_cons, blank, if_true]

theorem trim_of_edges {text : Bytes} (front : ∀ b ∈ text.head?, isBlank b = false)
    (back : ∀ b ∈ text.getLast?, isBlank b = false) : trim text = text := by
  have ahead : text.dropWhile isBlank = text := by
    cases text with
    | nil => rfl
    | cons b text => simp [front b rfl]
  have behind : text.reverse.dropWhile isBlank = text.reverse := by
    rw [List.getLast?_eq_head?_reverse] at back
    cases reversed : text.reverse with
    | nil => rfl
    | cons b rest =>
      rw [reversed] at back
      simp [back b rfl]
  rw [trim, ahead, behind, List.reverse_reverse]

theorem readField_text {field : Field} (clean : CleanField field) : readField (fieldText field) = some field := by
  have colon : fieldText field = field.1 ++ 58 :: 32 :: field.2 := by
    simp [fieldText, separator]
  have inside : ∀ b ∈ field.1, (decide (b ≠ 58)) = true := by
    intro b member
    simpa using (isTokenChar_printable (clean.token b member)).2.2
  have name : (fieldText field).takeWhile (· ≠ 58) = field.1 := by
    rw [colon, List.takeWhile_append_of_pos inside]
    simp
  have value : (fieldText field).dropWhile (· ≠ 58) = 58 :: 32 :: field.2 := by
    rw [colon, List.dropWhile_append_of_pos inside]
    simp
  have accepted : field.1 ≠ [] ∧ field.1.all isTokenChar = true :=
    ⟨clean.named, List.all_eq_true.mpr clean.token⟩
  simp only [readField, name, value, if_pos accepted, trim_cons_blank (show isBlank 32 = true by decide),
    clean.trimmed]

def fieldLines (fields : List Field) : Bytes := (fields.map fun field => fieldText field ++ crlf).flatten

theorem fieldLines_cons (field : Field) (fields : List Field) :
    fieldLines (field :: fields) = fieldText field ++ crlf ++ fieldLines fields := rfl

theorem fieldText_ne_nil (field : Field) : fieldText field ≠ [] := by
  simp [fieldText, separator]

/-- Field lines and the empty line behind them are read back as the fields. -/
theorem readFields_lines {fields : List Field} (clean : ∀ field ∈ fields, CleanField field) (rest : Bytes)
    (fuel : Nat) (enough : fields.length < fuel) :
    readFields fuel (fieldLines fields ++ crlf ++ rest) = some (fields, rest) := by
  induction fields generalizing fuel with
  | nil =>
    obtain ⟨less, rfl⟩ := Nat.exists_eq_add_one_of_ne_zero (show fuel ≠ 0 by omega)
    have line := readLine_crlf (show SingleLine [] by simp [SingleLine]) rest
    simp only [fieldLines, List.map_nil, List.flatten_nil, readFields]
    rw [line]
  | cons field fields ih =>
    obtain ⟨less, rfl⟩ := Nat.exists_eq_add_one_of_ne_zero (show fuel ≠ 0 by omega)
    have cleanField := clean field List.mem_cons_self
    have line := readLine_crlf cleanField.singleLine (fieldLines fields ++ crlf ++ rest)
    have later := ih (fun other member => clean other (List.mem_cons_of_mem _ member))
      less (by simp only [List.length_cons] at enough; omega)
    rw [fieldLines_cons, List.append_assoc, List.append_assoc, ← List.append_assoc (fieldLines fields), readFields,
      line]
    split
    · contradiction
    · rename_i equal
      exact absurd (congrArg Prod.fst (Option.some.inj equal)) (fieldText_ne_nil field)
    · rename_i equal
      cases Option.some.inj equal
      rw [readField_text cleanField, later]

theorem fieldLines_length (fields : List Field) : fields.length ≤ (fieldLines fields).length := by
  induction fields with
  | nil => exact Nat.zero_le _
  | cons field fields ih =>
    simp only [fieldLines_cons, List.length_append, List.length_cons, crlf]
    omega

def chunkText (data : Bytes) : Bytes := hexadecimal data.length ++ crlf ++ data ++ crlf

/-- More fuel than bytes changes nothing. -/
theorem readChunks_fuel {fuel : Nat} {input : Bytes} (enough : input.length < fuel) :
    readChunks fuel input = decodeChunked input := by
  induction fuel using Nat.strongRecOn generalizing input with
  | ind fuel ih =>
    obtain ⟨less, rfl⟩ := Nat.exists_eq_add_one_of_ne_zero (show fuel ≠ 0 by omega)
    by_cases equal : less = input.length
    · rw [equal, decodeChunked]
    simp only [decodeChunked, readChunks]
    cases read : readLine input with
    | none => rfl
    | some parts =>
      obtain ⟨line, rest⟩ := parts
      have shorter := readLine_length read
      simp only
      split
      · rfl
      · rfl
      · rename_i size _
        have first := @ih less (by omega) (rest.drop (size + 3)) (by simp only [List.length_drop]; omega)
        have second := @ih input.length (by omega) (rest.drop (size + 3))
          (by simp only [List.length_drop]; omega)
        rw [first, second]

theorem readChunks_size {size fuel : Nat} {rest : Bytes} :
    readChunks (fuel + 1) (hexadecimal size ++ crlf ++ rest) =
      match size with
      | 0 => (readFields (rest.length + 1) rest).map fun parts => ([], parts.2)
      | size + 1 =>
        if (rest.drop (size + 1)).take 2 = crlf then
          (readChunks fuel (rest.drop (size + 3))).map fun parts => (rest.take (size + 1) ++ parts.1, parts.2)
        else none := by
  have plain : ∀ b ∈ hexadecimal size, decide (b ≠ 59) = true := by
    intro b member
    have digits : ∀ d < 16, (Nat.digitChar d).toNat.toUInt8 ≠ 59 := by decide
    obtain ⟨d, small, rfl⟩ := mem_numeral (by decide) member
    exact decide_eq_true (digits d small)
  have line := readLine_crlf (SingleLine.numeral (show 1 < 16 by decide) (by decide) size) rest
  have whole : (hexadecimal size).takeWhile (· ≠ 59) = hexadecimal size := by
    simpa using @List.takeWhile_append_of_pos _ _ _ [] plain
  rw [readChunks, hexadecimal, line]
  simp only
  rw [← hexadecimal, whole, hexadecimal, readNumeral_numeral (by decide) (by decide)]
  cases size <;> rfl

/-- A chunk in front of a coded text adds its data to the payload. -/
theorem decodeChunked_chunk {data : Bytes} (nonempty : data ≠ []) (rest : Bytes) :
    decodeChunked (chunkText data ++ rest) = (decodeChunked rest).map fun parts => (data ++ parts.1, parts.2) := by
  obtain ⟨size, length⟩ := Nat.exists_eq_add_one_of_ne_zero (show data.length ≠ 0 by simpa using nonempty)
  have shape : chunkText data ++ rest = hexadecimal data.length ++ crlf ++ (data ++ crlf ++ rest) := by
    simp only [chunkText, List.append_assoc]
  have taken : (data ++ crlf ++ rest).take (size + 1) = data := by
    rw [← length, List.append_assoc, List.take_left]
  have ended : ((data ++ crlf ++ rest).drop (size + 1)).take 2 = crlf := by
    rw [← length, List.append_assoc, List.drop_left]
    rfl
  have later : (data ++ crlf ++ rest).drop (size + 3) = rest := by
    have width : size + 3 = (data ++ crlf).length := by simp [length, crlf]
    rw [width, List.drop_left]
  rw [decodeChunked, shape, readChunks_size, length]
  simp only [taken, ended, later, if_true]
  rw [readChunks_fuel]
  simp only [List.length_append]
  omega

/-- The payload of a coded text is shorter than the text. -/
theorem readChunks_shorter {fuel : Nat} {input payload after : Bytes}
    (read : readChunks fuel input = some (payload, after)) : payload.length < input.length := by
  induction fuel generalizing input payload after with
  | zero => cases read
  | succ fuel ih =>
    rw [readChunks] at read
    cases first : readLine input with
    | none => simp [first] at read
    | some parts =>
      obtain ⟨line, rest⟩ := parts
      have length := readLine_length first
      simp only [first] at read
      split at read
      · cases read
      · obtain ⟨_, _, same⟩ := Option.map_eq_some_iff.mp read
        obtain ⟨rfl, _⟩ := Prod.mk.inj same
        simp only [List.length_nil]
        omega
      · rename_i size _
        split at read
        · obtain ⟨⟨later, behind⟩, found, same⟩ := Option.map_eq_some_iff.mp read
          obtain ⟨rfl, _⟩ := Prod.mk.inj same
          have smaller := ih found
          simp only [List.length_append, List.length_take, List.length_drop] at smaller ⊢
          omega
        · cases read

theorem decodeChunked_last (rest : Bytes) : decodeChunked (bytes "0\r\n\r\n" ++ rest) = some ([], rest) := by
  have shape : bytes "0\r\n\r\n" ++ rest = hexadecimal 0 ++ crlf ++ (crlf ++ rest) := rfl
  have trailer := @readFields_lines [] (by simp) rest ((crlf ++ rest).length + 1) (by simp)
  rw [decodeChunked, shape, readChunks_size]
  simp only [fieldLines, List.map_nil, List.flatten_nil, List.nil_append] at trailer ⊢
  rw [trailer, Option.map_some]

theorem readStatusLine_version (rest : Bytes) : readStatusLine (bytes "HTTP/1.1 " ++ rest) =
    if (rest.drop 3).head? = some 32 then (readNumeral 10 (rest.take 3)).map fun code => (code, rest.drop 4) else none := by
  have version : (bytes "HTTP/1.1 " ++ rest).take 9 = bytes "HTTP/1.1 " := rfl
  simp only [readStatusLine, version, true_and]
  rfl

theorem readStatusLine_text {code : Nat} (low : 100 ≤ code) (high : code < 1000) (reason : Bytes) :
    readStatusLine (bytes "HTTP/1.1 " ++ decimal code ++ bytes " " ++ reason) = some (code, reason) := by
  have digits : (decimal code).length = 3 := numeral_length (by decide) low high
  have behind (n : Nat) : (decimal code ++ 32 :: reason).drop (3 + n) = (32 :: reason).drop n := by
    rw [← digits, List.drop_append]
    simp
  have line : bytes "HTTP/1.1 " ++ decimal code ++ bytes " " ++ reason =
      bytes "HTTP/1.1 " ++ (decimal code ++ 32 :: reason) := by
    simp only [List.append_assoc]
    rfl
  rw [line, readStatusLine_version, if_pos (by rw [behind 0]; rfl), behind 1, ← digits, List.take_left, decimal,
    readNumeral_numeral (by decide) (by decide), Option.map_some]
  rfl

/-- A status line is not read as another code than the number in it. -/
theorem readStatusLine_code {status : Int} {reason reason' : Bytes} {code : Nat}
    (read : readStatusLine (bytes "HTTP/1.1 " ++ signedDecimal status ++ bytes " " ++ reason) = some (code, reason')) :
    (code : Int) = status := by
  have line : bytes "HTTP/1.1 " ++ signedDecimal status ++ bytes " " ++ reason =
      bytes "HTTP/1.1 " ++ (signedDecimal status ++ 32 :: reason) := by
    simp only [List.append_assoc]
    rfl
  rw [line, readStatusLine_version] at read
  split at read
  · rename_i blank
    obtain ⟨value, number, same⟩ := Option.map_eq_some_iff.mp read
    obtain rfl : value = code := congrArg Prod.fst same
    rcases Nat.lt_trichotomy (signedDecimal status).length 3 with short | exact | long
    · have inside : (32 : UInt8) ∈ (signedDecimal status ++ 32 :: reason).take 3 := by
        rw [List.take_append]
        refine List.mem_append_right _ ?_
        rw [show 3 - (signedDecimal status).length = 2 - (signedDecimal status).length + 1 by omega, List.take_succ_cons]
        exact List.mem_cons_self
      obtain ⟨d, digit⟩ := readNumeral_digits number inside
      cases digit
    · rw [← exact, List.take_left] at number
      exact signedDecimal_read number
    · have inside : (32 : UInt8) ∈ signedDecimal status := by
        rw [List.drop_append_of_le_length (by omega), List.head?_append_of_ne_nil _ (by simpa using long)] at blank
        exact List.mem_of_mem_drop (List.mem_of_head? blank)
      exact absurd rfl (signedDecimal_solid inside)
  · cases read

theorem readResponse_line {line rest after : Bytes} {response : Response} (single : SingleLine line)
    (read : readResponse (line ++ crlf ++ rest) = some (response, after)) :
    readStatusLine line = some (response.status, response.reason) := by
  rw [readResponse, readLine_crlf single] at read
  dsimp only at read
  split at read
  · rename_i status reason fields content statusLine _
    obtain ⟨parts, -, same⟩ := Option.map_eq_some_iff.mp read
    obtain ⟨rfl, -⟩ := Prod.mk.inj same
    exact statusLine
  · cases read

/-- The text of a header section of three-digit code, and what the reader makes of it. -/
theorem readResponse_text {code : Nat} (low : 100 ≤ code) (high : code < 1000) {reason : Bytes}
    (single : SingleLine reason) {fields : List Field} (clean : ∀ field ∈ fields, CleanField field)
    (content : Bytes) :
    readResponse (bytes "HTTP/1.1 " ++ decimal code ++ bytes " " ++ reason ++ crlf ++ fieldLines fields ++ crlf ++
        content) =
      (readBody code fields content).map fun parts => (⟨code, reason, fields, parts.1⟩, parts.2) := by
  have line : SingleLine (bytes "HTTP/1.1 " ++ decimal code ++ bytes " " ++ reason) := by
    refine SingleLine.append (SingleLine.append (SingleLine.append ?_ ?_) ?_) single
    · decide
    · exact SingleLine.numeral (by decide) (by decide) code
    · decide
  have first := readLine_crlf line (fieldLines fields ++ crlf ++ content)
  have length := fieldLines_length fields
  have second := readFields_lines clean content ((fieldLines fields ++ crlf ++ content).length + 1)
    (by simp only [List.length_append]; omega)
  rw [List.append_assoc _ (fieldLines fields), List.append_assoc _ (fieldLines fields ++ crlf), readResponse, first]
  simp only [readStatusLine_text low high, second]

theorem readBody_length {code : Nat} {fields : List Field} {body : Bytes} (allowed : forbidsBody code = false)
    (uncoded : valuesOf (bytes "transfer-encoding") fields = [])
    (length : valuesOf (bytes "content-length") fields = [decimal body.length]) (rest : Bytes) :
    readBody code fields (body ++ rest) = some (body, rest) := by
  have fits : body.length ≤ (body ++ rest).length := by simp
  simp only [readBody, allowed, Bool.false_eq_true, if_false, uncoded, length, decimal,
    readNumeral_numeral (show 1 < 10 by decide) (by decide), if_pos fits, List.take_left, List.drop_left]

/-- A stream of which the front reads as a response reads as that response and the others. -/
theorem readResponses_step {fuel : Nat} {front rest : Bytes} {response : Response} (nonempty : front ≠ [])
    (first : readResponse (front ++ rest) = some (response, rest)) :
    readResponses (fuel + 1) (front ++ rest) = (readResponses fuel rest).map (response :: ·) := by
  obtain ⟨b, tail, rfl⟩ := List.exists_cons_of_ne_nil nonempty
  simp only [List.cons_append] at first ⊢
  simp only [readResponses, first]

end Http

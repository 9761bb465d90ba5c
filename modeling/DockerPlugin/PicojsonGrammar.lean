import DockerPlugin.PicojsonStrings
import Mathlib.Data.List.DropRight

namespace DockerPlugin.Picojson
open Octets

/-! ### The grammar of values -/

/-- White space between tokens. -/
def Blank (w : Bytes) : Prop := ∀ b ∈ w, Input.isSpace b = true

/-- The text of a number: a run of the bytes that `_parse_number` gathers, which the C library then
reads to its end, as an integer if it can. -/
structure NumberText (text : Bytes) (v : Value) : Prop where
  head : ∃ b rest, text = b :: rest ∧ (isDigit b = true ∨ b = 45)
  gathered : ∀ b ∈ text, isNumberByte b = true
  value : (∃ n, strtoimax text = some n ∧ v = .int64 n) ∨
    strtoimax text = none ∧ ∃ f, strtod text = .finite f ∧ v = .number f

namespace Object

/-- Members assigned one after the other, so that the last one of a name counts. -/
def ofMembers (ms : List (Bytes × Value)) (o : Object) : Object := ms.foldl (fun o m => o.insert m.1 m.2) o

end Object

/-- What a text can be the text of: a value, a value with white space around it, the items between
two square brackets, a member of an object with white space around it, or the members between two
braces. Items and members are at least one. -/
inductive Phrase
  | value (v : Value)
  | element (v : Value)
  | items (a : List Value)
  | member (key : Bytes) (v : Value)
  | members (ms : List (Bytes × Value))

/-- The texts of a phrase where that many arrays may still be opened. An object needs one of them
too, but leaves all of them to its members. -/
inductive Spells : Nat → Phrase → Bytes → Prop
  | null {depths : Nat} : Spells depths (.value .null) (bytes "null")
  | boolean {depths : Nat} {b : Bool} : Spells depths (.value (.boolean b)) (if b then bytes "true" else bytes "false")
  | number {depths : Nat} {text : Bytes} {v : Value} : NumberText text v → Spells depths (.value v) text
  | string {depths : Nat} {text s : Bytes} : Pieces text s → Spells depths (.value (.string s)) (34 :: text ++ [34])
  | emptyArray {depths : Nat} {w : Bytes} : Blank w → Spells (depths + 1) (.value (.array [])) (91 :: w ++ [93])
  | array {depths : Nat} {text : Bytes} {a : List Value} : Spells depths (.items a) text →
      Spells (depths + 1) (.value (.array a)) (91 :: text ++ [93])
  | emptyObject {depths : Nat} {w : Bytes} : Blank w → Spells (depths + 1) (.value (.object [])) (123 :: w ++ [125])
  | object {depths : Nat} {text : Bytes} {ms : List (Bytes × Value)} : Spells (depths + 1) (.members ms) text →
      Spells (depths + 1) (.value (.object (Object.ofMembers ms []))) (123 :: text ++ [125])
  | element {depths : Nat} {w text w' : Bytes} {v : Value} : Blank w → Spells depths (.value v) text → Blank w' →
      Spells depths (.element v) (w ++ text ++ w')
  | lastItem {depths : Nat} {text : Bytes} {v : Value} : Spells depths (.element v) text →
      Spells depths (.items [v]) text
  | item {depths : Nat} {text rest : Bytes} {v : Value} {a : List Value} : Spells depths (.element v) text →
      Spells depths (.items a) rest → Spells depths (.items (v :: a)) (text ++ 44 :: rest)
  | member {depths : Nat} {w name w' text key : Bytes} {v : Value} : Blank w → Pieces name key → Blank w' →
      Spells depths (.element v) text → Spells depths (.member key v) (w ++ 34 :: name ++ 34 :: w' ++ 58 :: text)
  | lastMember {depths : Nat} {text key : Bytes} {v : Value} : Spells depths (.member key v) text →
      Spells depths (.members [(key, v)]) text
  | moreMembers {depths : Nat} {text rest key : Bytes} {v : Value} {ms : List (Bytes × Value)} :
      Spells depths (.member key v) text → Spells depths (.members ms) rest →
      Spells depths (.members ((key, v) :: ms)) (text ++ 44 :: rest)

/-- A number goes on as long as there are bytes for it. -/
def Ends (v : Value) (t : Bytes) : Prop := v.isNumeric = true → Stops t

/-- A text behind its white space. -/
def ink (t : Bytes) : Bytes := t.dropWhile Input.isSpace

theorem ink_blank {w : Bytes} (blank : Blank w) (t : Bytes) : ink (w ++ t) = ink t :=
  List.dropWhile_append_of_pos blank

theorem ink_cons {b : UInt8} (visible : Input.isSpace b = false) (t : Bytes) : ink (b :: t) = b :: t := by
  rw [ink, List.dropWhile_cons, visible]
  rfl

theorem ink_append {b : UInt8} {text rest : Bytes} (first : ink text = b :: rest) (t : Bytes) :
    ink (text ++ t) = b :: (rest ++ t) := by
  rw [ink, List.dropWhile_append]
  rw [ink] at first
  simp [first]

theorem Blank.nil : Blank [] := fun _ member => absurd member List.not_mem_nil

/-- The white space in front of a text. -/
theorem exists_blank (t : Bytes) : ∃ w, Blank w ∧ t = w ++ ink t :=
  ⟨_, fun _ member => List.all_eq_true.mp List.all_takeWhile _ member, List.takeWhile_append_dropWhile.symm⟩

theorem numberByte_visible {b : UInt8} (numeric : isNumberByte b = true) : Input.isSpace b = false := by
  by_contra space
  rw [Bool.not_eq_false] at space
  simp only [Input.isSpace, decide_eq_true_eq] at space
  rcases space with rfl | rfl | rfl | rfl <;> cases numeric

theorem stops_cons {b : UInt8} (other : isNumberByte b = false) (t : Bytes) : Stops (b :: t) := by
  intro c first
  obtain rfl : b = c := by simpa using first
  exact other

theorem Blank.stops {w t : Bytes} (blank : Blank w) (stops : Stops t) : Stops (w ++ t) := by
  cases w with
  | nil => exact stops
  | cons b w =>
    apply stops_cons
    by_contra numeric
    rw [Bool.not_eq_false] at numeric
    have space := blank b List.mem_cons_self
    rw [numberByte_visible numeric] at space
    cases space

theorem NumberText.numeric {text : Bytes} {v : Value} (number : NumberText text v) : v.isNumeric = true := by
  rcases number.value with ⟨n, -, rfl⟩ | ⟨-, f, -, rfl⟩ <;> rfl

/-- The first byte of a value is no white space and closes no bracket. -/
theorem Spells.value_head {depths : Nat} {v : Value} {text : Bytes} (spells : Spells depths (.value v) text) :
    ∃ b rest, text = b :: rest ∧ Input.isSpace b = false ∧ b ≠ 93 ∧ b ≠ 125 := by
  cases spells with
  | null => exact ⟨_, _, rfl, rfl, by decide, by decide⟩
  | @boolean _ b => cases b <;> exact ⟨_, _, rfl, rfl, by decide, by decide⟩
  | number number =>
    obtain ⟨b, rest, same, first⟩ := number.head
    have gathered := number.gathered b (by rw [same]; exact List.mem_cons_self)
    refine ⟨b, rest, same, numberByte_visible gathered, ?_, ?_⟩ <;> rintro rfl <;> cases gathered
  | string | emptyArray | array | emptyObject | object => exact ⟨_, _, rfl, rfl, by decide, by decide⟩

/-- A text that begins with neither closing bracket behind its white space. -/
def Headed (text : Bytes) : Prop := ∃ b rest, ink text = b :: rest ∧ b ≠ 93 ∧ b ≠ 125

theorem Headed.append {text : Bytes} (headed : Headed text) (t : Bytes) : Headed (text ++ t) := by
  obtain ⟨b, rest, first, apart⟩ := headed
  exact ⟨b, _, ink_append first t, apart⟩

theorem Headed.blank {w text : Bytes} (headed : Headed text) (blank : Blank w) : Headed (w ++ text) := by
  rw [Headed, ink_blank blank]
  exact headed

namespace Spells
variable {depths : Nat} {text : Bytes}

theorem value_headed {v : Value} (spells : Spells depths (.value v) text) : ink text = text ∧ Headed text := by
  obtain ⟨b, rest, rfl, visible, apart⟩ := spells.value_head
  exact ⟨ink_cons visible rest, b, rest, ink_cons visible rest, apart⟩

theorem element_headed {v : Value} (spells : Spells depths (.element v) text) : Headed text := by
  cases spells with
  | element blank value _ => exact (value.value_headed.2.blank blank).append _

theorem items_headed {a : List Value} (spells : Spells depths (.items a) text) : Headed text := by
  cases spells with
  | lastItem element => exact element.element_headed
  | item element _ => exact element.element_headed.append _

theorem member_headed {key : Bytes} {v : Value} (spells : Spells depths (.member key v) text) : Headed text := by
  cases spells with
  | @member _ w name w' text _ _ blank _ _ _ =>
    have quote : Headed (34 :: (name ++ 34 :: w' ++ 58 :: text)) :=
      ⟨34, _, ink_cons rfl _, by decide, by decide⟩
    simpa using quote.blank blank

theorem members_headed {ms : List (Bytes × Value)} (spells : Spells depths (.members ms) text) : Headed text := by
  cases spells with
  | lastMember member => exact member.member_headed
  | moreMembers member _ => exact member.member_headed.append _

end Spells

/-! ### Every text of the grammar is read -/

namespace Input

theorem skipWs_found {i : Input} {b : UInt8} {t : Bytes} (text : ink i.rest = b :: t) :
    ∃ j, i.skipWs.getc = (some b, j) ∧ j.rest = t ∧ j.ungetc.rest = b :: t :=
  getc_cons (by rw [skipWs_rest]; exact text)

theorem expect_found {i : Input} {b : UInt8} {t : Bytes} (text : ink i.rest = b :: t) :
    ∃ j, i.expect b = (true, j) ∧ j.rest = t := by
  obtain ⟨j, got, after, -⟩ := skipWs_found text
  exact ⟨j, by simp [expect, got], after⟩

theorem expect_other (other : UInt8) {i : Input} {b : UInt8} {t : Bytes} (text : ink i.rest = b :: t) (apart : b ≠ other) :
    ∃ j, i.expect other = (false, j) ∧ j.rest = b :: t := by
  obtain ⟨j, got, -, back⟩ := skipWs_found text
  exact ⟨j.ungetc, by simp [expect, got, apart], back⟩

end Input

theorem parseNumeric_complete {i : Input} {text t : Bytes} {v : Value} (number : NumberText text v)
    (here : i.rest = text ++ t) (stops : Stops t) : ∃ j, parseNumeric i = .ok v j ∧ j.rest = t := by
  obtain ⟨j, read, after⟩ := parseNumber_all here number.gathered stops
  obtain ⟨b, rest, written, -⟩ := number.head
  have nonempty : text.isEmpty = false := by rw [written]; rfl
  refine ⟨j, ?_, after⟩
  rcases number.value with ⟨n, int, rfl⟩ | ⟨none, f, double, rfl⟩
  · simp [parseNumeric, read, nonempty, int]
  · simp [parseNumeric, read, nonempty, none, double]

/-- What is read of a phrase, given enough rounds: from behind any white space, up to whatever may
follow the phrase. -/
def Phrase.Reads (depths : Nat) (text : Bytes) : Phrase → Prop
  | .value v => ∀ {fuel : Nat} {i : Input} {t : Bytes}, 2 * text.length ≤ fuel → ink i.rest = text ++ t → Ends v t →
      ∃ j, parseValue fuel depths i = .ok v j ∧ j.rest = t
  | .element v => ∀ {fuel : Nat} {i : Input} {t : Bytes}, 2 * text.length ≤ fuel → ink i.rest = ink (text ++ t) → Stops t →
      ∃ j, parseValue fuel depths i = .ok v j ∧ ink j.rest = ink t
  | .items a => ∀ {fuel : Nat} {acc : List Value} {i : Input} {t : Bytes}, 2 * text.length < fuel →
      ink i.rest = ink (text ++ 93 :: t) → ∃ j, parseItems fuel depths acc i = .ok (.array (acc ++ a)) j ∧ j.rest = t
  | .member key v => ∀ {fuel : Nat} {i : Input} {t : Bytes}, 2 * text.length ≤ fuel → ink i.rest = ink (text ++ t) → Stops t →
      ∃ quote name colon j, i.expect 34 = (true, quote) ∧ parseString quote = (some key, name) ∧
        name.expect 58 = (true, colon) ∧ parseValue fuel depths colon = .ok v j ∧ ink j.rest = ink t
  | .members ms => ∀ {fuel : Nat} {acc : Object} {i : Input} {t : Bytes}, 2 * text.length < fuel →
      ink i.rest = ink (text ++ 125 :: t) →
      ∃ j, parseMembers fuel depths acc i = .ok (.object (Object.ofMembers ms acc)) j ∧ j.rest = t

theorem reads_constant {depths : Nat} {v : Value} {first : UInt8} (text : Bytes)
    (starts : ∀ (fuel : Nat) (i j : Input), i.skipWs.getc = (some first, j) →
      parseValue (fuel + 1) depths i = parseConstant text v j) :
    (Phrase.value v).Reads depths (first :: text) := by
  intro fuel i t enough here _
  obtain ⟨j, got, after, -⟩ := Input.skipWs_found here
  obtain ⟨k, met, left⟩ := Input.matchText_met after
  rw [List.length_cons] at enough
  obtain ⟨fuel, rfl⟩ : ∃ n, fuel = n + 1 := ⟨fuel - 1, by omega⟩
  exact ⟨k, by rw [starts fuel i j got, parseConstant, met], left⟩

theorem reads_number {depths : Nat} {text : Bytes} {v : Value} (number : NumberText text v) :
    (Phrase.value v).Reads depths text := by
  intro fuel i t enough here ends
  obtain ⟨b, rest, written, numeric⟩ := number.head
  have apart := fun k other => numeric_apart (k := k) numeric other
  rw [written, List.cons_append] at here
  obtain ⟨j, got, -, back⟩ := Input.skipWs_found here
  rw [← List.cons_append, ← written] at back
  obtain ⟨k, read, after⟩ := parseNumeric_complete number back (ends number.numeric)
  rw [written, List.length_cons] at enough
  obtain ⟨fuel, rfl⟩ : ∃ n, fuel = n + 1 := ⟨fuel - 1, by omega⟩
  refine ⟨k, ?_, after⟩
  simp [parseValue, got, apart 110 (by decide), apart 102 (by decide), apart 116 (by decide), apart 34 (by decide),
    apart 91 (by decide), apart 123 (by decide), numeric, read]

theorem reads_string {depths : Nat} {text s : Bytes} (pieces : Pieces text s) :
    (Phrase.value (.string s)).Reads depths (34 :: text ++ [34]) := by
  intro fuel i t enough here _
  obtain ⟨j, got, after, -⟩ := Input.skipWs_found (b := 34) (t := text ++ 34 :: t) (by simpa using here)
  obtain ⟨k, read, left⟩ := parseString_complete pieces after
  simp only [List.length_append, List.length_cons] at enough
  obtain ⟨fuel, rfl⟩ : ∃ n, fuel = n + 1 := ⟨fuel - 1, by omega⟩
  exact ⟨k, by simp [parseValue, got, read], left⟩

/-- An array: its opening bracket, and then what stands up to the closing one. -/
theorem reads_array {depths : Nat} {text : Bytes} {a : List Value}
    (inner : (Blank text ∧ a = []) ∨ Headed text ∧ (Phrase.items a).Reads depths text) :
    (Phrase.value (.array a)).Reads (depths + 1) (91 :: text ++ [93]) := by
  intro fuel i t enough here _
  obtain ⟨j, got, after, -⟩ := Input.skipWs_found (b := 91) (t := text ++ 93 :: t) (by simpa using here)
  simp only [List.length_append, List.length_cons] at enough
  obtain ⟨fuel, rfl⟩ : ∃ n, fuel = n + 1 := ⟨fuel - 1, by omega⟩
  rcases inner with ⟨blank, rfl⟩ | ⟨headed, reads⟩
  · obtain ⟨k, closed, left⟩ := Input.expect_found (b := 93) (t := t) (by rw [after, ink_blank blank]; exact ink_cons rfl t)
    exact ⟨k, by simp [parseValue, got, closed], left⟩
  · obtain ⟨b, rest, first, apart, -⟩ := headed.append (93 :: t)
    obtain ⟨k, opened, left⟩ := Input.expect_other 93 (by rw [after]; exact first) apart
    have visible : ink k.rest = ink (text ++ 93 :: t) := by
      rw [left, ← first]
      exact List.dropWhile_idempotent _ _
    obtain ⟨l, parsed, behind⟩ := @reads fuel [] k _ (by omega) visible
    exact ⟨l, by simpa [parseValue, got, opened] using parsed, behind⟩

theorem reads_object {depths : Nat} {text : Bytes} {ms : List (Bytes × Value)}
    (inner : (Blank text ∧ ms = []) ∨ Headed text ∧ (Phrase.members ms).Reads (depths + 1) text) :
    (Phrase.value (.object (Object.ofMembers ms []))).Reads (depths + 1) (123 :: text ++ [125]) := by
  intro fuel i t enough here _
  obtain ⟨j, got, after, -⟩ := Input.skipWs_found (b := 123) (t := text ++ 125 :: t) (by simpa using here)
  simp only [List.length_append, List.length_cons] at enough
  obtain ⟨fuel, rfl⟩ : ∃ n, fuel = n + 1 := ⟨fuel - 1, by omega⟩
  rcases inner with ⟨blank, rfl⟩ | ⟨headed, reads⟩
  · obtain ⟨k, closed, left⟩ := Input.expect_found (b := 125) (t := t) (by rw [after, ink_blank blank]; exact ink_cons rfl t)
    exact ⟨k, by simp [parseValue, got, closed, Object.ofMembers], left⟩
  · obtain ⟨b, rest, first, -, apart⟩ := headed.append (125 :: t)
    obtain ⟨k, opened, left⟩ := Input.expect_other 125 (by rw [after]; exact first) apart
    have visible : ink k.rest = ink (text ++ 125 :: t) := by
      rw [left, ← first]
      exact List.dropWhile_idempotent _ _
    obtain ⟨l, parsed, behind⟩ := @reads fuel [] k _ (by omega) visible
    exact ⟨l, by simpa [parseValue, got, opened] using parsed, behind⟩

theorem reads_element {depths : Nat} {w text w' : Bytes} {v : Value} (blank : Blank w) (visible : ink text = text)
    (headed : Headed text) (blank' : Blank w') (reads : (Phrase.value v).Reads depths text) :
    (Phrase.element v).Reads depths (w ++ text ++ w') := by
  intro fuel i t enough here stops
  simp only [List.length_append] at enough
  obtain ⟨b, rest, first, -⟩ := headed
  have source : ink i.rest = text ++ (w' ++ t) := by
    rw [here, List.append_assoc, List.append_assoc, ink_blank blank, ink_append first, ← List.cons_append, ← first, visible]
  obtain ⟨j, parsed, after⟩ := @reads fuel _ _ (by omega) source fun _ => blank'.stops stops
  exact ⟨j, parsed, by rw [after, ink_blank blank']⟩

theorem reads_member {depths : Nat} {w name w' text key : Bytes} {v : Value} (blank : Blank w) (pieces : Pieces name key)
    (blank' : Blank w') (reads : (Phrase.element v).Reads depths text) :
    (Phrase.member key v).Reads depths (w ++ 34 :: name ++ 34 :: w' ++ 58 :: text) := by
  intro fuel i t enough here stops
  simp only [List.length_append, List.length_cons] at enough
  have source : ink i.rest = 34 :: (name ++ 34 :: (w' ++ 58 :: (text ++ t))) := by
    simp only [here, List.append_assoc, List.cons_append]
    rw [ink_blank blank, ink_cons rfl]
  obtain ⟨quote, quoted, afterQuote⟩ := Input.expect_found source
  obtain ⟨last, named, afterName⟩ := parseString_complete pieces afterQuote
  obtain ⟨colon, met, afterColon⟩ := Input.expect_found (i := last) (b := 58) (t := text ++ t)
    (by rw [afterName, ink_blank blank']; exact ink_cons rfl _)
  obtain ⟨j, parsed, after⟩ := @reads fuel colon _ (by omega) (by rw [afterColon]) stops
  exact ⟨quote, last, colon, j, quoted, named, met, parsed, after⟩

/-- The last of the items: no comma comes behind it, but the bracket. -/
theorem reads_lastItem {depths : Nat} {text : Bytes} {v : Value} (reads : (Phrase.element v).Reads depths text) :
    (Phrase.items [v]).Reads depths text := by
  intro fuel acc i t enough here
  obtain ⟨fuel, rfl⟩ : ∃ n, fuel = n + 1 := ⟨fuel - 1, by omega⟩
  obtain ⟨j, parsed, after⟩ := @reads fuel _ _ (by omega) here (stops_cons rfl t)
  rw [ink_cons rfl] at after
  obtain ⟨k, noComma, left⟩ := Input.expect_other 44 after (by decide)
  obtain ⟨l, closed, behind⟩ := Input.expect_found (i := k) (by rw [left]; exact ink_cons rfl t)
  exact ⟨l, by simp [parseItems, parsed, noComma, closed], behind⟩

theorem reads_item {depths : Nat} {text rest : Bytes} {v : Value} {a : List Value}
    (reads : (Phrase.element v).Reads depths text) (later : (Phrase.items a).Reads depths rest) :
    (Phrase.items (v :: a)).Reads depths (text ++ 44 :: rest) := by
  intro fuel acc i t enough here
  rw [List.length_append, List.length_cons] at enough
  rw [List.append_assoc, List.cons_append] at here
  obtain ⟨fuel, rfl⟩ : ∃ n, fuel = n + 1 := ⟨fuel - 1, by omega⟩
  obtain ⟨j, parsed, after⟩ := @reads fuel _ _ (by omega) here (stops_cons rfl _)
  rw [ink_cons rfl] at after
  obtain ⟨k, comma, left⟩ := Input.expect_found after
  obtain ⟨l, more, behind⟩ := @later fuel (acc ++ [v]) k _ (by omega) (by rw [left])
  exact ⟨l, by simpa [parseItems, parsed, comma] using more, behind⟩

theorem reads_lastMember {depths : Nat} {text key : Bytes} {v : Value} (reads : (Phrase.member key v).Reads depths text) :
    (Phrase.members [(key, v)]).Reads depths text := by
  intro fuel acc i t enough here
  obtain ⟨fuel, rfl⟩ : ∃ n, fuel = n + 1 := ⟨fuel - 1, by omega⟩
  obtain ⟨quote, name, colon, j, quoted, named, met, parsed, after⟩ :=
    @reads fuel _ _ (by omega) here (stops_cons rfl t)
  rw [ink_cons rfl] at after
  obtain ⟨k, noComma, left⟩ := Input.expect_other 44 after (by decide)
  obtain ⟨l, closed, behind⟩ := Input.expect_found (i := k) (by rw [left]; exact ink_cons rfl t)
  exact ⟨l, by simp [parseMembers, quoted, named, met, parsed, noComma, closed, Object.ofMembers], behind⟩

theorem reads_moreMembers {depths : Nat} {text rest key : Bytes} {v : Value} {ms : List (Bytes × Value)}
    (reads : (Phrase.member key v).Reads depths text) (later : (Phrase.members ms).Reads depths rest) :
    (Phrase.members ((key, v) :: ms)).Reads depths (text ++ 44 :: rest) := by
  intro fuel acc i t enough here
  rw [List.length_append, List.length_cons] at enough
  rw [List.append_assoc, List.cons_append] at here
  obtain ⟨fuel, rfl⟩ : ∃ n, fuel = n + 1 := ⟨fuel - 1, by omega⟩
  obtain ⟨quote, name, colon, j, quoted, named, met, parsed, after⟩ :=
    @reads fuel _ _ (by omega) here (stops_cons rfl _)
  rw [ink_cons rfl] at after
  obtain ⟨k, comma, left⟩ := Input.expect_found after
  obtain ⟨l, more, behind⟩ := @later fuel (acc.insert key v) k _ (by omega) (by rw [left])
  exact ⟨l, by simpa [parseMembers, quoted, named, met, parsed, comma, Object.ofMembers] using more, behind⟩

/-- Every phrase of the grammar is read, with two rounds for each of its bytes. -/
theorem Spells.reads {depths : Nat} {p : Phrase} {text : Bytes} (spells : Spells depths p text) : p.Reads depths text := by
  induction spells with
  | null => exact reads_constant (bytes "ull") fun fuel i j got => by simp [parseValue, got]
  | @boolean _ b =>
    cases b with
    | false => exact reads_constant (bytes "alse") fun fuel i j got => by simp [parseValue, got]
    | true => exact reads_constant (bytes "rue") fun fuel i j got => by simp [parseValue, got]
  | number number => exact reads_number number
  | string pieces => exact reads_string pieces
  | emptyArray blank => exact reads_array (.inl ⟨blank, rfl⟩)
  | array items reads => exact reads_array (.inr ⟨items.items_headed, reads⟩)
  | emptyObject blank => exact @reads_object _ _ [] (.inl ⟨blank, rfl⟩)
  | object members reads => exact reads_object (.inr ⟨members.members_headed, reads⟩)
  | element blank value blank' reads =>
    exact reads_element blank value.value_headed.1 value.value_headed.2 blank' reads
  | lastItem _ reads => exact reads_lastItem reads
  | item _ _ reads later => exact reads_item reads later
  | member blank pieces blank' _ reads => exact reads_member blank pieces blank' reads
  | lastMember _ reads => exact reads_lastMember reads
  | moreMembers _ _ reads later => exact reads_moreMembers reads later

end DockerPlugin.Picojson

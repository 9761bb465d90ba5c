import DockerPlugin.PicojsonInput
import DockerPlugin.ObjectLaws

namespace DockerPlugin.Picojson
open Octets

/-! ### Strings -/

/-- The three ways in which a byte of a string is written. -/
inductive Escaped (c : UInt8) : Bytes → Prop
  | plain : 32 ≤ c → c ≠ 34 → c ≠ 92 → Escaped c [c]
  | letter (e : UInt8) : e ≠ 117 → unescape e = some c → Escaped c [92, e]
  | code (high low : UInt8) : digitValue high = some (c.toNat / 16) → digitValue low = some (c.toNat % 16) →
    c.toNat < 128 → Escaped c [92, 117, 48, 48, high, low]

theorem Escaped.ofLetter {c k e : UInt8} (same : c = k) (other : e ≠ 117) (known : unescape e = some k) :
    Escaped c [92, e] := .letter e other (same ▸ known)

theorem digitValue_hexDigit {n : Nat} (small : n < 16) : digitValue (hexDigit n) = some n :=
  digitValue_digitChar n small

theorem serializeStrChar_escaped (c : UInt8) : Escaped c (serializeStrChar c) := by
  unfold serializeStrChar
  split
  · exact .ofLetter ‹_› (e := 34) (by decide) rfl
  split
  · exact .ofLetter ‹_› (e := 92) (by decide) rfl
  split
  · exact .ofLetter ‹_› (e := 47) (by decide) rfl
  split
  · exact .ofLetter ‹_› (e := 98) (by decide) rfl
  split
  · exact .ofLetter ‹_› (e := 102) (by decide) rfl
  split
  · exact .ofLetter ‹_› (e := 110) (by decide) rfl
  split
  · exact .ofLetter ‹_› (e := 114) (by decide) rfl
  split
  · exact .ofLetter ‹_› (e := 116) (by decide) rfl
  split
  · rename_i control
    have small : c.toNat < 128 := by
      rcases control with low | rfl
      · exact (UInt8.lt_iff_toNat_lt.mp low).trans (by decide)
      · decide
    exact .code _ _ (digitValue_hexDigit (by omega)) (digitValue_hexDigit (by omega)) small
  · rename_i quote backslash _ _ _ _ _ _ printable
    exact .plain (UInt8.not_lt.mp fun low => printable (.inl low)) quote backslash

theorem encodeCodepoint_ascii {c : UInt8} (small : c.toNat < 128) : encodeCodepoint c.toNat = [c] := by
  rw [encodeCodepoint, if_pos small]
  simp

theorem parseCodepoint_ascii {i : Input} {c high low : UInt8} {t : Bytes} (text : i.rest = 48 :: 48 :: high :: low :: t)
    (first : digitValue high = some (c.toNat / 16)) (second : digitValue low = some (c.toNat % 16))
    (small : c.toNat < 128) : ∃ j, parseCodepoint i = (some [c], j) ∧ j.rest = t := by
  obtain ⟨a, got₁, after₁, -⟩ := Input.getc_cons text
  obtain ⟨b, got₂, after₂, -⟩ := Input.getc_cons after₁
  obtain ⟨d, got₃, after₃, -⟩ := Input.getc_cons after₂
  obtain ⟨j, got₄, after₄, -⟩ := Input.getc_cons after₃
  have zero : digitValue 48 = some 0 := rfl
  have value : c.toNat / 16 * 16 + c.toNat % 16 = c.toNat := Nat.div_add_mod' _ _
  have read : parseQuadhex i = (some c.toNat, j) := by
    simp [parseQuadhex, parseQuadhexLoop, got₁, got₂, got₃, got₄, zero, first, second, value]
  refine ⟨j, ?_, after₄⟩
  rw [parseCodepoint, read]
  dsimp only
  rw [if_neg (by omega), encodeCodepoint_ascii small]

theorem parseStringLoop_serialize (out : Bytes) {fuel : Nat} {s t : Bytes} {i : Input}
    (text : i.rest = s.flatMap serializeStrChar ++ 34 :: t) (enough : s.length < fuel) : ∃ j, parseStringLoop fuel out i = (some (out ++ s), j) ∧ j.rest = t := by
  induction s generalizing fuel out i with
  | nil =>
    cases fuel with
    | zero => simp at enough
    | succ fuel =>
      obtain ⟨j, got, after, -⟩ := Input.getc_cons (by simpa using text)
      exact ⟨j, by simp [parseStringLoop, got], after⟩
  | cons c s ih =>
    cases fuel with
    | zero => simp at enough
    | succ fuel =>
      have more : s.length < fuel := by simpa using enough
      rw [List.flatMap_cons, List.append_assoc] at text
      have written := serializeStrChar_escaped c
      rw [show out ++ c :: s = out ++ [c] ++ s by simp]
      generalize serializeStrChar c = escape at written text
      cases written with
      | plain printable quote backslash =>
        obtain ⟨j, got, after, -⟩ := Input.getc_cons text
        obtain ⟨k, loop, left⟩ := ih (out ++ [c]) after more
        exact ⟨k, by simp [parseStringLoop, got, UInt8.not_lt.mpr printable, quote, backslash, loop], left⟩
      | letter e other known =>
        obtain ⟨a, got₁, after₁, -⟩ := Input.getc_cons text
        obtain ⟨j, got₂, after₂, -⟩ := Input.getc_cons after₁
        obtain ⟨k, loop, left⟩ := ih (out ++ [c]) after₂ more
        exact ⟨k, by simp [parseStringLoop, got₁, got₂, other, known, loop], left⟩
      | code high low first second small =>
        obtain ⟨a, got₁, after₁, -⟩ := Input.getc_cons text
        obtain ⟨b, got₂, after₂, -⟩ := Input.getc_cons after₁
        obtain ⟨j, read, after₃⟩ := parseCodepoint_ascii after₂ first second small
        obtain ⟨k, loop, left⟩ := ih (out ++ [c]) after₃ more
        exact ⟨k, by simp [parseStringLoop, got₁, got₂, read, loop], left⟩

theorem serializeStrChar_length (c : UInt8) : 1 ≤ (serializeStrChar c).length := by
  have written := serializeStrChar_escaped c
  generalize serializeStrChar c = escape at written ⊢
  cases written <;> simp

theorem flatMap_serialize_length (s : Bytes) : s.length ≤ (s.flatMap serializeStrChar).length := by
  induction s with
  | nil => simp
  | cons c s ih =>
    have one := serializeStrChar_length c
    simp only [List.flatMap_cons, List.length_append, List.length_cons]
    omega

/-- A string is read back from behind its opening quote. -/
theorem parseString_serialize {s t : Bytes} {i : Input} (text : i.rest = s.flatMap serializeStrChar ++ 34 :: t) :
    ∃ j, parseString i = (some s, j) ∧ j.rest = t := by
  have room : s.length < i.cur.length + 1 := by
    have wide := flatMap_serialize_length s
    have within := i.rest_length
    rw [text, List.length_append] at within
    omega
  obtain ⟨j, read, after⟩ := parseStringLoop_serialize [] text room
  exact ⟨j, read, after⟩

/-! ### Numbers -/

/-- What follows a number does not go on with it. -/
def Stops (t : Bytes) : Prop := ∀ b ∈ t.head?, isNumberByte b = false

theorem parseNumberLoop_all {fuel : Nat} {num out t : Bytes} {i : Input} (text : i.rest = num ++ t)
    (digits : ∀ b ∈ num, isNumberByte b = true) (stops : Stops t) (enough : num.length < fuel) :
    ∃ j, parseNumberLoop fuel out i = (out ++ num, j) ∧ j.rest = t := by
  induction num generalizing fuel out i with
  | nil =>
    cases fuel with
    | zero => simp at enough
    | succ fuel =>
      cases t with
      | nil =>
        obtain ⟨j, got, -, back⟩ := Input.getc_nil text
        exact ⟨j.ungetc, by simp [parseNumberLoop, got], back⟩
      | cons b t =>
        obtain ⟨j, got, -, back⟩ := Input.getc_cons text
        have other : isNumberByte b = false := stops b rfl
        exact ⟨j.ungetc, by simp [parseNumberLoop, got, other], back⟩
  | cons b num ih =>
    cases fuel with
    | zero => simp at enough
    | succ fuel =>
      obtain ⟨j, got, after, -⟩ := Input.getc_cons text
      obtain ⟨k, loop, left⟩ := @ih fuel (out ++ [b]) j after (fun c inside => digits c (List.mem_cons_of_mem b inside))
        (by simpa using enough)
      exact ⟨k, by simp [parseNumberLoop, got, digits b List.mem_cons_self, loop], left⟩

theorem parseNumber_all {num t : Bytes} {i : Input} (text : i.rest = num ++ t)
    (digits : ∀ b ∈ num, isNumberByte b = true) (stops : Stops t) :
    ∃ j, parseNumber i = (num, j) ∧ j.rest = t := by
  have within := i.rest_length
  rw [text, List.length_append] at within
  obtain ⟨j, read, after⟩ := @parseNumberLoop_all (i.cur.length + 1) num [] t i text digits stops (by omega)
  exact ⟨j, read, after⟩

theorem digitChar_numberByte : ∀ d < 10, isNumberByte (Nat.digitChar d).toNat.toUInt8 = true ∧
    (Nat.digitChar d).toNat.toUInt8 ≠ 45 ∧ (Nat.digitChar d).toNat.toUInt8 ≠ 43 ∧
      isDigit (Nat.digitChar d).toNat.toUInt8 = true := by
  decide

theorem signedDecimal_numberByte (i : Int) : ∀ b ∈ signedDecimal i, isNumberByte b = true := by
  have digits : ∀ b ∈ decimal i.natAbs, isNumberByte b = true := by
    intro b member
    obtain ⟨d, small, rfl⟩ := mem_numeral (by decide) member
    exact (digitChar_numberByte d small).1
  intro b member
  unfold signedDecimal at member
  split at member
  · rcases List.mem_cons.mp member with rfl | later
    · rfl
    · exact digits b later
  · exact digits b member

theorem takeSign_decimal (n : Nat) : takeSign (decimal n) = (false, decimal n) := by
  cases written : decimal n with
  | nil => rfl
  | cons b rest =>
    obtain ⟨d, small, rfl⟩ := @mem_numeral 10 n _ (by decide) (by rw [← decimal, written]; exact List.mem_cons_self)
    obtain ⟨-, minus, plus, -⟩ := digitChar_numberByte d small
    unfold takeSign
    split
    · rename_i same
      exact absurd (List.cons.inj same).1 minus
    · rename_i same
      exact absurd (List.cons.inj same).1 plus
    · rfl

/-- A 64-bit integer is read back from its text. -/
theorem strtoimax_signedDecimal (i : Int64) : strtoimax (signedDecimal i.toInt) = some i := by
  have low := i.minValue_le_toInt
  have high := i.toInt_le
  have read : readNumeral 10 (decimal i.toInt.natAbs) = some i.toInt.natAbs :=
    readNumeral_numeral (by decide) (by decide) _
  unfold signedDecimal
  split
  · rename_i negative
    have value : -(i.toInt.natAbs : Int) = i.toInt := by omega
    have split : takeSign (45 :: decimal i.toInt.natAbs) = (true, decimal i.toInt.natAbs) := rfl
    simp only [strtoimax, split, read, Option.bind_some, if_true, value, low, high, and_self, Int64.ofInt_toInt]
  · have value : (i.toInt.natAbs : Int) = i.toInt := by omega
    simp only [strtoimax, takeSign_decimal, read, Option.bind_some, Bool.false_eq_true, if_false, value, low, high,
      and_self, if_true, Int64.ofInt_toInt]

theorem signedDecimal_head (i : Int) : ∃ b rest, signedDecimal i = b :: rest ∧ (isDigit b = true ∨ b = 45) := by
  unfold signedDecimal
  split
  · exact ⟨45, _, rfl, .inr rfl⟩
  · cases written : decimal i.natAbs with
    | nil => exact absurd written (numeral_ne_nil 10 _)
    | cons b rest =>
      obtain ⟨d, small, rfl⟩ := @mem_numeral 10 i.natAbs _ (by decide)
        (by rw [← decimal, written]; exact List.mem_cons_self)
      exact ⟨_, rest, rfl, .inl (digitChar_numberByte d small).2.2.2⟩

/-- A number starts with none of the bytes that other values start with. -/
theorem numeric_apart {b k : UInt8} (numeric : isDigit b = true ∨ b = 45) (other : isDigit k = false ∧ k ≠ 45) : b ≠ k := by
  rintro rfl
  rcases numeric with digit | minus
  · rw [other.1] at digit
    cases digit
  · exact other.2 minus

theorem parseNumeric_int64 {i : Input} {n : Int64} {t : Bytes} (text : i.rest = signedDecimal n.toInt ++ t)
    (stops : Stops t) :
    ∃ j, parseNumeric i = .ok (.int64 n) j ∧ j.rest = t := by
  obtain ⟨j, read, after⟩ := parseNumber_all text (signedDecimal_numberByte n.toInt) stops
  obtain ⟨b, digits, written, -⟩ := signedDecimal_head n.toInt
  refine ⟨j, ?_, after⟩
  simp only [parseNumeric, read]
  rw [if_neg (by simp [written]), strtoimax_signedDecimal]

/-! ### Values -/

/-- A value without doubles whose objects are in order, and whose nesting a parse of so many
levels allows. -/
inductive Plain : Nat → Value → Prop
  | null (depths : Nat) : Plain depths .null
  | boolean (depths : Nat) (b : Bool) : Plain depths (.boolean b)
  | int64 (depths : Nat) (i : Int64) : Plain depths (.int64 i)
  | string (depths : Nat) (s : Bytes) : Plain depths (.string s)
  | array {depths : Nat} {a : List Value} : (∀ v ∈ a, Plain depths v) → Plain (depths + 1) (.array a)
  | object {depths : Nat} {o : Object} : o.Sorted → (∀ m ∈ o, Plain (depths + 1) m.2) → Plain (depths + 1) (.object o)

theorem Plain.single {depths : Nat} (key : Bytes) {v : Value} (plain : Plain (depths + 1) v) :
    Plain (depths + 1) (.object [(key, v)]) :=
  .object (List.pairwise_singleton _ _) (List.forall_mem_singleton.mpr plain)

theorem Plain.pair {depths : Nat} {first second : Bytes} (before : stringLess first second = true) {v w : Value}
    (one : Plain (depths + 1) v) (other : Plain (depths + 1) w) :
    Plain (depths + 1) (.object [(first, v), (second, w)]) :=
  .object (List.pairwise_pair.mpr before) (List.forall_mem_cons.mpr ⟨one, List.forall_mem_singleton.mpr other⟩)

/-- A value is read back wherever its text is followed by something that does not go on with
it. -/
def ReadsBack (depths : Nat) (v : Value) : Prop :=
  ∀ (fuel : Nat) (i : Input) (t : Bytes), 2 * (serialize v).length ≤ fuel → i.rest = serialize v ++ t → Stops t →
    ∃ j, parseValue fuel depths i = .ok v j ∧ j.rest = t

/-- No value starts with white space or a closing bracket. -/
theorem Plain.head {depths : Nat} {v : Value} (plain : Plain depths v) :
    ∃ b rest, serialize v = b :: rest ∧ Input.isSpace b = false ∧ b ≠ 93 := by
  cases plain with
  | null => exact ⟨_, _, rfl, rfl, by decide⟩
  | boolean _ b => cases b <;> exact ⟨_, _, rfl, rfl, by decide⟩
  | int64 _ i =>
    obtain ⟨b, rest, written, digit⟩ := signedDecimal_head i.toInt
    refine ⟨b, rest, by rw [serialize, written], ?_, ?_⟩
    · have apart := fun k other => numeric_apart (k := k) digit other
      simp [Input.isSpace, apart 32 (by decide), apart 9 (by decide), apart 10 (by decide), apart 13 (by decide)]
    · exact numeric_apart digit (by decide)
  | string _ s => exact ⟨_, _, rfl, rfl, by decide⟩
  | array items => exact ⟨_, _, rfl, rfl, by decide⟩
  | object sorted members => exact ⟨_, _, rfl, rfl, by decide⟩

theorem readsBack_constant (text : Bytes) {depths : Nat} {v : Value} {first : UInt8} (written : serialize v = first :: text)
    (ink : Input.isSpace first = false)
    (starts : ∀ (fuel : Nat) (i j : Input), i.skipWs.getc = (some first, j) →
      parseValue (fuel + 1) depths i = parseConstant text v j) : ReadsBack depths v := by
  intro fuel i t enough source stops
  rw [written, List.cons_append] at source
  obtain ⟨j, got, after, -⟩ := Input.skipWs_getc source ink
  obtain ⟨k, met, left⟩ := Input.matchText_met after
  cases fuel with
  | zero => simp [written] at enough
  | succ fuel => exact ⟨k, by rw [starts fuel i j got, parseConstant, met], left⟩

theorem readsBack_null (depths : Nat) : ReadsBack depths .null :=
  readsBack_constant (bytes "ull") rfl rfl fun fuel i j got => by simp [parseValue, got]

theorem readsBack_boolean (depths : Nat) (b : Bool) : ReadsBack depths (.boolean b) := by
  cases b with
  | false => exact readsBack_constant (bytes "alse") rfl rfl fun fuel i j got => by simp [parseValue, got]
  | true => exact readsBack_constant (bytes "rue") rfl rfl fun fuel i j got => by simp [parseValue, got]

theorem readsBack_int64 (depths : Nat) (n : Int64) : ReadsBack depths (.int64 n) := by
  intro fuel i t enough source stops
  obtain ⟨b, digits, written, numeric⟩ := signedDecimal_head n.toInt
  have apart := fun k other => numeric_apart (k := k) numeric other
  rw [serialize] at enough source
  rw [written, List.cons_append] at source
  obtain ⟨j, got, -, back⟩ := Input.skipWs_getc source (by
    simp [Input.isSpace, apart 32 (by decide), apart 9 (by decide), apart 10 (by decide), apart 13 (by decide)])
  rw [← List.cons_append, ← written] at back
  obtain ⟨k, read, after⟩ := parseNumeric_int64 back stops
  cases fuel with
  | zero => simp [written] at enough
  | succ fuel =>
    refine ⟨k, ?_, after⟩
    simp [parseValue, got, apart 110 (by decide), apart 102 (by decide), apart 116 (by decide), apart 34 (by decide),
      apart 91 (by decide), apart 123 (by decide), numeric, read]

theorem readsBack_string (depths : Nat) (s : Bytes) : ReadsBack depths (.string s) := by
  intro fuel i t enough source stops
  rw [serialize, serializeStr] at enough source
  obtain ⟨j, got, after, -⟩ := Input.skipWs_getc (b := 34) (t := s.flatMap serializeStrChar ++ 34 :: t)
    (by simpa using source) rfl
  obtain ⟨k, read, left⟩ := parseString_serialize after
  cases fuel with
  | zero => simp at enough
  | succ fuel => exact ⟨k, by simp [parseValue, got, read], left⟩

/-- The items of an array up to its closing bracket. -/
theorem parseItems_serialize (fuel : Nat) (acc : List Value) {depths : Nat} {a : List Value}
    (plain : ∀ v ∈ a, Plain depths v)
    (reads : ∀ v ∈ a, ReadsBack depths v) (nonempty : a ≠ []) {i : Input} {t : Bytes}
    (enough : 2 * (serializeItems a).length < fuel) (source : i.rest = serializeItems a ++ 93 :: t) :
    ∃ j, parseItems fuel depths acc i = .ok (.array (acc ++ a)) j ∧ j.rest = t := by
  induction a generalizing acc fuel i with
  | nil => exact absurd rfl nonempty
  | cons v a ih =>
    cases fuel with
    | zero => simp at enough
    | succ fuel =>
      have read := reads v List.mem_cons_self fuel i
      cases a with
      | nil =>
        rw [serializeItems] at enough source
        obtain ⟨j, parsed, after⟩ := read (93 :: t) (by omega) source (by intro b head; cases head; rfl)
        obtain ⟨k, noComma, left⟩ := Input.expect_unmet 44 after rfl (by decide)
        obtain ⟨l, closed, behind⟩ := Input.expect_met left rfl
        exact ⟨l, by simp [parseItems, parsed, noComma, closed], behind⟩
      | cons w rest =>
        rw [serializeItems] at enough source
        simp only [List.length_append, show (bytes ",").length = 1 from rfl] at enough
        rw [List.append_assoc, List.append_assoc] at source
        obtain ⟨j, parsed, after⟩ := read (44 :: (serializeItems (w :: rest) ++ 93 :: t)) (by omega) source
          (by intro b head; cases head; rfl)
        obtain ⟨k, comma, left⟩ := Input.expect_met after rfl
        obtain ⟨l, later, behind⟩ := ih fuel (acc ++ [v]) (fun x inside => plain x (List.mem_cons_of_mem v inside))
          (fun x inside => reads x (List.mem_cons_of_mem v inside)) (by simp) (by omega) left
        exact ⟨l, by simpa [parseItems, parsed, comma] using later, behind⟩

theorem serializeItems_head {depths : Nat} {v : Value} (plain : Plain depths v) (a : List Value) :
    ∃ b rest, serializeItems (v :: a) = b :: rest ∧ Input.isSpace b = false ∧ b ≠ 93 := by
  obtain ⟨b, rest, written, ink, apart⟩ := plain.head
  cases a with
  | nil => exact ⟨b, rest, by rw [serializeItems, written], ink, apart⟩
  | cons w more => exact ⟨b, _, by rw [serializeItems, written]; rfl, ink, apart⟩

theorem readsBack_array {depths : Nat} {a : List Value} (plain : ∀ v ∈ a, Plain depths v)
    (reads : ∀ v ∈ a, ReadsBack depths v) : ReadsBack (depths + 1) (.array a) := by
  intro fuel i t enough source stops
  have text : i.rest = 91 :: (serializeItems a ++ 93 :: t) := by
    rw [source, serialize, show bytes "[" = [91] from rfl, show bytes "]" = [93] from rfl]
    simp
  have room : 2 * (serializeItems a).length + 4 ≤ fuel := by
    simp only [serialize, List.length_append, show (bytes "[").length = 1 from rfl,
      show (bytes "]").length = 1 from rfl] at enough
    omega
  obtain ⟨j, got, after, -⟩ := Input.skipWs_getc text rfl
  cases fuel with
  | zero => omega
  | succ fuel =>
    cases a with
    | nil =>
      obtain ⟨k, closed, behind⟩ := Input.expect_met (b := 93) (t := t) after rfl
      exact ⟨k, by simp [parseValue, got, closed], behind⟩
    | cons v a =>
      obtain ⟨b, rest, written, ink, apart⟩ := serializeItems_head (plain v List.mem_cons_self) a
      obtain ⟨k, opened, left⟩ := Input.expect_unmet 93 (t := rest ++ 93 :: t)
        (by rw [after, written]; rfl) ink apart
      rw [← List.cons_append, ← written] at left
      obtain ⟨l, parsed, behind⟩ := parseItems_serialize fuel [] plain reads (by simp) (by omega) left
      exact ⟨l, by simpa [parseValue, got, opened] using parsed, behind⟩

theorem insert_last {acc : Object} {key : Bytes} (above : ∀ m ∈ acc, stringLess m.1 key = true) (val : Value) :
    acc.insert key val = acc ++ [(key, val)] := by
  induction acc with
  | nil => rfl
  | cons first rest ih =>
    obtain ⟨k, v⟩ := first
    have before := above (k, v) List.mem_cons_self
    have notAfter : stringLess key k = false := StrictWeak.asymm before
    simp only [Object.insert, notAfter, before, Bool.false_eq_true, if_false, if_true, List.cons_append,
      ih fun m member => above m (List.mem_cons_of_mem _ member)]

/-- A member as it is written. -/
theorem serializeMembers_cons (m : Bytes × Value) (o : Object) : serializeMembers (m :: o) =
    34 :: (m.1.flatMap serializeStrChar ++ 34 :: 58 :: (serialize m.2 ++
      (if o.isEmpty then [] else 44 :: serializeMembers o))) := by
  cases o with
  | nil => simp [serializeMembers, serializeStr, show bytes ":" = [58] from rfl]
  | cons n o =>
    simp [serializeMembers, serializeStr, show bytes ":" = [58] from rfl, show bytes "," = [44] from rfl]

/-- The members of an object up to its closing brace. -/
theorem parseMembers_serialize (fuel : Nat) (acc : Object) {depths : Nat} {o : Object} (sorted : Object.Sorted (acc ++ o))
    (reads : ∀ m ∈ o, ReadsBack depths m.2) (nonempty : o ≠ []) {i : Input} {t : Bytes}
    (enough : 2 * (serializeMembers o).length < fuel) (source : i.rest = serializeMembers o ++ 125 :: t) :
    ∃ j, parseMembers fuel depths acc i = .ok (.object (acc ++ o)) j ∧ j.rest = t := by
  induction o generalizing acc fuel i with
  | nil => exact absurd rfl nonempty
  | cons m o ih =>
    cases fuel with
    | zero => simp at enough
    | succ fuel =>
      have above : ∀ n ∈ acc, stringLess n.1 m.1 = true := fun n member =>
        (List.pairwise_append.mp sorted).2.2 n member m List.mem_cons_self
      have placed := insert_last above m.2
      simp only [serializeMembers_cons, List.cons_append, List.append_assoc] at source
      simp only [serializeMembers_cons, List.length_cons, List.length_append] at enough
      obtain ⟨j₁, quoted, after₁⟩ := Input.expect_met source rfl
      obtain ⟨j₂, key, after₂⟩ := parseString_serialize after₁
      obtain ⟨j₃, colon, after₃⟩ := Input.expect_met after₂ rfl
      have read := reads m List.mem_cons_self fuel j₃
      cases o with
      | nil =>
        obtain ⟨j₄, parsed, after₄⟩ := read (125 :: t) (by omega) after₃ (by intro b head; cases head; rfl)
        obtain ⟨j₅, noComma, after₅⟩ := Input.expect_unmet 44 after₄ rfl (by decide)
        obtain ⟨j₆, closed, after₆⟩ := Input.expect_met after₅ rfl
        exact ⟨j₆, by simp [parseMembers, quoted, key, colon, parsed, noComma, closed, placed], after₆⟩
      | cons n o =>
        simp only [List.isEmpty_cons, Bool.false_eq_true, if_false, List.length_cons] at enough
        obtain ⟨j₄, parsed, after₄⟩ := read (44 :: (serializeMembers (n :: o) ++ 125 :: t)) (by omega) after₃
          (by intro b head; cases head; rfl)
        obtain ⟨j₅, comma, after₅⟩ := Input.expect_met after₄ rfl
        obtain ⟨j₆, later, after₆⟩ := ih fuel (acc ++ [m]) (by simpa using sorted)
          (fun x inside => reads x (List.mem_cons_of_mem m inside)) (by simp) (by omega) after₅
        exact ⟨j₆, by simpa [parseMembers, quoted, key, colon, parsed, comma, placed] using later, after₆⟩

theorem readsBack_object {depths : Nat} {o : Object} (sorted : o.Sorted) (reads : ∀ m ∈ o, ReadsBack (depths + 1) m.2) :
    ReadsBack (depths + 1) (.object o) := by
  intro fuel i t enough source stops
  have text : i.rest = 123 :: (serializeMembers o ++ 125 :: t) := by
    rw [source, serialize, show bytes "\x7b" = [123] from rfl, show bytes "\x7d" = [125] from rfl]
    simp
  have room : 2 * (serializeMembers o).length + 4 ≤ fuel := by
    simp only [serialize, List.length_append, show (bytes "\x7b").length = 1 from rfl,
      show (bytes "\x7d").length = 1 from rfl] at enough
    omega
  obtain ⟨j, got, after, -⟩ := Input.skipWs_getc text rfl
  cases fuel with
  | zero => omega
  | succ fuel =>
    cases o with
    | nil =>
      obtain ⟨k, closed, behind⟩ := Input.expect_met (b := 125) (t := t) after rfl
      exact ⟨k, by simp [parseValue, got, closed], behind⟩
    | cons m o =>
      obtain ⟨tail, written⟩ : ∃ tail, serializeMembers (m :: o) = 34 :: tail := ⟨_, serializeMembers_cons m o⟩
      obtain ⟨k, opened, left⟩ := Input.expect_unmet 125 (t := tail ++ 125 :: t) (by rw [after, written]; rfl)
        rfl (by decide)
      rw [← List.cons_append, ← written] at left
      obtain ⟨l, parsed, behind⟩ := parseMembers_serialize fuel [] sorted reads (by simp) (by omega) left
      exact ⟨l, by simpa [parseValue, got, opened] using parsed, behind⟩

theorem Plain.readsBack {depths : Nat} {v : Value} (plain : Plain depths v) : ReadsBack depths v := by
  induction plain with
  | null depths => exact readsBack_null depths
  | boolean depths b => exact readsBack_boolean depths b
  | int64 depths i => exact readsBack_int64 depths i
  | string depths s => exact readsBack_string depths s
  | array items ih => exact readsBack_array items ih
  | object sorted members ih => exact readsBack_object sorted ih

/-- A plain value within the depth limit is parsed back from its text. -/
theorem parse_serialize {v : Value} (plain : Plain defaultMaxDepths v) : parse (serialize v) = .ok v := by
  obtain ⟨j, parsed, -⟩ := plain.readsBack (2 * (serialize v).length + 2) { cur := serialize v } [] (by omega)
    (by simp [Input.rest]) (by simp [Stops])
  rw [parse, parsed]

end DockerPlugin.Picojson

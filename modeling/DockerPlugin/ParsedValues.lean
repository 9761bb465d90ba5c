import DockerPlugin.PicojsonSoundness

namespace DockerPlugin.Picojson
open Octets

/-- A value as the parser builds it: the members of every object are in order, no name twice, and
arrays are nested no deeper than that many levels. -/
inductive Nested : Nat → Value → Prop
  | null {depths : Nat} : Nested depths .null
  | boolean {depths : Nat} {b : Bool} : Nested depths (.boolean b)
  | number {depths : Nat} {f : Double} : Nested depths (.number f)
  | int64 {depths : Nat} {i : Int64} : Nested depths (.int64 i)
  | string {depths : Nat} {s : Bytes} : Nested depths (.string s)
  | array {depths : Nat} {a : List Value} : (∀ v ∈ a, Nested depths v) → Nested (depths + 1) (.array a)
  | object {depths : Nat} {o : Object} : o.Sorted → (∀ m ∈ o, Nested (depths + 1) m.2) → Nested (depths + 1) (.object o)

/-- A value without a double anywhere in it. -/
inductive Exact : Value → Prop
  | null : Exact .null
  | boolean {b : Bool} : Exact (.boolean b)
  | int64 {i : Int64} : Exact (.int64 i)
  | string {s : Bytes} : Exact (.string s)
  | array {a : List Value} : (∀ v ∈ a, Exact v) → Exact (.array a)
  | object {o : Object} : (∀ m ∈ o, Exact m.2) → Exact (.object o)

theorem Nested.plain {depths : Nat} {v : Value} (nested : Nested depths v) (exact : Exact v) : Plain depths v := by
  induction nested with
  | null => exact .null _
  | boolean => exact .boolean _ _
  | number => cases exact
  | int64 => exact .int64 _ _
  | string => exact .string _ _
  | array _ ih =>
    cases exact with
    | array items => exact .array fun v member => ih v member (items v member)
  | object sorted _ ih =>
    cases exact with
    | object members => exact .object sorted fun m member => ih m member (members m member)

namespace Object

theorem ofMembers_sorted (ms : List (Bytes × Value)) {o : Object} (sorted : o.Sorted) : (ofMembers ms o).Sorted := by
  induction ms generalizing o with
  | nil => exact sorted
  | cons m ms ih => exact ih (insert_sorted sorted m.1 m.2)

theorem mem_ofMembers {ms : List (Bytes × Value)} {o : Object} {m : Bytes × Value} (member : m ∈ ofMembers ms o) :
    m ∈ ms ∨ m ∈ o := by
  induction ms generalizing o with
  | nil => exact .inr member
  | cons first ms ih =>
    rcases ih member with later | here
    · exact .inl (List.mem_cons_of_mem first later)
    · rcases mem_insert here with rfl | old
      · exact .inl List.mem_cons_self
      · exact .inr old

/-- Of several members with one name the last one counts. -/
theorem find?_ofMembers (ms : List (Bytes × Value)) (o : Object) (key : Bytes) :
    (ofMembers ms o).find? key = ((ms.reverse.find? fun m => m.1 = key).map Prod.snd).or (o.find? key) := by
  induction ms generalizing o with
  | nil => simp [ofMembers]
  | cons m ms ih =>
    rw [show ofMembers (m :: ms) o = ofMembers ms (o.insert m.1 m.2) from rfl, ih, find?_insert, List.reverse_cons,
      List.find?_append]
    cases ms.reverse.find? fun m => decide (m.1 = key) with
    | some last => simp
    | none => by_cases same : m.1 = key <;> simp [same]

end Object

/-- What the derivation of a phrase says about its values. -/
def Phrase.NestedIn (depths : Nat) : Phrase → Prop
  | .value v | .element v | .member _ v => Nested depths v
  | .items a => ∀ v ∈ a, Nested depths v
  | .members ms => ∀ m ∈ ms, Nested depths m.2

theorem Spells.nested {depths : Nat} {p : Phrase} {text : Bytes} (spells : Spells depths p text) : p.NestedIn depths := by
  induction spells with
  | null => exact .null
  | boolean => exact .boolean
  | number number =>
    rcases number.value with ⟨n, -, rfl⟩ | ⟨-, f, -, rfl⟩
    · exact .int64
    · exact .number
  | string => exact .string
  | emptyArray => exact .array fun _ member => absurd member List.not_mem_nil
  | array _ ih => exact .array ih
  | emptyObject => exact .object .nil fun _ member => absurd member List.not_mem_nil
  | @object _ _ ms _ ih =>
    refine .object (Object.ofMembers_sorted ms .nil) fun m member => ?_
    rcases Object.mem_ofMembers member with inside | none
    · exact ih m inside
    · cases none
  | element _ _ _ ih => exact ih
  | lastItem _ ih => exact List.forall_mem_singleton.mpr ih
  | item _ _ ih later => exact List.forall_mem_cons.mpr ⟨ih, later⟩
  | member _ _ _ _ ih => exact ih
  | lastMember _ ih => exact List.forall_mem_singleton.mpr ih
  | moreMembers _ _ ih later => exact List.forall_mem_cons.mpr ⟨ih, later⟩

/-- Members in any order and with names that come again make one object, in which each name has the
last of its values. -/
theorem last_member_counts {inner : Bytes} {ms : List (Bytes × Value)}
    (spells : Spells defaultMaxDepths (.members ms) inner) (rest : Bytes) :
    ∃ o : Object, parse (123 :: inner ++ 125 :: rest) = .ok (.object o) ∧ o.Sorted ∧
      ∀ key, o.find? key = (ms.reverse.find? fun m => m.1 = key).map Prod.snd := by
  refine ⟨Object.ofMembers ms [], parse_of_fronts ⟨[], _, rest, ?_, Blank.nil, .object spells, ?_⟩,
    Object.ofMembers_sorted ms .nil, fun key => ?_⟩
  · simp
  · exact fun numeric => Bool.noConfusion numeric
  · rw [Object.find?_ofMembers]
    exact Option.or_none

/-- Two members of one name, with one between them and white space in several places. -/
def twice : Bytes := bytes "\"b\" :true,\n\"a\":null, \"b\": \"7\""

theorem twice_spells : Spells defaultMaxDepths
    (.members [(bytes "b", .boolean true), (bytes "a", .null), (bytes "b", .string (bytes "7"))]) twice := by
  have piece : ∀ b : UInt8, 32 ≤ b → b ≠ 34 → b ≠ 92 → Pieces [b] [b] := fun b visible quote backslash =>
    .cons (.byte visible quote backslash) .nil
  have space : ∀ b : UInt8, Input.isSpace b = true → Blank [b] := fun b space => List.forall_mem_singleton.mpr space
  have b := @Spells.member defaultMaxDepths _ _ _ _ _ _ Blank.nil (piece 98 (by decide) (by decide) (by decide))
    (space 32 rfl) (.element Blank.nil (.boolean (b := true)) Blank.nil)
  have a := @Spells.member defaultMaxDepths _ _ _ _ _ _ (space 10 rfl) (piece 97 (by decide) (by decide) (by decide))
    Blank.nil (.element Blank.nil .null Blank.nil)
  have again := @Spells.member defaultMaxDepths _ _ _ _ _ _ (space 32 rfl) (piece 98 (by decide) (by decide) (by decide))
    Blank.nil (.element (space 32 rfl) (.string (piece 55 (by decide) (by decide) (by decide))) Blank.nil)
  exact .moreMembers b (.moreMembers a (.lastMember again))

theorem last_member_counts_twice :
    ∃ o : Object, parse (123 :: twice ++ 125 :: bytes " ...") = .ok (.object o) ∧ o.Sorted ∧
      ∀ key, o.find? key = (List.reverse [(bytes "b", Value.boolean true), (bytes "a", .null),
        (bytes "b", .string (bytes "7"))] |>.find? fun m => m.1 = key).map Prod.snd :=
  last_member_counts twice_spells (bytes " ...")

/-- Whatever text is parsed, the value is in order and its arrays are within the limit of nesting, which objects do
not use up; and if there is no double in it, its own text is parsed to the same value again. -/
theorem parse_normalises {s : Bytes} {v : Value} (parsed : parse s = .ok v) :
    Nested defaultMaxDepths v ∧ (Exact v → parse (serialize v) = .ok v) := by
  obtain ⟨w, text, rest, -, -, spells, -⟩ := fronts_of_parse parsed
  have nested : Nested defaultMaxDepths v := spells.nested
  exact ⟨nested, fun exact => parse_serialize (nested.plain exact)⟩

theorem twice_parsed : parse (123 :: twice ++ [125]) =
    .ok (.object [(bytes "a", .null), (bytes "b", .string (bytes "7"))]) :=
  parse_of_fronts ⟨[], _, [], by simp, Blank.nil, .object twice_spells, fun numeric => Bool.noConfusion numeric⟩

theorem parse_normalises_twice :
    Nested defaultMaxDepths (.object [(bytes "a", .null), (bytes "b", .string (bytes "7"))]) ∧
      (Exact (.object [(bytes "a", .null), (bytes "b", .string (bytes "7"))]) →
        parse (serialize (.object [(bytes "a", .null), (bytes "b", .string (bytes "7"))])) =
          .ok (.object [(bytes "a", .null), (bytes "b", .string (bytes "7"))])) :=
  parse_normalises twice_parsed

end DockerPlugin.Picojson

import DockerPlugin.PicojsonGrammar

namespace DockerPlugin.Picojson
open Octets

namespace Input

theorem skipWs_sound {i j : Input} {b : UInt8} (got : i.skipWs.getc = (some b, j)) : ink i.rest = b :: j.rest := by
  rw [ink, ← skipWs_rest]
  exact (getc_some got).1

theorem expect_sound {i j : Input} {b : UInt8} (met : i.expect b = (true, j)) : ink i.rest = b :: j.rest :=
  skipWs_sound (expect_true met)

theorem expect_unmoved {i j : Input} {b : UInt8} (unmet : i.expect b = (false, j)) : j.rest = ink i.rest := by
  rw [ink, ← skipWs_rest]
  unfold expect at unmet
  cases read : i.skipWs.getc with
  | mk got k =>
    rw [read] at unmet
    cases got with
    | none =>
      cases unmet
      rw [(getc_none read).1, (getc_none read).2.2]
    | some c =>
      by_cases same : c = b
      · simp [same] at unmet
      · simp only [same, if_false, Prod.mk.injEq, true_and] at unmet
        rw [← unmet, (getc_some read).1, (getc_some read).2]

theorem matchText_sound {pattern : Bytes} {i j : Input} (met : i.matchText pattern = (true, j)) :
    i.rest = pattern ++ j.rest := by
  induction pattern generalizing i with
  | nil =>
    cases met
    rfl
  | cons p pattern ih =>
    rw [matchText] at met
    cases read : i.getc with
    | mk got k =>
      rw [read] at met
      cases got with
      | none => cases met
      | some b =>
        by_cases same : b = p
        · simp only [same, if_true] at met
          rw [(getc_some read).1, same, ih met, List.cons_append]
        · simp [same] at met

end Input

theorem parseNumberLoop_sound {fuel : Nat} {out num : Bytes} {i j : Input} (read : parseNumberLoop fuel out i = (num, j))
    (enough : i.rest.length < fuel) :
    ∃ more, num = out ++ more ∧ i.rest = more ++ j.rest ∧ (∀ b ∈ more, isNumberByte b = true) ∧ Stops j.rest := by
  induction fuel generalizing out i with
  | zero => omega
  | succ fuel ih =>
    rw [parseNumberLoop] at read
    cases first : i.getc with
    | mk got k =>
      rw [first] at read
      cases got with
      | none =>
        cases read
        refine ⟨[], by simp, by rw [(Input.getc_none first).1, (Input.getc_none first).2.2, List.append_nil], by simp, ?_⟩
        rw [(Input.getc_none first).2.2]
        simp [Stops]
      | some b =>
        obtain ⟨here, back⟩ := Input.getc_some first
        dsimp only at read
        by_cases digit : isNumberByte b = true
        · rw [if_pos digit] at read
          rw [here, List.length_cons] at enough
          obtain ⟨more, same, left, all, stops⟩ := ih read (by omega)
          refine ⟨b :: more, by rw [same, List.append_assoc, List.singleton_append], ?_, ?_, stops⟩
          · rw [here, left, List.cons_append]
          · exact List.forall_mem_cons.mpr ⟨digit, all⟩
        · rw [if_neg digit] at read
          cases read
          refine ⟨[], by simp, by rw [here, back, List.nil_append], by simp, ?_⟩
          rw [back]
          exact stops_cons (by simpa using digit) _

theorem parseNumeric_sound {i j : Input} {v : Value} {b : UInt8} {t : Bytes} (read : parseNumeric i = .ok v j)
    (here : i.rest = b :: t) (numeric : isDigit b = true ∨ b = 45) :
    ∃ text, NumberText text v ∧ i.rest = text ++ j.rest ∧ Stops j.rest := by
  rw [parseNumeric] at read
  cases number : parseNumber i with
  | mk num k =>
    obtain ⟨more, same, left, all, stops⟩ := parseNumberLoop_sound number (Nat.lt_succ_of_le i.rest_length)
    obtain rfl : num = more := same
    rw [number] at read
    dsimp only at read
    cases num with
    | nil => simp at read
    | cons c rest =>
      have head : c = b := by
        rw [here, List.cons_append] at left
        exact (List.cons.inj left).1.symm
      have first : ∃ d tail, c :: rest = d :: tail ∧ (isDigit d = true ∨ d = 45) := ⟨c, rest, rfl, by rwa [head]⟩
      rw [if_neg (by simp)] at read
      cases ival : strtoimax (c :: rest) with
      | some n =>
        simp only [ival, Parsed.ok.injEq] at read
        obtain ⟨rfl, rfl⟩ := read
        exact ⟨_, ⟨first, all, .inl ⟨n, ival, rfl⟩⟩, left, stops⟩
      | none =>
        rw [ival] at read
        dsimp only at read
        cases f : strtod (c :: rest) with
        | finite n =>
          simp only [f, Parsed.ok.injEq] at read
          obtain ⟨rfl, rfl⟩ := read
          exact ⟨_, ⟨first, all, .inr ⟨ival, n, f, rfl⟩⟩, left, stops⟩
        | infinite => simp [f] at read
        | refused => simp [f] at read

theorem parseConstant_sound {text : Bytes} {v w : Value} {i j : Input} (read : parseConstant text v i = .ok w j) :
    w = v ∧ i.rest = text ++ j.rest := by
  rw [parseConstant] at read
  cases matched : i.matchText text with
  | mk met k =>
    rw [matched] at read
    cases met with
    | false => cases read
    | true =>
      cases read
      exact ⟨rfl, Input.matchText_sound matched⟩

/-- What comes behind an item: a comma and another one, or the end of what it is in. -/
theorem separated_sound {closing : UInt8} {done v : Value} {next : Input → Parsed} {k j : Input}
    (read : (match k.expect 44 with
      | (true, i) => next i
      | (false, i) =>
        match i.expect closing with
        | (true, i) => .ok done i
        | (false, i) => .fail i) = Parsed.ok v j) :
    ∃ w, Blank w ∧ ((∃ l, k.rest = w ++ 44 :: l.rest ∧ next l = .ok v j) ∨ k.rest = w ++ closing :: j.rest ∧ v = done) := by
  obtain ⟨w, blank, here⟩ := exists_blank k.rest
  refine ⟨w, blank, ?_⟩
  cases comma : k.expect 44 with
  | mk met l =>
    rw [comma] at read
    cases met with
    | true =>
      rw [Input.expect_sound comma] at here
      exact .inl ⟨l, here, read⟩
    | false =>
      dsimp only at read
      cases closed : l.expect closing with
      | mk met m =>
        rw [closed] at read
        cases met with
        | false => cases read
        | true =>
          cases read
          have visible := Input.expect_sound closed
          rw [Input.expect_unmoved comma] at visible
          have once : ink (ink k.rest) = ink k.rest := List.dropWhile_idempotent _ _
          rw [once] at visible
          rw [visible] at here
          exact .inr ⟨here, rfl⟩

theorem bracketed_sound {closing : UInt8} {empty v : Value} {inner : Input → Parsed} {i j : Input}
    (read : (match i.expect closing with
      | (true, i) => .ok empty i
      | (false, i) => inner i) = Parsed.ok v j) :
    ∃ w, Blank w ∧ (i.rest = w ++ closing :: j.rest ∧ v = empty ∨ ∃ k, i.rest = w ++ k.rest ∧ inner k = .ok v j) := by
  obtain ⟨w, blank, here⟩ := exists_blank i.rest
  refine ⟨w, blank, ?_⟩
  cases closed : i.expect closing with
  | mk met k =>
    rw [closed] at read
    cases met with
    | true =>
      cases read
      rw [Input.expect_sound closed] at here
      exact .inl ⟨here, rfl⟩
    | false =>
      refine .inr ⟨k, ?_, read⟩
      rw [Input.expect_unmoved closed]
      exact here

theorem Blank.append {w w' : Bytes} (blank : Blank w) (blank' : Blank w') : Blank (w ++ w') := by
  intro b member
  rcases List.mem_append.mp member with front | back
  · exact blank b front
  · exact blank' b back

namespace Spells
variable {depths : Nat} {w text : Bytes}

theorem blank_element {v : Value} (blank : Blank w) (spells : Spells depths (.element v) text) :
    Spells depths (.element v) (w ++ text) := by
  cases spells with
  | element blank' value behind =>
    simpa using Spells.element (blank.append blank') value behind

/-- White space may be added in front of the items. -/
theorem blank_items {a : List Value} (blank : Blank w) (spells : Spells depths (.items a) text) :
    Spells depths (.items a) (w ++ text) := by
  cases spells with
  | lastItem element => exact .lastItem (element.blank_element blank)
  | item element items => simpa using Spells.item (element.blank_element blank) items

theorem blank_member {key : Bytes} {v : Value} (blank : Blank w) (spells : Spells depths (.member key v) text) :
    Spells depths (.member key v) (w ++ text) := by
  cases spells with
  | member blank' pieces behind element => simpa using Spells.member (blank.append blank') pieces behind element

theorem blank_members {ms : List (Bytes × Value)} (blank : Blank w) (spells : Spells depths (.members ms) text) :
    Spells depths (.members ms) (w ++ text) := by
  cases spells with
  | lastMember member => exact .lastMember (member.blank_member blank)
  | moreMembers member members => simpa using Spells.moreMembers (member.blank_member blank) members

end Spells

/-- What is read with some fuel is a text of the grammar. The items and the members come up to their
closing bracket, behind those that were there before. -/
structure Grammatical (fuel : Nat) : Prop where
  value : ∀ {depths i v j}, parseValue fuel depths i = .ok v j →
    ∃ text, Spells depths (.value v) text ∧ ink i.rest = text ++ j.rest ∧ Ends v j.rest
  items : ∀ {depths acc i v j}, parseItems fuel depths acc i = .ok v j →
    ∃ text a, Spells depths (.items a) text ∧ v = .array (acc ++ a) ∧ i.rest = text ++ 93 :: j.rest
  members : ∀ {depths acc i v j}, parseMembers fuel depths acc i = .ok v j →
    ∃ text ms, Spells depths (.members ms) text ∧ v = .object (Object.ofMembers ms acc) ∧ i.rest = text ++ 125 :: j.rest

theorem items_sound {fuel : Nat} (before : Grammatical fuel) {depths : Nat} {acc : List Value} {i j : Input} {v : Value}
    (read : parseItems (fuel + 1) depths acc i = .ok v j) :
    ∃ text a, Spells depths (.items a) text ∧ v = .array (acc ++ a) ∧ i.rest = text ++ 93 :: j.rest := by
  rw [parseItems] at read
  cases item : parseValue fuel depths i with
  | fail k => simp [item] at read
  | overflow => simp [item] at read
  | ok x k =>
    rw [item] at read
    obtain ⟨text, value, here, -⟩ := before.value item
    obtain ⟨w, blank, front⟩ := exists_blank i.rest
    obtain ⟨w', blank', ⟨l, comma, more⟩ | ⟨closed, rfl⟩⟩ := separated_sound read
    · obtain ⟨rest, a, items, rfl, later⟩ := before.items more
      refine ⟨_, x :: a, .item (.element blank value blank') items, by rw [List.append_assoc]; rfl, ?_⟩
      rw [front, here, comma, later]
      simp
    · refine ⟨_, [x], .lastItem (.element blank value blank'), rfl, ?_⟩
      rw [front, here, closed]
      simp

theorem members_sound {fuel : Nat} (before : Grammatical fuel) {depths : Nat} {acc : Object} {i j : Input} {v : Value}
    (read : parseMembers (fuel + 1) depths acc i = .ok v j) :
    ∃ text ms, Spells depths (.members ms) text ∧ v = .object (Object.ofMembers ms acc) ∧
      i.rest = text ++ 125 :: j.rest := by
  rw [parseMembers] at read
  cases quote : i.expect 34 with
  | mk met q =>
    rw [quote] at read
    cases met with
    | false => cases read
    | true =>
      dsimp only at read
      cases name : parseString q with
      | mk got n =>
        rw [name] at read
        cases got with
        | none => cases read
        | some key =>
          dsimp only at read
          cases colon : n.expect 58 with
          | mk met c =>
            rw [colon] at read
            cases met with
            | false => cases read
            | true =>
              dsimp only at read
              cases item : parseValue fuel depths c with
              | fail k => simp [item] at read
              | overflow => simp [item] at read
              | ok x k =>
                rw [item] at read
                obtain ⟨w₁, blank₁, front⟩ := exists_blank i.rest
                rw [Input.expect_sound quote] at front
                obtain ⟨inside, pieces, named⟩ := parseString_sound name
                obtain ⟨w₂, blank₂, behindName⟩ := exists_blank n.rest
                rw [Input.expect_sound colon] at behindName
                obtain ⟨w₃, blank₃, behindColon⟩ := exists_blank c.rest
                obtain ⟨text, value, here, -⟩ := before.value item
                rw [here] at behindColon
                obtain ⟨w₄, blank₄, ⟨l, comma, more⟩ | ⟨closed, rfl⟩⟩ := separated_sound read
                · obtain ⟨rest, ms, members, rfl, later⟩ := before.members more
                  refine ⟨_, (key, x) :: ms,
                    .moreMembers (.member blank₁ pieces blank₂ (.element blank₃ value blank₄)) members, rfl, ?_⟩
                  rw [front, named, behindName, behindColon, comma, later]
                  simp
                · refine ⟨_, [(key, x)], .lastMember (.member blank₁ pieces blank₂ (.element blank₃ value blank₄)), rfl, ?_⟩
                  rw [front, named, behindName, behindColon, closed]
                  simp

theorem value_sound {fuel : Nat} (before : Grammatical fuel) {depths : Nat} {i j : Input} {v : Value}
    (read : parseValue (fuel + 1) depths i = .ok v j) :
    ∃ text, Spells depths (.value v) text ∧ ink i.rest = text ++ j.rest ∧ Ends v j.rest := by
  rw [parseValue] at read
  cases first : i.skipWs.getc with
  | mk got k =>
    rw [first] at read
    cases got with
    | none => cases read
    | some ch =>
      have here := Input.skipWs_sound first
      dsimp only at read
      by_cases null : ch = 110
      · rw [if_pos null] at read
        obtain ⟨rfl, text⟩ := parseConstant_sound read
        exact ⟨_, .null, by rw [here, null, text]; rfl, fun numeric => Bool.noConfusion numeric⟩
      rw [if_neg null] at read
      by_cases false_ : ch = 102
      · rw [if_pos false_] at read
        obtain ⟨rfl, text⟩ := parseConstant_sound read
        exact ⟨_, .boolean, by rw [here, false_, text]; rfl, fun numeric => Bool.noConfusion numeric⟩
      rw [if_neg false_] at read
      by_cases true_ : ch = 116
      · rw [if_pos true_] at read
        obtain ⟨rfl, text⟩ := parseConstant_sound read
        exact ⟨_, .boolean, by rw [here, true_, text]; rfl, fun numeric => Bool.noConfusion numeric⟩
      rw [if_neg true_] at read
      by_cases quote : ch = 34
      · rw [if_pos quote] at read
        cases text : parseString k with
        | mk got l =>
          rw [text] at read
          cases got with
          | none => cases read
          | some s =>
            cases read
            obtain ⟨inside, pieces, named⟩ := parseString_sound text
            exact ⟨_, .string pieces, by rw [here, quote, named]; simp, fun numeric => Bool.noConfusion numeric⟩
      rw [if_neg quote] at read
      by_cases bracket : ch = 91
      · rw [if_pos bracket] at read
        cases depths with
        | zero => cases read
        | succ depths =>
          rw [if_neg (Nat.succ_ne_zero depths), Nat.add_sub_cancel] at read
          obtain ⟨w, blank, ⟨closed, rfl⟩ | ⟨l, opened, inner⟩⟩ := bracketed_sound read
          · exact ⟨_, .emptyArray blank, by rw [here, bracket, closed]; simp, fun numeric => Bool.noConfusion numeric⟩
          · obtain ⟨text, a, items, rfl, left⟩ := before.items inner
            exact ⟨_, .array (items.blank_items blank), by rw [here, bracket, opened, left]; simp,
              fun numeric => Bool.noConfusion numeric⟩
      rw [if_neg bracket] at read
      by_cases brace : ch = 123
      · rw [if_pos brace] at read
        cases depths with
        | zero => cases read
        | succ depths =>
          rw [if_neg (Nat.succ_ne_zero depths)] at read
          obtain ⟨w, blank, ⟨closed, rfl⟩ | ⟨l, opened, inner⟩⟩ := bracketed_sound read
          · exact ⟨_, .emptyObject blank, by rw [here, brace, closed]; simp, fun numeric => Bool.noConfusion numeric⟩
          · obtain ⟨text, ms, members, rfl, left⟩ := before.members inner
            exact ⟨_, .object (members.blank_members blank), by rw [here, brace, opened, left]; simp,
              fun numeric => Bool.noConfusion numeric⟩
      rw [if_neg brace] at read
      by_cases digit : isDigit ch = true ∨ ch = 45
      · rw [if_pos digit] at read
        have back := (Input.getc_some first).2
        obtain ⟨text, number, left, stops⟩ := parseNumeric_sound read back digit
        exact ⟨text, .number number, by rw [here, ← back, left], fun _ => stops⟩
      · rw [if_neg digit] at read
        cases read

theorem grammatical (fuel : Nat) : Grammatical fuel := by
  induction fuel with
  | zero => exact ⟨fun read => (by cases read), fun read => (by cases read), fun read => (by cases read)⟩
  | succ fuel ih => exact ⟨value_sound ih, items_sound ih, members_sound ih⟩

/-- The value at the front of a text, behind white space: a number ends where no byte of a number follows. -/
def Fronts (v : Value) (s : Bytes) : Prop :=
  ∃ w text rest, s = w ++ text ++ rest ∧ Blank w ∧ Spells defaultMaxDepths (.value v) text ∧ Ends v rest

theorem fronts_of_parse {s : Bytes} {v : Value} (parsed : parse s = .ok v) : Fronts v s := by
  rw [parse] at parsed
  cases read : parseValue (2 * s.length + 2) defaultMaxDepths { cur := s } with
  | fail i => simp [read] at parsed
  | overflow => simp [read] at parsed
  | ok x j =>
    rw [read] at parsed
    obtain rfl : x = v := ParseResult.ok.inj parsed
    obtain ⟨text, spells, here, ends⟩ := (grammatical _).value read
    obtain ⟨w, blank, front⟩ := exists_blank s
    exact ⟨w, text, j.rest, by rw [front, List.append_assoc, ← here]; rfl, blank, spells, ends⟩

theorem parse_of_fronts {s : Bytes} {v : Value} (fronts : Fronts v s) : parse s = .ok v := by
  obtain ⟨w, text, rest, rfl, blank, spells, ends⟩ := fronts
  obtain ⟨visible, b, tail, first, -⟩ := spells.value_headed
  have here : ink (w ++ text ++ rest) = text ++ rest := by
    rw [List.append_assoc, ink_blank blank, ink_append first, ← List.cons_append, ← first, visible]
  have reads : (Phrase.value v).Reads defaultMaxDepths text := spells.reads
  obtain ⟨j, read, -⟩ := @reads (2 * (w ++ text ++ rest).length + 2) { cur := w ++ text ++ rest } _
    (by simp only [List.length_append]; omega) here ends
  rw [parse, read]

/-- `parse` gives a value exactly if a text of that value stands at the front of what is parsed:
the parser neither refuses nor misreads a text of the grammar, and accepts nothing else. -/
theorem parse_ok_iff (s : Bytes) (v : Value) : parse s = .ok v ↔ Fronts v s :=
  ⟨fronts_of_parse, parse_of_fronts⟩

end DockerPlugin.Picojson

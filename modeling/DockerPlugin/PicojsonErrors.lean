import DockerPlugin.DriverRequests
import DockerPlugin.PicojsonSoundness

namespace DockerPlugin
open Octets

namespace Picojson

/-- What may be asked of the place that a reader has come to, or has failed at. -/
def Parsed.At (P : Input → Prop) : Parsed → Prop
  | .ok _ i | .fail i => P i
  | .overflow => True

section
variable {P : Input → Prop} (moves : ∀ i, P i → P i.getc.2) (back : ∀ i, P i → P i.ungetc)
include moves back

namespace Input

theorem getc_keeps {i j : Input} {got : Option UInt8} (read : i.getc = (got, j)) (here : P i) : P j ∧ P j.ungetc := by
  have next := moves i here
  rw [read] at next
  exact ⟨next, back j next⟩

theorem skipWsLoop_keeps (fuel : Nat) {i : Input} (here : P i) : P (skipWsLoop fuel i) := by
  induction fuel generalizing i with
  | zero => exact here
  | succ fuel ih =>
    rw [skipWsLoop]
    cases read : i.getc with
    | mk got j =>
      obtain ⟨next, again⟩ := getc_keeps moves back read here
      cases got with
      | none => exact again
      | some b =>
        dsimp only
        split
        · exact ih next
        · exact again

theorem skipWs_keeps {i : Input} (here : P i) : P i.skipWs := skipWsLoop_keeps moves back _ here

theorem expect_keeps (expected : UInt8) {i : Input} (here : P i) : P (i.expect expected).2 := by
  rw [expect]
  cases read : i.skipWs.getc with
  | mk got j =>
    obtain ⟨next, again⟩ := getc_keeps moves back read (skipWs_keeps moves back here)
    cases got with
    | none => exact again
    | some b =>
      dsimp only
      split
      · exact next
      · exact again

theorem matchText_keeps (pattern : Bytes) {i : Input} (here : P i) : P (i.matchText pattern).2 := by
  induction pattern generalizing i with
  | nil => exact here
  | cons p pattern ih =>
    rw [matchText]
    cases read : i.getc with
    | mk got j =>
      obtain ⟨next, again⟩ := getc_keeps moves back read here
      cases got with
      | none => exact again
      | some b =>
        dsimp only
        split
        · exact ih next
        · exact again

end Input

open Input

theorem parseQuadhexLoop_keeps (rounds uniCh : Nat) {i : Input} (here : P i) :
    P (parseQuadhexLoop rounds uniCh i).2 := by
  induction rounds generalizing uniCh i with
  | zero => exact here
  | succ rounds ih =>
    rw [parseQuadhexLoop]
    cases read : i.getc with
    | mk got j =>
      obtain ⟨next, again⟩ := getc_keeps moves back read here
      cases got with
      | none => exact next
      | some b =>
        dsimp only
        split
        · exact ih _ next
        · exact again

theorem parseCodepoint_keeps {i : Input} (here : P i) : P (parseCodepoint i).2 := by
  have first := parseQuadhexLoop_keeps moves back 4 0 here
  rw [parseCodepoint]
  cases quad : parseQuadhex i with
  | mk got j =>
    have next : P j := by
      rw [← parseQuadhex, quad] at first
      exact first
    cases got with
    | none => exact next
    | some uniCh =>
      dsimp only
      split
      · split
        · exact next
        · split
          · next k backslash =>
            have slash := (getc_keeps moves back backslash next).1
            split
            · next l letter =>
              have second := parseQuadhexLoop_keeps moves back 4 0 (getc_keeps moves back letter slash).1
              split
              · next high m more =>
                rw [← parseQuadhex, more] at second
                split <;> exact second
              · next m more =>
                rw [← parseQuadhex, more] at second
                exact second
            · next other l letter => exact (getc_keeps moves back letter slash).2
          · next other k read => exact (getc_keeps moves back read next).2
      · exact next

theorem parseStringLoop_keeps (fuel : Nat) (out : Bytes) {i : Input} (here : P i) :
    P (parseStringLoop fuel out i).2 := by
  induction fuel generalizing out i with
  | zero => exact here
  | succ fuel ih =>
    rw [parseStringLoop]
    cases read : i.getc with
    | mk got j =>
      obtain ⟨next, again⟩ := getc_keeps moves back read here
      cases got with
      | none => exact again
      | some ch =>
        dsimp only
        split
        · exact again
        · split
          · exact next
          · split
            · cases escaped : j.getc with
              | mk letter k =>
                have after := (getc_keeps moves back escaped next).1
                cases letter with
                | none => exact after
                | some ch =>
                  dsimp only
                  split
                  · have code := parseCodepoint_keeps moves back after
                    split
                    · next text l found =>
                      rw [found] at code
                      exact ih _ code
                    · next l found =>
                      rw [found] at code
                      exact code
                  · split
                    · exact ih _ after
                    · exact after
            · exact ih _ next

theorem parseString_keeps {i : Input} (here : P i) : P (parseString i).2 := parseStringLoop_keeps moves back _ _ here

theorem parseNumberLoop_keeps (fuel : Nat) (numStr : Bytes) {i : Input} (here : P i) :
    P (parseNumberLoop fuel numStr i).2 := by
  induction fuel generalizing numStr i with
  | zero => exact here
  | succ fuel ih =>
    rw [parseNumberLoop]
    cases read : i.getc with
    | mk got j =>
      obtain ⟨next, again⟩ := getc_keeps moves back read here
      cases got with
      | none => exact again
      | some b =>
        dsimp only
        split
        · exact ih _ next
        · exact again

theorem parseConstant_keeps (text : Bytes) (v : Value) {i : Input} (here : P i) : (parseConstant text v i).At P := by
  have matched := matchText_keeps moves back text here
  rw [parseConstant]
  split <;> next j found => rw [found] at matched; exact matched

theorem parseNumeric_keeps {i : Input} (here : P i) : (parseNumeric i).At P := by
  have next : P (parseNumber i).2 := parseNumberLoop_keeps moves back _ _ here
  rw [parseNumeric]
  dsimp only
  split
  · exact next
  · split
    · exact next
    · split
      · exact next
      · trivial
      · exact next

/-- What the readers keep that call each other, with so much fuel. -/
structure ReadersKeep (P : Input → Prop) (fuel : Nat) : Prop where
  values : ∀ depths i, P i → (parseValue fuel depths i).At P
  items : ∀ depths a i, P i → (parseItems fuel depths a i).At P
  members : ∀ depths o i, P i → (parseMembers fuel depths o i).At P

theorem value_keeps {fuel : Nat} (readers : ReadersKeep P fuel) (depths : Nat) {i : Input} (here : P i) :
    (parseValue (fuel + 1) depths i).At P := by
  rw [parseValue]
  cases read : i.skipWs.getc with
  | mk got j =>
    obtain ⟨next, again⟩ := getc_keeps moves back read (skipWs_keeps moves back here)
    cases got with
    | none => exact again
    | some ch =>
      dsimp only
      split
      · exact parseConstant_keeps moves back _ _ next
      split
      · exact parseConstant_keeps moves back _ _ next
      split
      · exact parseConstant_keeps moves back _ _ next
      split
      · have text := parseString_keeps moves back next
        split <;> next found => rw [found] at text; exact text
      split
      · split
        · exact next
        · have closed := expect_keeps moves back 93 next
          split
          · next found =>
            rw [found] at closed
            exact closed
          · next found =>
            rw [found] at closed
            exact readers.items _ _ _ closed
      split
      · split
        · exact next
        · have closed := expect_keeps moves back 125 next
          split
          · next found =>
            rw [found] at closed
            exact closed
          · next found =>
            rw [found] at closed
            exact readers.members _ _ _ closed
      split
      · exact parseNumeric_keeps moves back again
      · exact again

theorem items_keep {fuel : Nat} (readers : ReadersKeep P fuel) (depths : Nat) (a : List Value) {i : Input} (here : P i) :
    (parseItems (fuel + 1) depths a i).At P := by
  have first := readers.values depths i here
  rw [parseItems]
  split
  · next v j found =>
    rw [found] at first
    have comma := expect_keeps moves back 44 first
    split
    · next k more =>
      rw [more] at comma
      exact readers.items _ _ _ comma
    · next k more =>
      rw [more] at comma
      have closed := expect_keeps moves back 93 comma
      split <;> next end_ => rw [end_] at closed; exact closed
  · exact first

theorem members_keep {fuel : Nat} (readers : ReadersKeep P fuel) (depths : Nat) (o : Object) {i : Input} (here : P i) :
    (parseMembers (fuel + 1) depths o i).At P := by
  have quote := expect_keeps moves back 34 here
  rw [parseMembers]
  split
  · next found =>
    rw [found] at quote
    exact quote
  · next j found =>
    rw [found] at quote
    have name := parseString_keeps moves back quote
    split
    · next k text =>
      rw [text] at name
      exact name
    · next key k text =>
      rw [text] at name
      have colon := expect_keeps moves back 58 name
      split
      · next l sign =>
        rw [sign] at colon
        exact colon
      · next l sign =>
        rw [sign] at colon
        have value := readers.values depths l colon
        split
        · next v m found =>
          rw [found] at value
          have comma := expect_keeps moves back 44 value
          split
          · next n more =>
            rw [more] at comma
            exact readers.members _ _ _ comma
          · next n more =>
            rw [more] at comma
            have closed := expect_keeps moves back 125 comma
            split <;> next end_ => rw [end_] at closed; exact closed
        · exact value

/-- What reading one byte and giving it back keep, all readers keep. -/
theorem readers_keep (fuel : Nat) : ReadersKeep P fuel := by
  induction fuel with
  | zero => exact ⟨fun _ _ here => here, fun _ _ _ here => here, fun _ _ _ here => here⟩
  | succ fuel ih =>
    exact {
      values := fun depths _ here => value_keeps moves back ih depths here
      items := fun depths a _ here => items_keep moves back ih depths a here
      members := fun depths o _ here => members_keep moves back ih depths o here }

end

/-- A place in the text, with as many lines behind it as newlines. The byte in front of it may be handed out. -/
structure Placed (s : Bytes) (i : Input) : Prop where
  place : ∃ front, s = front ++ i.cur ∧ i.line = 1 + front.count 10
  filled : i.consumed = true → i.cur ≠ []

namespace Placed
variable {s : Bytes}

/-- Behind the byte that was handed out. -/
theorem next {b : UInt8} {rest : Bytes} {line : Nat} (placed : Placed s ⟨b :: rest, true, line⟩) :
    ∃ front, s = front ++ rest ∧ (if some b = some 10 then line + 1 else line) = 1 + front.count 10 := by
  obtain ⟨front, text, lines⟩ := placed.place
  have lines : line = 1 + front.count 10 := lines
  refine ⟨front ++ [b], by rw [text, List.append_assoc, List.singleton_append], ?_⟩
  rw [List.count_append, List.count_singleton]
  by_cases newline : b = 10
  · rw [newline, if_pos rfl, lines]
    rfl
  · have other : some b ≠ some 10 := fun same => newline (Option.some.inj same)
    rw [if_neg other, lines]
    simp [newline]

theorem getc (i : Input) (placed : Placed s i) : Placed s i.getc.2 := by
  have unhanded : false ≠ true := Bool.false_ne_true
  obtain ⟨cur, consumed, line⟩ := i
  cases consumed with
  | false =>
    cases cur with
    | nil => exact ⟨placed.place, fun handed => absurd handed unhanded⟩
    | cons b rest => exact ⟨placed.place, fun _ => List.cons_ne_nil b rest⟩
  | true =>
    cases cur with
    | nil => exact absurd rfl (placed.filled rfl)
    | cons b rest =>
      cases rest with
      | nil => exact ⟨placed.next, fun handed => absurd handed unhanded⟩
      | cons c rest => exact ⟨placed.next, fun _ => List.cons_ne_nil c rest⟩

theorem ungetc (i : Input) (placed : Placed s i) : Placed s i.ungetc :=
  ⟨placed.place, fun handed => absurd handed Bool.false_ne_true⟩

end Placed

/-- What is told of an error: the line, and what is printable of the text from there to the end of a line. -/
def errorText (line : Nat) (rest : Bytes) : Bytes :=
  bytes "syntax error at line " ++ decimal line ++ bytes " near: " ++ (rest.takeWhile (· ≠ 10)).filter (32 ≤ ·)

theorem nearLoop_eq {fuel : Nat} (err : Bytes) {i : Input} (enough : i.rest.length < fuel) :
    nearLoop fuel err i = err ++ (i.rest.takeWhile (· ≠ 10)).filter (32 ≤ ·) := by
  induction fuel generalizing err i with
  | zero => omega
  | succ fuel ih =>
    rw [nearLoop]
    cases text : i.rest with
    | nil =>
      obtain ⟨j, got, -⟩ := Input.getc_nil text
      rw [got]
      simp
    | cons b rest =>
      obtain ⟨j, got, next, -⟩ := Input.getc_cons text
      rw [text, List.length_cons] at enough
      have shorter : j.rest.length < fuel := by
        rw [next]
        omega
      rw [got]
      dsimp only
      by_cases newline : b = 10
      · simp [newline]
      · rw [if_neg newline, List.takeWhile_cons_of_pos (by simpa using newline)]
        by_cases printable : 32 ≤ b
        · rw [if_pos printable, ih _ shorter, next, List.filter_cons_of_pos (by simpa using printable),
            List.append_assoc, List.singleton_append]
        · rw [if_neg printable, ih _ shorter, next, List.filter_cons_of_neg (by simpa using printable)]

/-- The error of a place tells its line, and shows what is still to be read there. -/
theorem syntaxError_placed {s : Bytes} {i : Input} (placed : Placed s i) :
    ∃ front, s = front ++ i.cur ∧ syntaxError i = errorText (1 + front.count 10) i.rest := by
  obtain ⟨front, text, line⟩ := placed.place
  refine ⟨front, text, ?_⟩
  rw [syntaxError, nearLoop_eq _ (Nat.lt_succ_of_le i.rest_length), line]
  rfl

/-- Rounds enough for what is left to read: one more of them changes nothing. -/
structure Settles (fuel : Nat) : Prop where
  value : ∀ {depths i}, 2 * i.rest.length + 1 ≤ fuel → parseValue (fuel + 1) depths i = parseValue fuel depths i
  items : ∀ {depths a i}, 2 * i.rest.length + 2 ≤ fuel → parseItems (fuel + 1) depths a i = parseItems fuel depths a i
  members : ∀ {depths o i}, 2 * i.rest.length + 2 ≤ fuel → parseMembers (fuel + 1) depths o i = parseMembers fuel depths o i

theorem ink_length (t : Bytes) : (ink t).length ≤ t.length := (List.dropWhile_suffix _).length_le

namespace Input

theorem getc_shorter {i j : Input} {b : UInt8} (got : i.skipWs.getc = (some b, j)) : j.rest.length < i.rest.length := by
  have here := ink_length i.rest
  rw [skipWs_sound got, List.length_cons] at here
  omega

theorem expect_shorter {i j : Input} {b : UInt8} (met : i.expect b = (true, j)) : j.rest.length < i.rest.length :=
  getc_shorter (expect_true met)

theorem expect_no_longer {i j : Input} {b : UInt8} (unmet : i.expect b = (false, j)) : j.rest.length ≤ i.rest.length := by
  rw [expect_unmoved unmet]
  exact ink_length i.rest

end Input

theorem value_no_longer {fuel depths : Nat} {i j : Input} {v : Value} (read : parseValue fuel depths i = .ok v j) :
    j.rest.length ≤ i.rest.length := by
  obtain ⟨text, -, here, -⟩ := (grammatical fuel).value read
  have inked := ink_length i.rest
  rw [here, List.length_append] at inked
  omega

theorem string_shorter {i j : Input} {s : Bytes} (read : parseString i = (some s, j)) : j.rest.length < i.rest.length := by
  obtain ⟨text, -, here⟩ := parseString_sound read
  rw [here, List.length_append, List.length_cons]
  omega

namespace Settles
variable {fuel : Nat} (settles : Settles fuel)
include settles

theorem value_step {depths : Nat} {i : Input} (enough : 2 * i.rest.length + 1 ≤ fuel + 1) :
    parseValue (fuel + 2) depths i = parseValue (fuel + 1) depths i := by
  rw [parseValue, parseValue]
  cases read : i.skipWs.getc with
  | mk got j =>
    cases got with
    | none => rfl
    | some ch =>
      have less := Input.getc_shorter read
      dsimp only
      iterate 4
        split
        · rfl
      -- Only an array and an object that are opened make more rounds.
      split
      · split
        · rfl
        · cases closed : j.expect 93 with
          | mk met k =>
            cases met with
            | true => rfl
            | false => exact settles.items (by have := Input.expect_no_longer closed; omega)
      split
      · split
        · rfl
        · cases closed : j.expect 125 with
          | mk met k =>
            cases met with
            | true => rfl
            | false => exact settles.members (by have := Input.expect_no_longer closed; omega)
      split <;> rfl

theorem items_step {depths : Nat} {a : List Value} {i : Input} (enough : 2 * i.rest.length + 2 ≤ fuel + 1) :
    parseItems (fuel + 2) depths a i = parseItems (fuel + 1) depths a i := by
  rw [parseItems, parseItems, settles.value (by omega)]
  cases item : parseValue fuel depths i with
  | fail k => rfl
  | overflow => rfl
  | ok v j =>
    have left := value_no_longer item
    dsimp only
    cases comma : j.expect 44 with
    | mk met k =>
      cases met with
      | false => rfl
      | true => exact settles.items (by have := Input.expect_shorter comma; omega)

theorem members_step {depths : Nat} {o : Object} {i : Input} (enough : 2 * i.rest.length + 2 ≤ fuel + 1) :
    parseMembers (fuel + 2) depths o i = parseMembers (fuel + 1) depths o i := by
  rw [parseMembers, parseMembers]
  cases quote : i.expect 34 with
  | mk met q =>
    cases met with
    | false => rfl
    | true =>
      have opened := Input.expect_shorter quote
      dsimp only
      cases name : parseString q with
      | mk got n =>
        cases got with
        | none => rfl
        | some key =>
          have named := string_shorter name
          dsimp only
          cases colon : n.expect 58 with
          | mk met c =>
            cases met with
            | false => rfl
            | true =>
              have signed := Input.expect_shorter colon
              dsimp only
              rw [settles.value (by omega)]
              cases item : parseValue fuel depths c with
              | fail k => rfl
              | overflow => rfl
              | ok v j =>
                have left := value_no_longer item
                dsimp only
                cases comma : j.expect 44 with
                | mk met k =>
                  cases met with
                  | false => rfl
                  | true => exact settles.members (by have := Input.expect_shorter comma; omega)

end Settles

theorem settles (fuel : Nat) : Settles fuel := by
  induction fuel with
  | zero => exact ⟨fun enough => by omega, fun enough => by omega, fun enough => by omega⟩
  | succ fuel ih => exact ⟨ih.value_step, ih.items_step, ih.members_step⟩

/-- The place at which the parser gives up on a text, however many rounds it may make beyond those it needs. -/
def GivesUpAt (s : Bytes) (i : Input) : Prop :=
  ∀ fuel, 2 * s.length + 1 ≤ fuel → parseValue fuel defaultMaxDepths { cur := s } = .fail i

theorem givesUpAt_iff {s : Bytes} {i : Input} :
    GivesUpAt s i ↔ parseValue (2 * s.length + 2) defaultMaxDepths { cur := s } = .fail i := by
  have same : ∀ more, parseValue (2 * s.length + 1 + more) defaultMaxDepths { cur := s } =
      parseValue (2 * s.length + 1) defaultMaxDepths { cur := s } := by
    intro more
    induction more with
    | zero => rfl
    | succ more ih =>
      have whole : ({ cur := s } : Input).rest = s := rfl
      rw [← Nat.add_assoc, (settles _).value (by rw [whole]; omega), ih]
  refine ⟨fun up => up _ (by omega), fun failed fuel enough => ?_⟩
  obtain ⟨more, rfl⟩ := Nat.exists_eq_add_of_le enough
  rw [same, ← same 1]
  exact failed

/-- Wherever the parser gives up on a text, the error tells the line of that place and what is there. -/
theorem error_placed {s err : Bytes} (failed : parse s = .error err) :
    ∃ i front, GivesUpAt s i ∧ s = front ++ i.cur ∧ err = errorText (1 + front.count 10) i.rest := by
  have start : Placed s { cur := s } := ⟨⟨[], rfl, rfl⟩, fun handed => absurd handed Bool.false_ne_true⟩
  have there := (readers_keep Placed.getc Placed.ungetc (2 * s.length + 2)).values defaultMaxDepths _ start
  unfold parse at failed
  split at failed
  · cases failed
  · next i found =>
    rw [found] at there
    cases failed
    obtain ⟨front, text, told⟩ := syntaxError_placed there
    exact ⟨i, front, givesUpAt_iff.mpr found, text, told⟩
  · cases failed

end Picojson

open Picojson PluginConnection

/-- A request whose body is no JSON, and no trailer field behind it, is answered with the line of the place at which
the parser gives up on the body and with what is still to be read there, and the driver is not called. -/
theorem DriverRequest.syntax_error_answered {δ : Type} (r : DriverRequest δ) (reads : r.handler.request ≠ .empty)
    (untrailed : r.delivery.message.trailers = []) {err : Bytes} (failed : parse r.delivery.message.body = .error err) :
    r.after.self.calls = r.before.self.calls ∧ r.after.self.drivers = r.state ∧
      ∃ i front text, GivesUpAt r.delivery.message.body i ∧ r.delivery.message.body = front ++ i.cur ∧ r.Writes text ∧
        Reply.GivenBy
          ⟨400, true, toJson .error (⟨0, errorText (1 + front.count 10) i.rest⟩ : ErrorResponse)⟩ text := by
  obtain ⟨i, front, place, split, told⟩ := error_placed failed
  have seen : r.body = r.delivery.message.body := by simp [DriverRequest.body, Message.seenBody, untrailed]
  have refused : fromJson r.handler.request r.body = .error (.invalidArgument err) := by
    rw [seen, fromJson, if_neg reads, parseObject, failed]
    rfl
  obtain ⟨calls, drivers, writes⟩ := r.after_refused refused
  rw [told] at writes
  exact ⟨calls, drivers, i, front, _, place, split, writes, Reply.wire_gives .badRequest⟩

theorem DriverRequest.syntax_error_answered_bracket :
    (createVolume busyDriver (bytes "\n]")).after.self.calls =
        (createVolume busyDriver (bytes "\n]")).before.self.calls ∧
      ∃ text, (createVolume busyDriver (bytes "\n]")).Writes text ∧
        Reply.GivenBy
          ⟨400, true, toJson .error (⟨0, bytes "syntax error at line 2 near: ]"⟩ : ErrorResponse)⟩ text := by
  have body : (createVolume busyDriver (bytes "\n]")).delivery.message.body = bytes "\n]" :=
    createVolume_body busyDriver (bytes "\n]")
  have failed : parse (bytes "\n]") = .error (syntaxError ⟨bytes "]", false, 2⟩) := rfl
  obtain ⟨calls, -, i, front, text, place, split, writes, given⟩ :=
    DriverRequest.syntax_error_answered (createVolume busyDriver (bytes "\n]")) (fun empty => RequestType.noConfusion empty)
      rfl (body.symm ▸ failed)
  rw [body] at place split
  obtain rfl : ⟨bytes "]", false, 2⟩ = i := Parsed.fail.inj (givesUpAt_iff.mp place)
  have same : [10] ++ bytes "]" = front ++ bytes "]" := split
  obtain rfl : [10] = front := List.append_cancel_right same
  exact ⟨calls, text, writes, given⟩

end DockerPlugin

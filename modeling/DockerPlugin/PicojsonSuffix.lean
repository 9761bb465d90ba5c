import DockerPlugin.PicojsonRoundTrip

namespace DockerPlugin.Picojson
open Octets

namespace Input

/-- The same place in a text that goes on. -/
def append (i : Input) (t : Bytes) : Input := { i with cur := i.cur ++ t }

/-- The rounds that a loop over the text may take in the longer one. -/
theorem append_length (i : Input) (t : Bytes) : (i.append t).cur.length + 1 = i.cur.length + 1 + t.length := by
  rw [append, List.length_append]
  omega

/-- What a byte that is read leaves behind. -/
theorem getc_some {i j : Input} {b : UInt8} (got : i.getc = (some b, j)) :
    i.rest = b :: j.rest ∧ j.ungetc.rest = b :: j.rest := by
  cases text : i.rest with
  | nil =>
    obtain ⟨k, missed, -⟩ := getc_nil text
    rw [got] at missed
    cases missed
  | cons c t =>
    obtain ⟨k, found, after, back⟩ := getc_cons text
    rw [got] at found
    cases found
    exact ⟨by rw [after], by rw [after, back]⟩

theorem getc_none {i j : Input} (got : i.getc = (none, j)) : i.rest = [] ∧ j.rest = [] ∧ j.ungetc.rest = [] := by
  cases text : i.rest with
  | nil =>
    obtain ⟨k, missed, after, back⟩ := getc_nil text
    rw [got] at missed
    cases missed
    exact ⟨rfl, after, back⟩
  | cons c t =>
    obtain ⟨k, found, -⟩ := getc_cons text
    rw [got] at found
    cases found

/-- A byte that is there is read in the longer text too. -/
theorem getc_append {i j : Input} {b : UInt8} (got : i.getc = (some b, j)) (t : Bytes) :
    (i.append t).getc = (some b, j.append t) := by
  obtain ⟨cur, consumed, line⟩ := i
  cases consumed with
  | false =>
    cases cur with
    | nil => cases got
    | cons c cur =>
      cases got
      rfl
  | true =>
    cases cur with
    | nil => cases got
    | cons c cur =>
      cases cur with
      | nil => cases got
      | cons d cur =>
        cases got
        rfl

theorem skipWsLoop_append (fuel more : Nat) {i : Input} (ink : i.rest.dropWhile isSpace ≠ []) (enough : i.rest.length < fuel)
    (t : Bytes) : skipWsLoop (fuel + more) (i.append t) = (skipWsLoop fuel i).append t := by
  induction fuel generalizing i with
  | zero => omega
  | succ fuel ih =>
    rw [Nat.succ_add, skipWsLoop, skipWsLoop]
    cases read : i.getc with
    | mk got j =>
      cases got with
      | none =>
        rw [(getc_none read).1] at ink
        exact absurd rfl ink
      | some b =>
        rw [getc_append read]
        obtain ⟨text, -⟩ := getc_some read
        by_cases space : isSpace b = true
        · simp only [space, if_true]
          rw [text, List.dropWhile_cons, space] at ink
          rw [text, List.length_cons] at enough
          exact ih ink (by omega)
        · simp only [space, Bool.false_eq_true, if_false]
          rfl

theorem skipWs_append {i : Input} (ink : i.rest.dropWhile isSpace ≠ []) (t : Bytes) :
    (i.append t).skipWs = i.skipWs.append t := by
  rw [skipWs, append_length]
  exact skipWsLoop_append _ _ ink (Nat.lt_succ_of_le i.rest_length) t

/-- A byte behind white space is found in the longer text too. -/
theorem skipWs_getc_append {i j : Input} {b : UInt8} (got : i.skipWs.getc = (some b, j)) (t : Bytes) :
    (i.append t).skipWs.getc = (some b, j.append t) := by
  have ink : i.rest.dropWhile isSpace ≠ [] := by
    rw [← skipWs_rest, (getc_some got).1]
    exact List.cons_ne_nil _ _
  rw [skipWs_append ink]
  exact getc_append got t

theorem expect_true {i j : Input} {b : UInt8} (met : i.expect b = (true, j)) : i.skipWs.getc = (some b, j) := by
  unfold expect at met
  cases read : i.skipWs.getc with
  | mk got k =>
    rw [read] at met
    cases got with
    | none => cases met
    | some c =>
      by_cases same : c = b
      · simp only [same, if_true, Prod.mk.injEq, true_and] at met
        rw [same, met]
      · simp [same] at met

theorem expect_append {i j : Input} {b : UInt8} (met : i.expect b = (true, j)) (t : Bytes) :
    (i.append t).expect b = (true, j.append t) := by
  rw [expect, skipWs_getc_append (expect_true met)]
  simp

theorem rest_of_expect {i j : Input} {b : UInt8} (met : i.expect b = (true, j)) : i.rest ≠ [] := by
  intro none
  have text := (getc_some (expect_true met)).1
  rw [skipWs_rest, none] at text
  cases text

theorem rest_of_expect_false {i j : Input} {b : UInt8} (unmet : i.expect b = (false, j)) (ink : j.rest ≠ []) :
    i.rest ≠ [] := by
  intro none
  unfold expect at unmet
  cases read : i.skipWs.getc with
  | mk got k =>
    rw [read] at unmet
    cases got with
    | none =>
      cases unmet
      exact ink (getc_none read).2.2
    | some c =>
      have text := (getc_some read).1
      rw [skipWs_rest, none] at text
      cases text

/-- A byte that is not the one expected is not so in the longer text either. -/
theorem expect_false_append {i j : Input} {b : UInt8} (unmet : i.expect b = (false, j)) (ink : j.rest ≠ []) (t : Bytes) :
    (i.append t).expect b = (false, j.append t) := by
  unfold expect at unmet
  cases read : i.skipWs.getc with
  | mk got k =>
    rw [read] at unmet
    cases got with
    | none =>
      cases unmet
      exact absurd (getc_none read).2.2 ink
    | some c =>
      by_cases same : c = b
      · simp [same] at unmet
      · simp only [same, if_false, Prod.mk.injEq, true_and] at unmet
        rw [expect, skipWs_getc_append read]
        simp only [same, if_false, ← unmet]
        rfl

theorem matchText_append {pattern : Bytes} {i j : Input} (met : i.matchText pattern = (true, j)) (t : Bytes) :
    (i.append t).matchText pattern = (true, j.append t) := by
  induction pattern generalizing i with
  | nil =>
    cases met
    rfl
  | cons p pattern ih =>
    rw [matchText] at met ⊢
    cases read : i.getc with
    | mk got k =>
      rw [read] at met
      cases got with
      | none => cases met
      | some b =>
        rw [getc_append read]
        by_cases same : b = p
        · simp only [same, if_true] at met ⊢
          exact ih met
        · simp [same] at met

end Input

/-! ### Strings and numbers -/

theorem parseQuadhexLoop_append {rounds uniCh n : Nat} {i j : Input} (read : parseQuadhexLoop rounds uniCh i = (some n, j))
    (t : Bytes) : parseQuadhexLoop rounds uniCh (i.append t) = (some n, j.append t) := by
  induction rounds generalizing uniCh i with
  | zero =>
    cases read
    rfl
  | succ rounds ih =>
    rw [parseQuadhexLoop] at read ⊢
    cases first : i.getc with
    | mk got k =>
      rw [first] at read
      cases got with
      | none => cases read
      | some b =>
        rw [Input.getc_append first]
        cases digit : digitValue b with
        | none => simp [digit] at read
        | some hex =>
          simp only [digit] at read ⊢
          exact ih read

theorem parseQuadhex_append {i j : Input} {n : Nat} (read : parseQuadhex i = (some n, j)) (t : Bytes) :
    parseQuadhex (i.append t) = (some n, j.append t) :=
  parseQuadhexLoop_append read t

theorem parseCodepoint_append {i j : Input} {code : Bytes} (read : parseCodepoint i = (some code, j)) (t : Bytes) :
    parseCodepoint (i.append t) = (some code, j.append t) := by
  rw [parseCodepoint] at read ⊢
  cases first : parseQuadhex i with
  | mk got k =>
    rw [first] at read
    cases got with
    | none => cases read
    | some uniCh =>
      rw [parseQuadhex_append first]
      dsimp only at read ⊢
      by_cases surrogate : 0xd800 ≤ uniCh ∧ uniCh ≤ 0xdfff
      · rw [if_pos surrogate] at read ⊢
        by_cases low : 0xdc00 ≤ uniCh
        · rw [if_pos low] at read
          cases read
        · rw [if_neg low] at read ⊢
          split at read
          · rename_i a backslash
            split at read
            · rename_i b letter
              split at read
              · rename_i second c quad
                simp only [Input.getc_append backslash, Input.getc_append letter, parseQuadhex_append quad]
                by_cases high : 0xdc00 ≤ second ∧ second ≤ 0xdfff
                · rw [if_pos high] at read ⊢
                  obtain ⟨text, place⟩ := Prod.mk.inj read
                  rw [text, place]
                · rw [if_neg high] at read
                  cases read
              · cases read
            · cases read
          · cases read
      · rw [if_neg surrogate] at read ⊢
        cases read
        rfl

theorem parseStringLoop_append {fuel : Nat} (more : Nat) {out s : Bytes} {i j : Input}
    (read : parseStringLoop fuel out i = (some s, j)) (t : Bytes) :
    parseStringLoop (fuel + more) out (i.append t) = (some s, j.append t) := by
  induction fuel generalizing out i with
  | zero => cases read
  | succ fuel ih =>
    rw [Nat.succ_add]
    rw [parseStringLoop] at read ⊢
    cases first : i.getc with
    | mk got k =>
      rw [first] at read
      cases got with
      | none => cases read
      | some ch =>
        rw [Input.getc_append first]
        dsimp only at read ⊢
        by_cases control : ch < 32
        · simp [control] at read
        · rw [if_neg control] at read ⊢
          by_cases quote : ch = 34
          · rw [if_pos quote] at read ⊢
            cases read
            rfl
          · rw [if_neg quote] at read ⊢
            by_cases backslash : ch = 92
            · rw [if_pos backslash] at read ⊢
              cases second : k.getc with
              | mk got l =>
                rw [second] at read
                cases got with
                | none => cases read
                | some letter =>
                  rw [Input.getc_append second]
                  dsimp only at read ⊢
                  by_cases unicode : letter = 117
                  · rw [if_pos unicode] at read ⊢
                    cases code : parseCodepoint l with
                    | mk got m =>
                      rw [code] at read
                      cases got with
                      | none => cases read
                      | some text =>
                        rw [parseCodepoint_append code]
                        exact ih read
                  · rw [if_neg unicode] at read ⊢
                    cases known : unescape letter with
                    | none => simp [known] at read
                    | some b =>
                      simp only [known] at read ⊢
                      exact ih read
            · rw [if_neg backslash] at read ⊢
              exact ih read

theorem parseString_append {i j : Input} {s : Bytes} (read : parseString i = (some s, j)) (t : Bytes) :
    parseString (i.append t) = (some s, j.append t) := by
  rw [parseString, Input.append_length]
  exact parseStringLoop_append t.length read t

theorem parseNumberLoop_append {fuel : Nat} (more : Nat) {out num : Bytes} {i j : Input}
    (read : parseNumberLoop fuel out i = (num, j)) (enough : i.rest.length < fuel) (followed : j.rest ≠ []) (t : Bytes) :
    parseNumberLoop (fuel + more) out (i.append t) = (num, j.append t) := by
  induction fuel generalizing out i with
  | zero => omega
  | succ fuel ih =>
    rw [Nat.succ_add]
    rw [parseNumberLoop] at read ⊢
    cases first : i.getc with
    | mk got k =>
      rw [first] at read
      cases got with
      | none =>
        cases read
        exact absurd (Input.getc_none first).2.2 followed
      | some b =>
        rw [Input.getc_append first]
        dsimp only at read ⊢
        by_cases digit : isNumberByte b = true
        · rw [if_pos digit] at read ⊢
          rw [(Input.getc_some first).1, List.length_cons] at enough
          exact ih read (by omega)
        · rw [if_neg digit] at read ⊢
          cases read
          rfl

/-- Values that are written without brackets or quotes around them, and go on as long as there are digits. -/
def Value.isNumeric : Value → Bool
  | .number _ | .int64 _ => true
  | _ => false

/-- A number that is read depends on nothing but its text. -/
theorem parseNumeric_ok {i j : Input} {v : Value} (read : parseNumeric i = .ok v j) :
    ∃ num, parseNumber i = (num, j) ∧ v.isNumeric = true ∧
      ∀ other k, parseNumber other = (num, k) → parseNumeric other = .ok v k := by
  rw [parseNumeric] at read
  cases number : parseNumber i with
  | mk num k =>
    rw [number] at read
    dsimp only at read
    by_cases empty : num.isEmpty = true
    · rw [if_pos empty] at read
      cases read
    · rw [if_neg empty] at read
      cases ival : strtoimax num with
      | some n =>
        simp only [ival, Parsed.ok.injEq] at read
        obtain ⟨rfl, rfl⟩ := read
        exact ⟨num, rfl, rfl, fun other l same => by simp [parseNumeric, same, empty, ival]⟩
      | none =>
        rw [ival] at read
        dsimp only at read
        cases f : strtod num with
        | finite n =>
          simp only [f, Parsed.ok.injEq] at read
          obtain ⟨rfl, rfl⟩ := read
          exact ⟨num, rfl, rfl, fun other l same => by simp [parseNumeric, same, empty, ival, f]⟩
        | infinite => simp [f] at read
        | refused => simp [f] at read

theorem parseNumeric_append {i j : Input} {v : Value} (read : parseNumeric i = .ok v j) (followed : j.rest ≠ [])
    (t : Bytes) : parseNumeric (i.append t) = .ok v (j.append t) := by
  obtain ⟨num, number, -, same⟩ := parseNumeric_ok read
  apply same
  rw [parseNumber, Input.append_length]
  exact parseNumberLoop_append t.length number (Nat.lt_succ_of_le i.rest_length) followed t

theorem parseConstant_append {text : Bytes} {v w : Value} {i j : Input} (read : parseConstant text v i = .ok w j)
    (t : Bytes) : parseConstant text v (i.append t) = .ok w (j.append t) := by
  rw [parseConstant] at read ⊢
  cases matched : i.matchText text with
  | mk met k =>
    rw [matched] at read
    cases met with
    | false => cases read
    | true =>
      cases read
      rw [Input.matchText_append matched]

/-! ### Values -/

/-- A value was read to its end, wherever the text ends. -/
def Complete (v : Value) (j : Input) : Prop := v.isNumeric = true → j.rest ≠ []

/-- What is read with some fuel is read in a longer text with more of it. -/
structure Stable (fuel more : Nat) (t : Bytes) : Prop where
  value : ∀ {depths i v j}, parseValue fuel depths i = .ok v j → Complete v j →
    parseValue (fuel + more) depths (i.append t) = .ok v (j.append t)
  items : ∀ {depths a i v j}, parseItems fuel depths a i = .ok v j →
    parseItems (fuel + more) depths a (i.append t) = .ok v (j.append t)
  members : ∀ {depths o i v j}, parseMembers fuel depths o i = .ok v j →
    parseMembers (fuel + more) depths o (i.append t) = .ok v (j.append t)

/-- What comes behind an item: another one, or the end of what it is in. -/
theorem separated_append {closing : UInt8} {done v : Value} {next next' : Input → Parsed} {t : Bytes} {k j : Input}
    (longer : ∀ {l w m}, next l = .ok w m → next' (l.append t) = .ok w (m.append t))
    (read : (match k.expect 44 with
      | (true, i) => next i
      | (false, i) =>
        match i.expect closing with
        | (true, i) => .ok done i
        | (false, i) => .fail i) = Parsed.ok v j) :
    k.rest ≠ [] ∧
      (match (k.append t).expect 44 with
      | (true, i) => next' i
      | (false, i) =>
        match i.expect closing with
        | (true, i) => .ok done i
        | (false, i) => .fail i) = Parsed.ok v (j.append t) := by
  cases comma : k.expect 44 with
  | mk met l =>
    rw [comma] at read
    cases met with
    | true =>
      refine ⟨Input.rest_of_expect comma, ?_⟩
      rw [Input.expect_append comma]
      exact longer read
    | false =>
      dsimp only at read
      cases closed : l.expect closing with
      | mk met m =>
        rw [closed] at read
        cases met with
        | false => cases read
        | true =>
          cases read
          have ink := Input.rest_of_expect closed
          refine ⟨Input.rest_of_expect_false comma ink, ?_⟩
          rw [Input.expect_false_append comma ink]
          dsimp only
          rw [Input.expect_append closed]

theorem items_append {fuel more : Nat} {t : Bytes} (stable : Stable fuel more t) {depths : Nat} {a : List Value}
    {i j : Input} {v : Value} (read : parseItems (fuel + 1) depths a i = .ok v j) :
    parseItems (fuel + 1 + more) depths a (i.append t) = .ok v (j.append t) := by
  rw [Nat.succ_add]
  rw [parseItems] at read ⊢
  cases item : parseValue fuel depths i with
  | fail k => simp [item] at read
  | overflow => simp [item] at read
  | ok w k =>
    rw [item] at read
    obtain ⟨ink, behind⟩ := separated_append stable.items read
    rw [stable.value item fun _ => ink]
    exact behind

theorem members_append {fuel more : Nat} {t : Bytes} (stable : Stable fuel more t) {depths : Nat} {o : Object}
    {i j : Input} {v : Value} (read : parseMembers (fuel + 1) depths o i = .ok v j) :
    parseMembers (fuel + 1 + more) depths o (i.append t) = .ok v (j.append t) := by
  rw [Nat.succ_add]
  rw [parseMembers] at read ⊢
  cases quote : i.expect 34 with
  | mk met q =>
    rw [quote] at read
    cases met with
    | false => cases read
    | true =>
      rw [Input.expect_append quote]
      dsimp only at read ⊢
      cases name : parseString q with
      | mk got n =>
        rw [name] at read
        cases got with
        | none => cases read
        | some key =>
          rw [parseString_append name]
          dsimp only at read ⊢
          cases colon : n.expect 58 with
          | mk met c =>
            rw [colon] at read
            cases met with
            | false => cases read
            | true =>
              rw [Input.expect_append colon]
              dsimp only at read ⊢
              cases item : parseValue fuel depths c with
              | fail k => simp [item] at read
              | overflow => simp [item] at read
              | ok w k =>
                rw [item] at read
                obtain ⟨ink, behind⟩ := separated_append stable.members read
                rw [stable.value item fun _ => ink]
                exact behind

theorem rest_of_value {fuel depths : Nat} {i j : Input} {v : Value} (read : parseValue fuel depths i = .ok v j) :
    i.rest ≠ [] := by
  cases fuel with
  | zero => cases read
  | succ fuel =>
    intro none
    obtain ⟨k, missed, -⟩ := Input.getc_nil (i := i.skipWs) (by rw [Input.skipWs_rest, none, List.dropWhile_nil])
    rw [parseValue, missed] at read
    cases read

theorem rest_of_items {fuel depths : Nat} {a : List Value} {i j : Input} {v : Value}
    (read : parseItems fuel depths a i = .ok v j) : i.rest ≠ [] := by
  cases fuel with
  | zero => cases read
  | succ fuel =>
    rw [parseItems] at read
    cases item : parseValue fuel depths i with
    | ok w k => exact rest_of_value item
    | fail k => simp [item] at read
    | overflow => simp [item] at read

theorem rest_of_members {fuel depths : Nat} {o : Object} {i j : Input} {v : Value}
    (read : parseMembers fuel depths o i = .ok v j) : i.rest ≠ [] := by
  cases fuel with
  | zero => cases read
  | succ fuel =>
    rw [parseMembers] at read
    cases quote : i.expect 34 with
    | mk met q =>
      cases met with
      | true => exact Input.rest_of_expect quote
      | false => simp [quote] at read

/-- What comes behind an opening bracket: its closing one, or something that is not empty. -/
theorem bracketed_append {closing : UInt8} {empty v : Value} {inner inner' : Input → Parsed} {t : Bytes} {i j : Input}
    (ink : ∀ {k w l}, inner k = .ok w l → k.rest ≠ [])
    (longer : ∀ {k w l}, inner k = .ok w l → inner' (k.append t) = .ok w (l.append t))
    (read : (match i.expect closing with
      | (true, i) => .ok empty i
      | (false, i) => inner i) = Parsed.ok v j) :
    (match (i.append t).expect closing with
      | (true, i) => .ok empty i
      | (false, i) => inner' i) = Parsed.ok v (j.append t) := by
  cases closed : i.expect closing with
  | mk met k =>
    rw [closed] at read
    cases met with
    | true =>
      cases read
      rw [Input.expect_append closed]
    | false =>
      rw [Input.expect_false_append closed (ink read)]
      exact longer read

theorem value_append {fuel more : Nat} {t : Bytes} (stable : Stable fuel more t) {depths : Nat} {i j : Input} {v : Value}
    (read : parseValue (fuel + 1) depths i = .ok v j) (complete : Complete v j) :
    parseValue (fuel + 1 + more) depths (i.append t) = .ok v (j.append t) := by
  rw [Nat.succ_add]
  rw [parseValue] at read ⊢
  cases first : i.skipWs.getc with
  | mk got k =>
    rw [first] at read
    cases got with
    | none => cases read
    | some ch =>
      rw [Input.skipWs_getc_append first]
      dsimp only at read ⊢
      by_cases null : ch = 110
      · rw [if_pos null] at read ⊢
        exact parseConstant_append read t
      rw [if_neg null] at read ⊢
      by_cases false_ : ch = 102
      · rw [if_pos false_] at read ⊢
        exact parseConstant_append read t
      rw [if_neg false_] at read ⊢
      by_cases true_ : ch = 116
      · rw [if_pos true_] at read ⊢
        exact parseConstant_append read t
      rw [if_neg true_] at read ⊢
      by_cases quote : ch = 34
      · rw [if_pos quote] at read ⊢
        cases text : parseString k with
        | mk got l =>
          rw [text] at read
          cases got with
          | none => cases read
          | some s =>
            cases read
            rw [parseString_append text]
      rw [if_neg quote] at read ⊢
      by_cases bracket : ch = 91
      · rw [if_pos bracket] at read ⊢
        by_cases deep : depths = 0
        · rw [if_pos deep] at read
          cases read
        · rw [if_neg deep] at read ⊢
          exact bracketed_append rest_of_items stable.items read
      rw [if_neg bracket] at read ⊢
      by_cases brace : ch = 123
      · rw [if_pos brace] at read ⊢
        by_cases deep : depths = 0
        · rw [if_pos deep] at read
          cases read
        · rw [if_neg deep] at read ⊢
          exact bracketed_append rest_of_members stable.members read
      rw [if_neg brace] at read ⊢
      by_cases digit : isDigit ch = true ∨ ch = 45
      · rw [if_pos digit] at read ⊢
        obtain ⟨-, -, numeric, -⟩ := parseNumeric_ok read
        exact parseNumeric_append read (complete numeric) t
      · rw [if_neg digit] at read
        cases read

/-- Whatever is read does not change with text behind it and more fuel: each function looks no further
than its value goes, but for a number at the end of the text. -/
theorem stable (fuel more : Nat) (t : Bytes) : Stable fuel more t := by
  induction fuel with
  | zero => exact ⟨nofun, nofun, nofun⟩
  | succ fuel ih => exact ⟨value_append ih, items_append ih, members_append ih⟩

/-- An object is parsed from the front of a text whatever comes behind it. -/
theorem parse_append {text : Bytes} {o : Object} (parsed : parse text = .ok (.object o)) (t : Bytes) :
    parse (text ++ t) = .ok (.object o) := by
  rw [parse] at parsed ⊢
  cases read : parseValue (2 * text.length + 2) defaultMaxDepths { cur := text } with
  | fail i => simp [read] at parsed
  | overflow => simp [read] at parsed
  | ok v j =>
    rw [read] at parsed
    obtain rfl : v = .object o := ParseResult.ok.inj parsed
    have longer : 2 * (text ++ t).length + 2 = 2 * text.length + 2 + 2 * t.length := by
      rw [List.length_append]
      omega
    have same := (stable (2 * text.length + 2) (2 * t.length) t).value read fun numeric => Bool.noConfusion numeric
    rw [longer, show ({ cur := text ++ t } : Input) = Input.append { cur := text } t from rfl, same]

end DockerPlugin.Picojson

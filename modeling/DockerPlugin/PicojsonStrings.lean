import DockerPlugin.PicojsonSuffix

namespace DockerPlugin.Picojson
open Octets

/-! ### Characters in UTF-8 -/

/-- Disjoint bits add up. -/
theorem or_eq_add {k b : Nat} (a : Nat) (small : b < 2 ^ k) : 2 ^ k * a ||| b = 2 ^ k * a + b :=
  (Nat.two_pow_add_eq_or_of_lt small a).symm

theorem continuation (m : Nat) : 0x80 ||| m &&& 0x3f = m % 64 + 128 := by
  have small : m &&& 63 = m % 64 := Nat.and_two_pow_sub_one_eq_mod m 6
  have sum := or_eq_add (k := 6) 2 (Nat.mod_lt m (show 0 < 64 by decide))
  rw [small, Nat.add_comm]
  exact sum

theorem char_bound (c : Char) : c.toNat < 0x110000 := by
  rcases c.valid with low | ⟨-, high⟩
  · exact Nat.lt_trans low (by decide)
  · exact high

theorem char_of_nat {n : Nat} (valid : n.isValidChar) : ∃ c : Char, c.toNat = n :=
  ⟨Char.ofNatAux n valid, rfl⟩

/-- `_parse_codepoint` appends the UTF-8 encoding of every character. -/
theorem encodeCodepoint_utf8 (c : Char) : encodeCodepoint c.toNat = String.utf8EncodeChar c := by
  have bound := char_bound c
  unfold encodeCodepoint String.utf8EncodeChar
  simp only [continuation, Nat.shiftRight_eq_div_pow, Nat.le_iff_lt_add_one]
  change (if c.toNat < 128 then _ else _) = (if c.toNat < 128 then _ else _)
  split
  · rfl
  · change _ = if c.toNat < 2048 then _ else _
    split
    · have lead := or_eq_add (k := 5) 6 (show c.toNat / 2 ^ 6 < 2 ^ 5 by omega)
      change [(192 ||| c.toNat / 2 ^ 6).toUInt8] ++ [_] = [(c.toNat / 64 % 32 + 192).toUInt8, _]
      rw [show (192 : Nat) = 2 ^ 5 * 6 from rfl, lead, Nat.add_comm, Nat.mod_eq_of_lt (by omega : c.toNat / 64 < 32)]
      rfl
    · change _ = if c.toNat < 65536 then _ else _
      split
      · have lead := or_eq_add (k := 4) 14 (show c.toNat / 2 ^ 12 < 2 ^ 4 by omega)
        change [(224 ||| c.toNat / 2 ^ 12).toUInt8] ++ [_] ++ [_] = [(c.toNat / 4096 % 16 + 224).toUInt8, _, _]
        rw [show (224 : Nat) = 2 ^ 4 * 14 from rfl, lead, Nat.add_comm, Nat.mod_eq_of_lt (by omega : c.toNat / 4096 < 16)]
        rfl
      · have lead := or_eq_add (k := 3) 30 (show c.toNat / 2 ^ 18 < 2 ^ 3 by omega)
        change [(240 ||| c.toNat / 2 ^ 18).toUInt8, _] ++ [_] ++ [_] = [(c.toNat / 262144 % 8 + 240).toUInt8, _, _, _]
        rw [show (240 : Nat) = 2 ^ 3 * 30 from rfl, lead, Nat.add_comm, Nat.mod_eq_of_lt (by omega : c.toNat / 262144 < 8)]
        rfl

/-- The code point that `_parse_codepoint` makes of the two halves of a surrogate pair. -/
theorem surrogates_join {high low : Nat} (small : low < 0x400) :
    (high <<< 10 ||| (low &&& 0x3ff)) + 0x10000 = 0x10000 + high * 0x400 + low := by
  have kept : low &&& 0x3ff = low := by
    rw [Nat.and_two_pow_sub_one_eq_mod low 10, Nat.mod_eq_of_lt small]
  rw [kept, Nat.shiftLeft_eq, Nat.mul_comm, or_eq_add high small]
  omega

/-! ### The grammar of strings -/

/-- Four hexadecimal digits, in either case, and the number they make. -/
structure Quadhex (text : Bytes) (n : Nat) : Prop where
  four : text.length = 4
  value : readDigits 16 0 text = some n

/-- What may stand for one piece of a string between its quotes, and the bytes of that piece. A
character beyond the basic plane is escaped as the two halves of its UTF-16 encoding. -/
inductive Piece : Bytes → Bytes → Prop
  | byte {b : UInt8} : 32 ≤ b → b ≠ 34 → b ≠ 92 → Piece [b] [b]
  | letter {ch b : UInt8} : unescape ch = some b → Piece [92, ch] [b]
  | unit {c : Char} {hex : Bytes} : Quadhex hex c.toNat → Piece (92 :: 117 :: hex) (String.utf8EncodeChar c)
  | pair {c : Char} {high low : Bytes} : 0x10000 ≤ c.toNat →
      Quadhex high (0xd800 + (c.toNat - 0x10000) / 0x400) → Quadhex low (0xdc00 + (c.toNat - 0x10000) % 0x400) →
      Piece (92 :: 117 :: (high ++ 92 :: 117 :: low)) (String.utf8EncodeChar c)

/-- The text of a string between its quotes. -/
inductive Pieces : Bytes → Bytes → Prop
  | nil : Pieces [] []
  | cons {piece text s more : Bytes} : Piece piece s → Pieces text more → Pieces (piece ++ text) (s ++ more)

theorem digitValue_lt {b : UInt8} {d : Nat} (digit : digitValue b = some d) : d < 16 := by
  have all := List.all_eq_true.mp (show ((List.range 256).all fun n =>
    (digitValue n.toUInt8).all fun d => decide (d < 16)) = true by decide +kernel) b.toNat (by simpa using b.toNat_lt)
  simpa [digit] using all

theorem readDigits_hex_cons {b : UInt8} {d : Nat} (digit : digitValue b = some d) (acc : Nat) (text : Bytes) :
    readDigits 16 acc (b :: text) = readDigits 16 (acc * 16 + d) text := by
  simp [readDigits, digit, digitValue_lt digit]

theorem readDigits_bound {text : Bytes} {acc n : Nat} (value : readDigits 16 acc text = some n) :
    n < (acc + 1) * 16 ^ text.length := by
  induction text generalizing acc with
  | nil =>
    obtain rfl : acc = n := Option.some.inj value
    simp
  | cons b text ih =>
    cases digit : digitValue b with
    | none => simp [readDigits, digit] at value
    | some d =>
      rw [readDigits_hex_cons digit] at value
      have below := ih value
      have small := digitValue_lt digit
      calc n < (acc * 16 + d + 1) * 16 ^ text.length := below
        _ ≤ (acc + 1) * 16 * 16 ^ text.length := Nat.mul_le_mul_right _ (by omega)
        _ = (acc + 1) * 16 ^ (b :: text).length := by rw [List.length_cons, Nat.pow_succ', Nat.mul_assoc]

theorem Quadhex.bound {text : Bytes} {n : Nat} (quad : Quadhex text n) : n < 0x10000 := by
  have below := readDigits_bound quad.value
  rw [quad.four] at below
  omega

/-! ### What the readers of strings accept -/

theorem parseQuadhexLoop_sound {rounds acc n : Nat} {i j : Input} (read : parseQuadhexLoop rounds acc i = (some n, j)) :
    ∃ text : Bytes, text.length = rounds ∧ readDigits 16 acc text = some n ∧ i.rest = text ++ j.rest := by
  induction rounds generalizing acc i with
  | zero =>
    cases read
    exact ⟨[], rfl, rfl, rfl⟩
  | succ rounds ih =>
    rw [parseQuadhexLoop] at read
    cases first : i.getc with
    | mk got k =>
      rw [first] at read
      cases got with
      | none => cases read
      | some b =>
        cases digit : digitValue b with
        | none => simp [digit] at read
        | some d =>
          simp only [digit] at read
          obtain ⟨text, length, value, left⟩ := ih read
          refine ⟨b :: text, by rw [List.length_cons, length], ?_, ?_⟩
          · rw [readDigits_hex_cons digit, value]
          · rw [(Input.getc_some first).1, left, List.cons_append]

theorem parseQuadhexLoop_complete {text t : Bytes} {acc n : Nat} {i : Input} (value : readDigits 16 acc text = some n)
    (here : i.rest = text ++ t) : ∃ j, parseQuadhexLoop text.length acc i = (some n, j) ∧ j.rest = t := by
  induction text generalizing acc i with
  | nil =>
    obtain rfl : acc = n := Option.some.inj value
    exact ⟨i, rfl, here⟩
  | cons b text ih =>
    obtain ⟨k, got, after, -⟩ := Input.getc_cons here
    cases digit : digitValue b with
    | none => simp [readDigits, digit] at value
    | some d =>
      rw [readDigits_hex_cons digit] at value
      obtain ⟨j, read, left⟩ := ih value after
      exact ⟨j, by simp [parseQuadhexLoop, got, digit, read], left⟩

theorem parseQuadhex_sound {i j : Input} {n : Nat} (read : parseQuadhex i = (some n, j)) :
    ∃ text, Quadhex text n ∧ i.rest = text ++ j.rest := by
  obtain ⟨text, length, value, left⟩ := parseQuadhexLoop_sound read
  exact ⟨text, ⟨length, value⟩, left⟩

theorem parseQuadhex_complete {text t : Bytes} {n : Nat} {i : Input} (quad : Quadhex text n) (here : i.rest = text ++ t) :
    ∃ j, parseQuadhex i = (some n, j) ∧ j.rest = t := by
  obtain ⟨j, read, left⟩ := parseQuadhexLoop_complete quad.value here
  rw [quad.four] at read
  exact ⟨j, read, left⟩

/-- Everything behind `\u` that `_parse_codepoint` accepts is an escaped character. -/
theorem parseCodepoint_sound {i j : Input} {code : Bytes} (read : parseCodepoint i = (some code, j)) :
    ∃ text, Piece (92 :: 117 :: text) code ∧ i.rest = text ++ j.rest := by
  rw [parseCodepoint] at read
  cases first : parseQuadhex i with
  | mk got k =>
    rw [first] at read
    cases got with
    | none => cases read
    | some uniCh =>
      obtain ⟨high, quad, left⟩ := parseQuadhex_sound first
      have bound := quad.bound
      dsimp only at read
      by_cases surrogate : 0xd800 ≤ uniCh ∧ uniCh ≤ 0xdfff
      · rw [if_pos surrogate] at read
        by_cases late : 0xdc00 ≤ uniCh
        · rw [if_pos late] at read
          cases read
        · rw [if_neg late] at read
          split at read
          · rename_i a backslash
            split at read
            · rename_i b letter
              split at read
              · rename_i second d quad'
                obtain ⟨low, other, behind⟩ := parseQuadhex_sound quad'
                by_cases half : 0xdc00 ≤ second ∧ second ≤ 0xdfff
                · rw [if_pos half, surrogates_join (by omega)] at read
                  obtain ⟨c, known⟩ := char_of_nat
                    (n := 0x10000 + (uniCh - 0xd800) * 0x400 + (second - 0xdc00)) (.inr (by omega))
                  rw [← known, encodeCodepoint_utf8] at read
                  cases read
                  refine ⟨high ++ 92 :: 117 :: low, .pair (by omega) ?_ ?_, ?_⟩
                  · rwa [show 0xd800 + (c.toNat - 0x10000) / 0x400 = uniCh by omega]
                  · rwa [show 0xdc00 + (c.toNat - 0x10000) % 0x400 = second by omega]
                  · rw [left, (Input.getc_some backslash).1, (Input.getc_some letter).1, behind]
                    simp
                · rw [if_neg half] at read
                  cases read
              · cases read
            · cases read
          · cases read
      · rw [if_neg surrogate] at read
        obtain ⟨c, known⟩ := char_of_nat (n := uniCh) (by
          by_cases low : uniCh < 0xd800
          · exact .inl low
          · exact .inr (by omega))
        rw [← known, encodeCodepoint_utf8] at read
        cases read
        exact ⟨high, .unit (by rwa [known]), left⟩

theorem parseCodepoint_unit {c : Char} {hex t : Bytes} {i : Input} (quad : Quadhex hex c.toNat) (here : i.rest = hex ++ t) :
    ∃ j, parseCodepoint i = (some (String.utf8EncodeChar c), j) ∧ j.rest = t := by
  obtain ⟨j, read, left⟩ := parseQuadhex_complete quad here
  have single : ¬ (0xd800 ≤ c.toNat ∧ c.toNat ≤ 0xdfff) := by
    rintro ⟨low, high⟩
    rcases c.valid with below | ⟨above, -⟩
    · exact absurd low (not_le.mpr below)
    · exact absurd high (not_le.mpr above)
  refine ⟨j, ?_, left⟩
  simp only [parseCodepoint, read, if_neg single, encodeCodepoint_utf8]

theorem parseCodepoint_pair {c : Char} {high low t : Bytes} {i : Input} (wide : 0x10000 ≤ c.toNat)
    (first : Quadhex high (0xd800 + (c.toNat - 0x10000) / 0x400))
    (second : Quadhex low (0xdc00 + (c.toNat - 0x10000) % 0x400)) (here : i.rest = high ++ 92 :: 117 :: low ++ t) :
    ∃ j, parseCodepoint i = (some (String.utf8EncodeChar c), j) ∧ j.rest = t := by
  have bound := char_bound c
  obtain ⟨k, read, after⟩ := parseQuadhex_complete (t := 92 :: 117 :: (low ++ t)) first (by simpa using here)
  obtain ⟨l, backslash, afterBackslash, -⟩ := Input.getc_cons after
  obtain ⟨m, letter, afterLetter, -⟩ := Input.getc_cons afterBackslash
  obtain ⟨j, again, left⟩ := parseQuadhex_complete second afterLetter
  refine ⟨j, ?_, left⟩
  have code : 0x10000 + (0xd800 + (c.toNat - 0x10000) / 0x400 - 0xd800) * 0x400 +
      (0xdc00 + (c.toNat - 0x10000) % 0x400 - 0xdc00) = c.toNat := by omega
  simp only [parseCodepoint, read]
  rw [if_pos (by omega), if_neg (by omega)]
  simp only [backslash, letter, again]
  rw [if_pos (by omega), surrogates_join (by omega), code, encodeCodepoint_utf8]

/-- One round of `_parse_string` over a piece. -/
theorem parseStringLoop_piece {piece s t out : Bytes} {fuel : Nat} {i : Input} (spells : Piece piece s)
    (here : i.rest = piece ++ t) :
    ∃ j, parseStringLoop (fuel + 1) out i = parseStringLoop fuel (out ++ s) j ∧ j.rest = t := by
  cases spells with
  | byte visible quote backslash =>
    obtain ⟨j, got, after, -⟩ := Input.getc_cons here
    exact ⟨j, by simp [parseStringLoop, got, UInt8.not_lt.mpr visible, quote, backslash], after⟩
  | @letter ch b known =>
    obtain ⟨k, backslash, after, -⟩ := Input.getc_cons here
    obtain ⟨j, got, left, -⟩ := Input.getc_cons after
    have unicode : ch ≠ 117 := by
      rintro rfl
      cases known
    exact ⟨j, by simp [parseStringLoop, backslash, got, unicode, known], left⟩
  | unit quad =>
    obtain ⟨k, backslash, afterBackslash, -⟩ := Input.getc_cons here
    obtain ⟨l, letter, afterLetter, -⟩ := Input.getc_cons afterBackslash
    obtain ⟨j, code, left⟩ := parseCodepoint_unit quad afterLetter
    exact ⟨j, by simp [parseStringLoop, backslash, letter, code], left⟩
  | pair wide first second =>
    obtain ⟨k, backslash, afterBackslash, -⟩ := Input.getc_cons here
    obtain ⟨l, letter, afterLetter, -⟩ := Input.getc_cons afterBackslash
    obtain ⟨j, code, left⟩ := parseCodepoint_pair wide first second afterLetter
    exact ⟨j, by simp [parseStringLoop, backslash, letter, code], left⟩

/-- The loop gets over the pieces, whatever comes behind them. -/
theorem parseStringLoop_pieces {text s t out : Bytes} {fuel : Nat} {i : Input} (spells : Pieces text s)
    (here : i.rest = text ++ t) (enough : text.length ≤ fuel) :
    ∃ left j, parseStringLoop fuel out i = parseStringLoop left (out ++ s) j ∧ j.rest = t ∧ fuel ≤ left + text.length := by
  induction spells generalizing fuel out i with
  | nil => exact ⟨fuel, i, by rw [List.append_nil], here, by simp⟩
  | @cons piece text s more first _ ih =>
    have long : 1 ≤ piece.length := by cases first <;> simp
    rw [List.length_append] at enough
    obtain ⟨fuel, rfl⟩ : ∃ n, fuel = n + 1 := ⟨fuel - 1, by omega⟩
    obtain ⟨j, round, after⟩ := @parseStringLoop_piece _ _ _ out fuel _ first (by rw [here, List.append_assoc])
    obtain ⟨left, k, rounds, behind, spent⟩ := @ih (out ++ s) fuel _ after (by omega)
    refine ⟨left, k, ?_, behind, by rw [List.length_append]; omega⟩
    rw [round, rounds, List.append_assoc]

theorem parseStringLoop_sound {fuel : Nat} {out s : Bytes} {i j : Input} (read : parseStringLoop fuel out i = (some s, j)) :
    ∃ text more, Pieces text more ∧ s = out ++ more ∧ i.rest = text ++ 34 :: j.rest := by
  induction fuel generalizing out i with
  | zero => cases read
  | succ fuel ih =>
    rw [parseStringLoop] at read
    cases first : i.getc with
    | mk got k =>
      rw [first] at read
      cases got with
      | none => cases read
      | some ch =>
        have left := (Input.getc_some first).1
        dsimp only at read
        by_cases control : ch < 32
        · simp [control] at read
        · rw [if_neg control] at read
          by_cases quote : ch = 34
          · rw [if_pos quote] at read
            cases read
            exact ⟨[], [], .nil, by rw [List.append_nil], by rw [left, quote, List.nil_append]⟩
          · rw [if_neg quote] at read
            by_cases backslash : ch = 92
            · rw [if_pos backslash] at read
              cases second : k.getc with
              | mk got l =>
                rw [second] at read
                have behind := fun b (same : got = some b) => (Input.getc_some (same ▸ second)).1
                cases got with
                | none => cases read
                | some letter =>
                  specialize behind letter rfl
                  dsimp only at read
                  by_cases unicode : letter = 117
                  · rw [if_pos unicode] at read
                    cases code : parseCodepoint l with
                    | mk got m =>
                      rw [code] at read
                      cases got with
                      | none => cases read
                      | some bytes =>
                        obtain ⟨hex, piece, after⟩ := parseCodepoint_sound code
                        obtain ⟨text, more, pieces, same, last⟩ := ih read
                        refine ⟨_, _, .cons piece pieces, by rw [same, List.append_assoc], ?_⟩
                        rw [left, behind, after, last, backslash, unicode]
                        simp
                  · rw [if_neg unicode] at read
                    cases known : unescape letter with
                    | none => simp [known] at read
                    | some b =>
                      simp only [known] at read
                      obtain ⟨text, more, pieces, same, last⟩ := ih read
                      refine ⟨_, _, .cons (.letter known) pieces, by rw [same, List.append_assoc], ?_⟩
                      rw [left, behind, last, backslash]
                      simp
            · rw [if_neg backslash] at read
              obtain ⟨text, more, pieces, same, last⟩ := ih read
              refine ⟨_, _, .cons (.byte (UInt8.not_lt.mp control) quote backslash) pieces, by rw [same, List.append_assoc], ?_⟩
              rw [left, last]
              simp

theorem parseString_sound {i j : Input} {s : Bytes} (read : parseString i = (some s, j)) :
    ∃ text, Pieces text s ∧ i.rest = text ++ 34 :: j.rest := by
  obtain ⟨text, more, pieces, same, left⟩ := parseStringLoop_sound read
  rw [List.nil_append] at same
  exact ⟨text, by rwa [same], left⟩

theorem parseString_complete {text s t : Bytes} {i : Input} (pieces : Pieces text s) (here : i.rest = text ++ 34 :: t) :
    ∃ j, parseString i = (some s, j) ∧ j.rest = t := by
  have room : text.length + 1 ≤ i.cur.length := by
    have fits := i.rest_length
    rw [here, List.length_append, List.length_cons] at fits
    omega
  obtain ⟨left, k, rounds, behind, spent⟩ := @parseStringLoop_pieces _ _ _ [] (i.cur.length + 1) _ pieces here
    (by omega)
  obtain ⟨left, rfl⟩ : ∃ n, left = n + 1 := ⟨left - 1, by omega⟩
  obtain ⟨j, quote, after, -⟩ := Input.getc_cons behind
  refine ⟨j, ?_, after⟩
  rw [parseString, rounds, List.nil_append]
  simp [parseStringLoop, quote]

end DockerPlugin.Picojson

import DockerPlugin.PicojsonSoundness

namespace DockerPlugin.Picojson
open Octets

/-- The ways to write a character between quotes: as it is, by a letter, or by the one or two units
of its UTF-16 encoding. -/
inductive Written (c : Char) : Bytes → Prop
  | itself : 32 ≤ c.toNat → c.toNat ≠ 34 → c.toNat ≠ 92 → Written c (String.utf8EncodeChar c)
  | letter {ch b : UInt8} : unescape ch = some b → c.toNat = b.toNat → Written c [92, ch]
  | unit {hex : Bytes} : Quadhex hex c.toNat → Written c (92 :: 117 :: hex)
  | pair {high low : Bytes} : 0x10000 ≤ c.toNat → Quadhex high (0xd800 + (c.toNat - 0x10000) / 0x400) →
      Quadhex low (0xdc00 + (c.toNat - 0x10000) % 0x400) → Written c (92 :: 117 :: (high ++ 92 :: 117 :: low))

theorem Pieces.single {piece s : Bytes} (spells : Piece piece s) : Pieces piece s := by
  simpa using Pieces.cons spells .nil

theorem Pieces.append {text s text' s' : Bytes} (pieces : Pieces text s) (pieces' : Pieces text' s') :
    Pieces (text ++ text') (s ++ s') := by
  induction pieces with
  | nil => exact pieces'
  | cons first _ ih => simpa using Pieces.cons first ih

/-- Bytes beyond ASCII stand for themselves. -/
theorem Pieces.ofHigh {text : Bytes} (high : ∀ b ∈ text, 128 ≤ b.toNat) : Pieces text text := by
  induction text with
  | nil => exact .nil
  | cons b text ih =>
    have here := high b List.mem_cons_self
    have visible : 32 ≤ b := UInt8.le_iff_toNat_le.mpr (show 32 ≤ b.toNat by omega)
    have quote : b ≠ 34 := by
      rintro rfl
      exact absurd here (by decide)
    have backslash : b ≠ 92 := by
      rintro rfl
      exact absurd here (by decide)
    exact .cons (.byte visible quote backslash) (ih fun c member => high c (List.mem_cons_of_mem b member))

theorem utf8_ascii {c : Char} (small : c.toNat < 128) : String.utf8EncodeChar c = [c.toNat.toUInt8] := by
  unfold String.utf8EncodeChar
  change (if c.toNat ≤ 127 then _ else _) = _
  rw [if_pos (by omega)]
  rfl

theorem ofNat_high {m room lead : Nat} (small : m < room) (low : 128 ≤ lead) (high : room + lead ≤ 256) :
    128 ≤ (UInt8.ofNat (m + lead)).toNat := by
  rw [UInt8.toNat_ofNat', Nat.mod_eq_of_lt (by omega)]
  omega

theorem utf8_high {c : Char} (large : 128 ≤ c.toNat) : ∀ b ∈ String.utf8EncodeChar c, 128 ≤ b.toNat := by
  have lead : ∀ m room start, 0 < room → 128 ≤ start → room + start ≤ 256 →
      128 ≤ (UInt8.ofNat (m % room + start)).toNat := fun m room start positive low high =>
    ofNat_high (Nat.mod_lt m positive) low high
  intro b member
  unfold String.utf8EncodeChar at member
  change b ∈ (if c.toNat ≤ 127 then _ else _) at member
  rw [if_neg (by omega)] at member
  split at member
  · simp only [List.mem_cons, List.not_mem_nil, or_false] at member
    rcases member with rfl | rfl <;> exact lead _ _ _ (by decide) (by decide) (by decide)
  · split at member
    · simp only [List.mem_cons, List.not_mem_nil, or_false] at member
      rcases member with rfl | rfl | rfl <;> exact lead _ _ _ (by decide) (by decide) (by decide)
    · simp only [List.mem_cons, List.not_mem_nil, or_false] at member
      rcases member with rfl | rfl | rfl | rfl <;> exact lead _ _ _ (by decide) (by decide) (by decide)

/-- However a character is written, its UTF-8 encoding is what is stored. -/
theorem Written.pieces {c : Char} {text : Bytes} (written : Written c text) : Pieces text (String.utf8EncodeChar c) := by
  cases written with
  | itself visible quote backslash =>
    by_cases small : c.toNat < 128
    · have value : c.toNat.toUInt8.toNat = c.toNat := Nat.mod_eq_of_lt (by omega)
      rw [utf8_ascii small]
      refine .single (.byte (UInt8.le_iff_toNat_le.mpr (by rw [value]; exact visible)) ?_ ?_)
      · intro same
        rw [same] at value
        exact quote value.symm
      · intro same
        rw [same] at value
        exact backslash value.symm
    · exact .ofHigh (utf8_high (by omega))
  | @letter ch b known same =>
    have small : c.toNat < 128 := by
      have all := List.all_eq_true.mp (show ((List.range 256).all fun n =>
        (unescape n.toUInt8).all fun b => decide (b.toNat < 128)) = true by decide +kernel) ch.toNat (by simpa using ch.toNat_lt)
      rw [same]
      simpa [known] using all
    rw [utf8_ascii small, same, Nat.toUInt8_eq, UInt8.ofNat_toNat]
    exact .single (.letter known)
  | unit quad => exact .single (.unit quad)
  | pair wide high low => exact .single (.pair wide high low)

theorem bytes_ofList (cs : List Char) : bytes (String.ofList cs) = cs.flatMap String.utf8EncodeChar := by
  simp [bytes, List.utf8Encode]

theorem pieces_of_written {cs : List (Char × Bytes)} (written : ∀ p ∈ cs, Written p.1 p.2) :
    Pieces (cs.flatMap Prod.snd) (bytes (String.ofList (cs.map Prod.fst))) := by
  rw [bytes_ofList]
  induction cs with
  | nil => exact .nil
  | cons p cs ih =>
    rw [List.flatMap_cons, List.map_cons, List.flatMap_cons]
    exact (written p List.mem_cons_self).pieces.append (ih fun q member => written q (List.mem_cons_of_mem p member))

/-- A JSON string is read as the UTF-8 text of its characters, in whichever of the ways that JSON has
each of them is written. -/
theorem characters_read {cs : List (Char × Bytes)} (written : ∀ p ∈ cs, Written p.1 p.2) (rest : Bytes) :
    parse (34 :: cs.flatMap Prod.snd ++ 34 :: rest) = .ok (.string (bytes (String.ofList (cs.map Prod.fst)))) := by
  apply parse_of_fronts
  refine ⟨[], _, rest, ?_, Blank.nil, .string (pieces_of_written written), fun numeric => Bool.noConfusion numeric⟩
  simp

/-- A letter as it is, a control character by its letter, another by its code, and one beyond the
basic plane by its two surrogates. -/
def greeting : List (Char × Bytes) :=
  [('é', bytes "é"), ('\n', bytes "\\n"), ('ß', bytes "\\u00dF"), ('😀', bytes "\\ud83D\\ude00")]

theorem greeting_written : ∀ p ∈ greeting, Written p.1 p.2 := by
  simp only [greeting, List.forall_mem_cons]
  refine ⟨.itself (by decide) (by decide) (by decide), .letter (b := 10) (by decide) (by decide),
    .unit ⟨by decide, by decide⟩, @Written.pair _ (bytes "d83D") (bytes "de00") (by decide) ⟨by decide, by decide⟩
      ⟨by decide, by decide⟩, by simp⟩

theorem characters_read_greeting :
    parse (34 :: greeting.flatMap Prod.snd ++ 34 :: bytes " ...") = .ok (.string (bytes "é\nß😀")) :=
  characters_read greeting_written (bytes " ...")

/-- An escaped surrogate that is not the first half of a pair. -/
structure Lone (n : Nat) (rest : Bytes) : Prop where
  surrogate : 0xd800 ≤ n ∧ n ≤ 0xdfff
  unpaired : n < 0xdc00 → ∀ low m tail, rest = 92 :: 117 :: (low ++ tail) → Quadhex low m → ¬ (0xdc00 ≤ m ∧ m ≤ 0xdfff)

theorem Quadhex.unique {hex hex' t t' : Bytes} {n n' : Nat} (quad : Quadhex hex n) (quad' : Quadhex hex' n')
    (same : hex ++ t = hex' ++ t') : n = n' ∧ t = t' := by
  obtain ⟨rfl, rfl⟩ := List.append_inj same (by rw [quad.four, quad'.four])
  exact ⟨Option.some.inj (quad.value.symm.trans quad'.value), rfl⟩

theorem parseCodepoint_lone {i : Input} {hex rest : Bytes} {n : Nat} (quad : Quadhex hex n) (lone : Lone n rest)
    (here : i.rest = hex ++ rest) : (parseCodepoint i).1 = none := by
  cases read : parseCodepoint i with
  | mk got j =>
    cases got with
    | none => rfl
    | some code =>
      obtain ⟨text, piece, left⟩ := parseCodepoint_sound read
      rw [here] at left
      obtain ⟨low, high⟩ := lone.surrogate
      cases piece with
      | letter known => cases known
      | @unit c _ quad' =>
        obtain ⟨same, -⟩ := quad.unique quad' left
        rw [same] at low high
        rcases c.valid with below | ⟨above, -⟩
        · exact absurd low (not_le.mpr below)
        · exact absurd high (not_le.mpr above)
      | @pair c first second wide quad' other =>
        have bound := char_bound c
        simp only [List.append_assoc, List.cons_append] at left
        obtain ⟨same, behind⟩ := quad.unique quad' left
        exact absurd ⟨by omega, by omega⟩ (lone.unpaired (by omega) _ _ _ behind other)

theorem parseString_lone {i : Input} {text s hex rest : Bytes} {n : Nat} (pieces : Pieces text s) (quad : Quadhex hex n)
    (lone : Lone n rest) (here : i.rest = text ++ 92 :: 117 :: (hex ++ rest)) : (parseString i).1 = none := by
  have room := i.rest_length
  rw [here, List.length_append, List.length_cons] at room
  obtain ⟨left, j, rounds, after, spent⟩ := @parseStringLoop_pieces _ _ _ [] (i.cur.length + 1) _ pieces here
    (by omega)
  obtain ⟨left, rfl⟩ : ∃ n, left = n + 1 := ⟨left - 1, by omega⟩
  obtain ⟨k, backslash, afterBackslash, -⟩ := Input.getc_cons after
  obtain ⟨l, letter, afterLetter, -⟩ := Input.getc_cons afterBackslash
  have refused := parseCodepoint_lone quad lone afterLetter
  rw [parseString, rounds]
  cases read : parseCodepoint l with
  | mk got m =>
    rw [read] at refused
    obtain rfl : got = none := refused
    simp [parseStringLoop, backslash, letter, read]

/-- A string with an escaped surrogate outside a pair is refused, whatever comes before it and behind it. -/
theorem lone_surrogate_refused {text s hex rest : Bytes} {n : Nat} (pieces : Pieces text s) (quad : Quadhex hex n)
    (lone : Lone n rest) : ∃ err, parse (34 :: text ++ 92 :: 117 :: hex ++ rest) = .error err := by
  obtain ⟨i, got, after, -⟩ := Input.skipWs_found (i := { cur := 34 :: text ++ 92 :: 117 :: hex ++ rest }) (b := 34)
    (t := text ++ 92 :: 117 :: (hex ++ rest)) (by simp [ink_cons, Input.rest, Input.isSpace])
  have refused := parseString_lone pieces quad lone after
  cases read : parseString i with
  | mk got' j =>
    rw [read] at refused
    obtain rfl : got' = none := refused
    refine ⟨syntaxError j, ?_⟩
    rw [parse, parseValue, got]
    simp [read]

theorem lone_surrogate_refused_both :
    (∃ err, parse (34 :: bytes "a" ++ 92 :: 117 :: bytes "DE00" ++ bytes "\\ud83d\"") = .error err) ∧
      ∃ err, parse (34 :: bytes "a" ++ 92 :: 117 :: bytes "d83d" ++ bytes "\\ud83d\"") = .error err := by
  have before : Pieces (bytes "a") (bytes "a") := .single (.byte (by decide) (by decide) (by decide))
  constructor
  · exact lone_surrogate_refused before (n := 0xde00) ⟨by decide, by decide⟩
      ⟨by decide, fun first => absurd first (by decide)⟩
  · have high : Quadhex (bytes "d83d") 0xd83d := ⟨by decide, by decide⟩
    refine lone_surrogate_refused before high ⟨by decide, fun _ low m tail same quad => ?_⟩
    obtain ⟨rfl, -⟩ := high.unique (t := [34]) quad (List.cons.inj (List.cons.inj same).2).2
    decide

end DockerPlugin.Picojson

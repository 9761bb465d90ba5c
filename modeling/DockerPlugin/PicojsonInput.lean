import DockerPlugin.PicojsonParser

namespace DockerPlugin.Picojson
open Octets

namespace Input

/-- The text that is still to be read. -/
def rest (i : Input) : Bytes := if i.consumed then i.cur.tail else i.cur

theorem rest_length (i : Input) : i.rest.length ≤ i.cur.length := by
  unfold rest
  split
  · simp
  · exact le_rfl

theorem getc_cons {i : Input} {b : UInt8} {t : Bytes} (text : i.rest = b :: t) :
    ∃ j, i.getc = (some b, j) ∧ j.rest = t ∧ j.ungetc.rest = b :: t := by
  unfold rest at text
  unfold getc
  split at text <;> rename_i consumed
  · rw [if_pos consumed]
    dsimp only
    rw [text]
    exact ⟨_, rfl, rfl, rfl⟩
  · rw [if_neg consumed]
    dsimp only
    rw [text]
    exact ⟨_, rfl, rfl, rfl⟩

theorem getc_nil {i : Input} (text : i.rest = []) :
    ∃ j, i.getc = (none, j) ∧ j.rest = [] ∧ j.ungetc.rest = [] := by
  unfold rest at text
  unfold getc
  split at text <;> rename_i consumed
  · rw [if_pos consumed]
    dsimp only
    rw [text]
    exact ⟨_, rfl, rfl, rfl⟩
  · rw [if_neg consumed]
    dsimp only
    rw [text]
    exact ⟨_, rfl, rfl, rfl⟩

theorem skipWsLoop_rest {fuel : Nat} {i : Input} (enough : i.rest.length < fuel) :
    (skipWsLoop fuel i).rest = i.rest.dropWhile isSpace := by
  induction fuel generalizing i with
  | zero => omega
  | succ fuel ih =>
    rw [skipWsLoop]
    cases text : i.rest with
    | nil =>
      obtain ⟨j, got, -, back⟩ := getc_nil text
      simpa [got] using back
    | cons b t =>
      obtain ⟨j, got, after, back⟩ := getc_cons text
      rw [got]
      by_cases space : isSpace b = true
      · have shorter : j.rest.length < fuel := by
          rw [text, List.length_cons] at enough
          rw [after]
          omega
        simp only [space, if_true, List.dropWhile_cons]
        rw [ih shorter, after]
      · simpa [space] using back

theorem skipWs_rest (i : Input) : i.skipWs.rest = i.rest.dropWhile isSpace :=
  skipWsLoop_rest (Nat.lt_succ_of_le i.rest_length)

/-- A byte that is no white space is what comes next behind any white space. -/
theorem skipWs_getc {i : Input} {b : UInt8} {t : Bytes} (text : i.rest = b :: t) (ink : isSpace b = false) :
    ∃ j, i.skipWs.getc = (some b, j) ∧ j.rest = t ∧ j.ungetc.rest = b :: t := by
  apply getc_cons
  rw [skipWs_rest, text, List.dropWhile_cons, ink]
  rfl

theorem expect_met {i : Input} {b : UInt8} {t : Bytes} (text : i.rest = b :: t) (ink : isSpace b = false) :
    ∃ j, i.expect b = (true, j) ∧ j.rest = t := by
  obtain ⟨j, got, after, -⟩ := skipWs_getc text ink
  exact ⟨j, by simp [expect, got], after⟩

theorem expect_unmet (other : UInt8) {i : Input} {b : UInt8} {t : Bytes} (text : i.rest = b :: t) (ink : isSpace b = false)
    (apart : b ≠ other) : ∃ j, i.expect other = (false, j) ∧ j.rest = b :: t := by
  obtain ⟨j, got, -, back⟩ := skipWs_getc text ink
  exact ⟨j.ungetc, by simp [expect, got, apart], back⟩

theorem matchText_met {i : Input} {pattern t : Bytes} (text : i.rest = pattern ++ t) :
    ∃ j, i.matchText pattern = (true, j) ∧ j.rest = t := by
  induction pattern generalizing i with
  | nil => exact ⟨i, rfl, text⟩
  | cons p pattern ih =>
    obtain ⟨j, got, after, -⟩ := getc_cons text
    obtain ⟨k, matched, left⟩ := ih after
    exact ⟨k, by simp [matchText, got, matched], left⟩

end Input

end DockerPlugin.Picojson

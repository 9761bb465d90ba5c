import Mathlib.Data.List.Infix
import Mathlib.Tactic.Common

/-- Subjects that go through phases in one common history: whom an event is about, and which
phase it takes that subject to, if the phase it is in allows the event. -/
structure Lifecycle (ε ι π : Type) where
  subject : ε → Option ι
  start : π
  next : π → ε → Option π

namespace Lifecycle
variable {ε ι π : Type} [DecidableEq ι] (L : Lifecycle ε ι π)

/-- The part of a history that is about one subject. -/
def about (i : ι) (history : List ε) : List ε := history.filter fun e => L.subject e = some i

/-- The phase a subject has reached, if every event about it was allowed. -/
def phase (history : List ε) (i : ι) : Option π := (L.about i history).foldlM L.next L.start

@[simp] theorem phase_nil (i : ι) : L.phase [] i = some L.start := rfl

theorem phase_append (past later : List ε) (i : ι) :
    L.phase (past ++ later) i = (L.phase past i).bind fun p => (L.about i later).foldlM L.next p := by
  simp only [phase, about, List.filter_append, List.foldlM_append, Option.bind_eq_bind]

variable {L}

/-- Events about others leave a subject where it is. -/
theorem phase_append_other {past later : List ε} {i : ι} (others : ∀ e ∈ later, L.subject e ≠ some i) :
    L.phase (past ++ later) i = L.phase past i := by
  have none : L.about i later = [] := List.filter_eq_nil_iff.mpr fun e member => by simpa using others e member
  simp [phase_append, none]

theorem phase_append_apart {past later : List ε} {i j : ι} (own : ∀ e ∈ later, L.subject e = some i) (apart : i ≠ j) :
    L.phase (past ++ later) j = L.phase past j :=
  phase_append_other fun e member => by simpa [own e member] using apart

theorem phase_append_own {past later : List ε} {i : ι} {p : π} (reached : L.phase past i = some p)
    (own : ∀ e ∈ later, L.subject e = some i) : L.phase (past ++ later) i = later.foldlM L.next p := by
  have all : L.about i later = later := List.filter_eq_self.mpr fun e member => by simpa using own e member
  simp [phase_append, reached, all]

/-- A number that every event of one kind raises by one counts the events of that kind. -/
theorem countP_eq {history : List ε} {i : ι} {p : π} (kind : ε → Bool) (rank : π → Nat)
    (own : ∀ e, kind e = true → L.subject e = some i) (zero : rank L.start = 0)
    (step : ∀ p e q, L.subject e = some i → L.next p e = some q → rank q = rank p + if kind e then 1 else 0)
    (reached : L.phase history i = some p) : history.countP kind = rank p := by
  induction history using List.reverseRecOn generalizing p with
  | nil =>
    obtain rfl : L.start = p := by simpa using reached
    simp [zero]
  | append_singleton past e ih =>
    by_cases mine : L.subject e = some i
    · obtain ⟨before, earlier, taken⟩ : ∃ q, L.phase past i = some q ∧ L.next q e = some p := by
        simpa [phase_append, about, mine, Option.bind_eq_some_iff] using reached
      rw [List.countP_append, ih earlier, step before e p mine taken, List.countP_singleton]
    · have other : kind e = false := by
        rw [← Bool.not_eq_true]
        exact fun same => mine (own e same)
      have earlier : L.phase past i = some p := by
        rw [← reached, phase_append_other (by simpa using mine)]
      simp [ih earlier, other]

/-- At every moment of an allowed history the subject was in some phase, and the next event about
it was allowed there. -/
theorem phase_before {past history : List ε} {e : ε} {i : ι} {p : π} (reached : L.phase history i = some p)
    (mine : L.subject e = some i) (moment : past ++ [e] <+: history) :
    ∃ q r, L.phase past i = some q ∧ L.next q e = some r := by
  obtain ⟨later, rfl⟩ := moment
  rw [phase_append, Option.bind_eq_some_iff] at reached
  obtain ⟨r, taken, _⟩ := reached
  rw [phase_append, Option.bind_eq_some_iff] at taken
  obtain ⟨q, earlier, allowed⟩ := taken
  exact ⟨q, r, earlier, by simpa [about, mine] using allowed⟩

end Lifecycle

/-- Whenever the second event happens, the first one has happened already. -/
def Precedes {ε : Type} (first second : ε) (history : List ε) : Prop :=
  ∀ past, past ++ [second] <+: history → first ∈ past

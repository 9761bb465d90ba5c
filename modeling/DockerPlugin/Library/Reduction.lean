import Mathlib.Data.List.Basic
import Mathlib.Data.List.Induction
import Mathlib.Tactic.Common

/-- Threads whose events change a common state. Some events commit what their thread has done; between
two commits the events of a thread change places with everything that other threads do. -/
structure Threads (ε ι σ : Type) where
  thread : ε → ι
  commits : ε → Bool
  step : σ → ε → σ
  moves : ∀ s e f, commits e = false → thread e ≠ thread f → step (step s e) f = step (step s f) e

namespace Threads
variable {ε ι σ : Type}

def run (T : Threads ε ι σ) (s : σ) (schedule : List ε) : σ := schedule.foldl T.step s

@[simp] theorem run_cons (T : Threads ε ι σ) (s : σ) (e : ε) (later : List ε) :
    T.run s (e :: later) = T.run (T.step s e) later := rfl

theorem run_append (T : Threads ε ι σ) (s : σ) (before later : List ε) :
    T.run s (before ++ later) = T.run (T.run s before) later :=
  List.foldl_append

/-- An event that does not commit can wait until others are through with theirs. -/
theorem run_delay {T : Threads ε ι σ} {e : ε} (waits : T.commits e = false) {later : List ε} (apart : ∀ f ∈ later, T.thread e ≠ T.thread f)
    (s : σ) : T.run s (e :: later) = T.run s (later ++ [e]) := by
  induction later generalizing s with
  | nil => rfl
  | cons f later ih =>
    have past := T.moves s e f waits (apart f List.mem_cons_self)
    rw [run_cons, run_cons, past, List.cons_append, run_cons, ← ih fun g member => apart g (List.mem_cons_of_mem f member)]
    rfl

/-- Before an event come no others that might as well wait. -/
theorem run_hurry {T : Threads ε ι σ} {e : ε} {waiting : List ε}
    (others : ∀ f ∈ waiting, T.commits f = false ∧ T.thread f ≠ T.thread e) (s : σ) :
    T.run s (waiting ++ [e]) = T.run s (e :: waiting) := by
  induction waiting generalizing s with
  | nil => rfl
  | cons f waiting ih =>
    obtain ⟨waits, apart⟩ := others f List.mem_cons_self
    have past := T.moves s f e waits apart
    rw [List.cons_append, run_cons, ih fun g member => others g (List.mem_cons_of_mem f member)]
    rw [run_cons, run_cons, run_cons, past]

variable [DecidableEq ι] (T : Threads ε ι σ)

/-- The events of one thread, in their order. -/
def own (i : ι) (schedule : List ε) : List ε := schedule.filter fun e => T.thread e = i

def others (i : ι) (schedule : List ε) : List ε := schedule.filter fun e => T.thread e ≠ i

/-- One more event: a commit makes a block of what waits of its thread. -/
def settle (cut : List (List ε) × List ε) (e : ε) : List (List ε) × List ε :=
  if T.commits e then (cut.1 ++ [T.own (T.thread e) cut.2 ++ [e]], T.others (T.thread e) cut.2)
  else (cut.1, cut.2 ++ [e])

/-- The blocks of a schedule in the order of their commits, and the events that wait for a commit. -/
def cut (schedule : List ε) : List (List ε) × List ε := schedule.foldl T.settle ([], [])

theorem cut_concat (schedule : List ε) (e : ε) : T.cut (schedule ++ [e]) = T.settle (T.cut schedule) e :=
  List.foldl_concat ..

theorem own_append (i : ι) (before later : List ε) : T.own i (before ++ later) = T.own i before ++ T.own i later :=
  List.filter_append before later

theorem own_own (i : ι) (schedule : List ε) : T.own i (T.own i schedule) = T.own i schedule :=
  List.filter_eq_self.mpr fun _ member => (List.mem_filter.mp member).2

theorem own_own_other {i j : ι} (apart : i ≠ j) (schedule : List ε) : T.own i (T.own j schedule) = [] := by
  refine List.filter_eq_nil_iff.mpr fun e member => ?_
  have there := of_decide_eq_true (List.mem_filter.mp member).2
  simpa [there] using apart.symm

theorem own_others (i : ι) (schedule : List ε) : T.own i (T.others i schedule) = [] := by
  refine List.filter_eq_nil_iff.mpr fun e member => ?_
  simpa using (List.mem_filter.mp member).2

theorem own_others_other {i j : ι} (apart : i ≠ j) (schedule : List ε) : T.own i (T.others j schedule) = T.own i schedule := by
  rw [own, others, List.filter_filter]
  refine List.filter_congr fun e _ => ?_
  by_cases here : T.thread e = i <;> simp [here, apart]

variable {T}

/-- Events that wait can be sorted by whether they are of one thread. -/
theorem run_sort {waiting : List ε} (waits : ∀ e ∈ waiting, T.commits e = false) (i : ι) (s : σ) :
    T.run s waiting = T.run s (T.own i waiting ++ T.others i waiting) := by
  induction waiting generalizing s with
  | nil => rfl
  | cons e waiting ih =>
    have rest := ih fun f member => waits f (List.mem_cons_of_mem e member)
    by_cases same : T.thread e = i
    · simp only [own, others, List.filter_cons, same, decide_true, if_true, List.cons_append, run_cons, ne_eq,
        not_true_eq_false, decide_false, Bool.false_eq_true, if_false]
      exact rest _
    · have apart : ∀ f ∈ T.own i waiting, T.thread e ≠ T.thread f := by
        intro f member
        rw [of_decide_eq_true (List.mem_filter.mp member).2]
        exact same
      have delayed := run_delay (waits e List.mem_cons_self) apart s
      simp only [own, others, List.filter_cons, same, decide_false, Bool.false_eq_true, if_false, ne_eq,
        not_false_eq_true, decide_true, if_true]
      calc T.run s (e :: waiting) = T.run s (e :: T.own i waiting ++ T.others i waiting) := rest _
        _ = T.run s (T.own i waiting ++ [e] ++ T.others i waiting) := by
          rw [run_append, delayed, ← run_append]
        _ = T.run s (T.own i waiting ++ e :: T.others i waiting) := by rw [List.append_assoc, List.singleton_append]

/-- At a commit the thread's events come before those of the others that wait. -/
theorem run_commit {waiting : List ε} (waits : ∀ e ∈ waiting, T.commits e = false) (e : ε) (s : σ) :
    T.run s (waiting ++ [e]) = T.run s (T.own (T.thread e) waiting ++ [e] ++ T.others (T.thread e) waiting) := by
  have apart : ∀ f ∈ T.others (T.thread e) waiting, T.commits f = false ∧ T.thread f ≠ T.thread e := fun f member =>
    ⟨waits f (List.mem_filter.mp member).1, of_decide_eq_true (List.mem_filter.mp member).2⟩
  calc T.run s (waiting ++ [e])
      = T.run (T.run s (T.own (T.thread e) waiting)) (T.others (T.thread e) waiting ++ [e]) := by
        rw [run_append, run_sort waits (T.thread e), run_append, ← run_append]
    _ = T.run (T.run s (T.own (T.thread e) waiting)) (e :: T.others (T.thread e) waiting) := run_hurry apart _
    _ = T.run s (T.own (T.thread e) waiting ++ [e] ++ T.others (T.thread e) waiting) := by
        rw [← run_append, List.append_assoc, List.singleton_append]

/-- What waits has not committed. -/
theorem cut_waits (schedule : List ε) : ∀ e ∈ (T.cut schedule).2, T.commits e = false := by
  induction schedule using List.reverseRecOn with
  | nil => simp [cut]
  | append_singleton schedule e ih =>
    rw [cut_concat, settle]
    split
    · exact fun f member => ih f (List.mem_filter.mp member).1
    · rename_i waits
      intro f member
      rcases List.mem_append.mp member with old | new
      · exact ih f old
      · rw [List.mem_singleton.mp new]
        simpa using waits

/-- A schedule ends where its committed blocks end, one after the other, with what waits behind them. -/
theorem run_cut (schedule : List ε) (s : σ) :
    T.run s schedule = T.run s ((T.cut schedule).1.flatten ++ (T.cut schedule).2) := by
  induction schedule using List.reverseRecOn with
  | nil => rfl
  | append_singleton schedule e ih =>
    rw [cut_concat, settle, run_append, ih, ← run_append]
    split
    · rw [List.append_assoc, run_append, run_commit (cut_waits schedule) e, ← run_append]
      simp
    · simp

/-- A thread's events keep their order. -/
theorem own_cut (schedule : List ε) (i : ι) :
    T.own i (T.cut schedule).1.flatten ++ T.own i (T.cut schedule).2 = T.own i schedule := by
  induction schedule using List.reverseRecOn with
  | nil => rfl
  | append_singleton schedule e ih =>
    rw [cut_concat, settle, own_append, ← ih]
    split
    · simp only [List.flatten_append, List.flatten_singleton, own_append]
      by_cases same : T.thread e = i
      · rw [same, own_own, own_others]
        simp
      · have none : T.own i [e] = [] := by simp [own, same]
        rw [own_own_other T (Ne.symm same), own_others_other T (Ne.symm same), none]
        simp
    · simp [own_append]

end Threads

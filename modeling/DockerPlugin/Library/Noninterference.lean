import Mathlib.Data.List.Basic
import Mathlib.Data.List.Induction
import Mathlib.Tactic.Common

/-- What is seen of a system by one who does not see some of its events: after an event that is seen, the view
follows from the view before it. -/
structure Observation (ε σ ω : Type) where
  step : σ → ε → σ
  view : σ → ω
  hidden : ε → Bool
  follows : ∀ s t e, hidden e = false → view s = view t → view (step s e) = view (step t e)

namespace Observation
variable {ε σ ω : Type}

def run (O : Observation ε σ ω) (s : σ) (events : List ε) : σ := events.foldl O.step s

theorem run_concat (O : Observation ε σ ω) (s : σ) (events : List ε) (e : ε) :
    O.run s (events ++ [e]) = O.step (O.run s events) e := List.foldl_concat ..

/-- No hidden event of a run changes the view. -/
def Unnoticed (O : Observation ε σ ω) (s : σ) (events : List ε) : Prop :=
  ∀ before e after, events = before ++ e :: after → O.hidden e = true →
    O.view (O.step (O.run s before) e) = O.view (O.run s before)

/-- A run in which no hidden event changes the view looks like the one without the hidden events. -/
theorem view_purged (O : Observation ε σ ω) {s : σ} {events : List ε} (unnoticed : O.Unnoticed s events) :
    O.view (O.run s events) = O.view (O.run s (events.filter fun e => !O.hidden e)) := by
  induction events using List.reverseRecOn with
  | nil => rfl
  | append_singleton events e ih =>
    have before := ih fun front f back parts hides =>
      unnoticed front f (back ++ [e]) (by rw [parts, List.append_assoc, List.cons_append]) hides
    rw [run_concat, List.filter_append]
    cases hides : O.hidden e with
    | true =>
      have same := unnoticed events e [] rfl hides
      rw [same, before, List.filter_singleton, hides]
      simp
    | false =>
      have next := O.follows _ _ e hides before
      rw [next, List.filter_singleton, hides]
      simp [run_concat]

end Observation

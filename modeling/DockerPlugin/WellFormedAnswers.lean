import DockerPlugin.DriverRequests

namespace DockerPlugin
open Octets Picojson PluginConnection Http

/-- The outcomes of a driver's method that can be answered: a status that it throws is a code that
allows content. -/
def Answerable {α : Type} (outcome : Except Exception α) : Prop :=
  ∀ e, outcome = .error (.errorResponse e) → AllowsContent e.status.toInt

/-- The text of a response or of an error. -/
def outcomeText (t : ResponseType) : Except Exception t.Encoded → Bytes
  | .ok res => toJson t res
  | .error (.errorResponse e) => toJson .error e
  | .error (.invalidArgument what) => toJson .error (⟨0, what⟩ : ErrorResponse)
  | .error (.stdException what) => toJson .error (⟨0, what⟩ : ErrorResponse)

theorem answer_text (t : ResponseType) (outcome : Except Exception t.Encoded) :
    (PluginConnection.answer t outcome).2 = outcomeText t outcome := by
  rcases outcome with ⟨_ | _ | _⟩ | _ <;> rfl

theorem answer_allows_iff (t : ResponseType) (outcome : Except Exception t.Encoded) :
    AllowsContent (PluginConnection.answer t outcome).1.toInt ↔ Answerable outcome := by
  rcases outcome with ⟨e | what | what⟩ | res
  · refine ⟨fun allows e' thrown => ?_, fun answerable => answerable e rfl⟩
    cases thrown
    exact allows
  · exact ⟨fun _ => nofun, fun _ => .badRequest⟩
  · exact ⟨fun _ => nofun, fun _ => .serverError⟩
  · exact ⟨fun _ => nofun, fun _ => .ok⟩

/-- The bytes written on account of a request are one response with this content. -/
def DriverRequest.WellAnswered {δ : Type} (r : DriverRequest δ) (content : Bytes) : Prop :=
  ∃ text response, r.Writes text ∧ OneResponse text response ∧ response.body = content

/-- Whatever a driver does on a decoded request, its client gets one response with the outcome for
its content, exactly if no status is thrown that forbids content or is no final code. -/
theorem well_answered_iff {δ : Type} (r : DriverRequest δ) {req : r.handler.request.Decoded}
    (decoded : fromJson r.handler.request r.body = .ok req) :
    r.WellAnswered (outcomeText r.handler.response (r.fn req r.state).1) ↔ Answerable (r.fn req r.state).1 := by
  obtain ⟨-, -, writes⟩ := r.after_decoded decoded
  rw [← answer_allows_iff, ← answer_text]
  constructor
  · rintro ⟨text, response, written, one, -⟩
    obtain rfl := List.append_cancel_left (written.symm.trans writes)
    rw [← Reply.status_of_read (one.read [])]
    exact one.allows
  · intro allows
    exact ⟨_, _, writes, Reply.oneResponse allows, rfl⟩

theorem well_answered_iff_busy : (createVolume busyDriver namedVolume).WellAnswered
    (toJson .error ⟨409, bytes "busy"⟩) := by
  have decoded := (createVolume_body busyDriver namedVolume).symm ▸ namedVolume_decoded
  refine (well_answered_iff (createVolume busyDriver namedVolume) decoded).mpr fun e thrown => ?_
  cases thrown
  constructor <;> decide

/-- A driver that throws errors without a status. -/
def carelessDriver : Volume.Driver Nat :=
  { busyDriver with create := fun _ n => (.error (.errorResponse { error := bytes "no space" }), n + 1) }

/-- A status line of code zero is no answer. -/
theorem no_status_no_answer : ¬ ∃ content, (createVolume carelessDriver namedVolume).WellAnswered content := by
  have decoded := (createVolume_body carelessDriver namedVolume).symm ▸ namedVolume_decoded
  obtain ⟨-, -, writes⟩ := (createVolume carelessDriver namedVolume).after_decoded decoded
  rintro ⟨content, text, response, written, one, -⟩
  obtain rfl := List.append_cancel_left (written.symm.trans writes)
  have low := one.allows.low
  rw [Reply.status_of_read (one.read [])] at low
  exact absurd low (by decide)

end DockerPlugin

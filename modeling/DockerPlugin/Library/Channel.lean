import DockerPlugin.Library.Octets

namespace Channel
open Octets

/-- What happens at the sending end of a byte channel: a buffer is handed over for
writing, the channel accepts bytes, or it fails and leaves bytes unsent. -/
inductive Event
  | write (data : Bytes)
  | sent (data : Bytes)
  | failed (unsent : Bytes)
  deriving DecidableEq, Repr

/-- The events of a channel in the order in which they happened. -/
abbrev Log := List Event

namespace Event

def handed : Event → Bytes
  | write data => data
  | _ => []

def passed : Event → Bytes
  | sent data => data
  | _ => []

/-- Whether the channel was asked to send. -/
def attempted : Event → Bool
  | write _ => false
  | _ => true

end Event

/-- The concatenation of all buffers handed over. -/
def buffers (log : Log) : Bytes := (log.map Event.handed).flatten

/-- The bytes the channel has accepted. -/
def accepted (log : Log) : Bytes := (log.map Event.passed).flatten

/-- How often the channel was asked to send. -/
def attempts (log : Log) : Nat := log.countP Event.attempted

/-- At every moment of the history what the channel has accepted is a prefix of what it was
handed. -/
def Faithful (log : Log) : Prop := ∀ past, past <+: log → accepted past <+: buffers past

@[simp] theorem buffers_append (log next : Log) : buffers (log ++ next) = buffers log ++ buffers next := by
  simp [buffers]

@[simp] theorem accepted_append (log next : Log) : accepted (log ++ next) = accepted log ++ accepted next := by
  simp [accepted]

@[simp] theorem attempts_append (log next : Log) : attempts (log ++ next) = attempts log + attempts next :=
  List.countP_append

@[simp] theorem buffers_nil : buffers [] = [] := rfl
@[simp] theorem accepted_nil : accepted [] = [] := rfl
@[simp] theorem buffers_write (data : Bytes) : buffers [.write data] = data := by simp [buffers, Event.handed]
@[simp] theorem buffers_sent (data : Bytes) : buffers [.sent data] = [] := rfl
@[simp] theorem buffers_failed (data : Bytes) : buffers [.failed data] = [] := rfl
@[simp] theorem accepted_write (data : Bytes) : accepted [.write data] = [] := rfl
@[simp] theorem accepted_sent (data : Bytes) : accepted [.sent data] = data := by simp [accepted, Event.passed]
@[simp] theorem accepted_failed (data : Bytes) : accepted [.failed data] = [] := rfl
@[simp] theorem attempts_nil : attempts [] = 0 := rfl
@[simp] theorem attempts_write (data : Bytes) : attempts [.write data] = 0 := rfl
@[simp] theorem attempts_sent (data : Bytes) : attempts [.sent data] = 1 := rfl
@[simp] theorem attempts_failed (data : Bytes) : attempts [.failed data] = 1 := rfl

theorem Faithful.nil : Faithful [] := by
  intro past before
  rw [List.prefix_nil.mp before]
  exact List.prefix_rfl

/-- One more event keeps a history faithful when the history as a whole stays so. -/
theorem Faithful.concat {log : Log} (faithful : Faithful log) (event : Event)
    (now : accepted (log ++ [event]) <+: buffers (log ++ [event])) : Faithful (log ++ [event]) := by
  intro past before
  rcases List.prefix_concat_iff.mp before with whole | earlier
  · rw [whole]
    exact now
  · exact faithful past earlier

theorem Faithful.now {log : Log} (faithful : Faithful log) : accepted log <+: buffers log :=
  faithful log List.prefix_rfl

theorem Faithful.write {log : Log} (faithful : Faithful log) (data : Bytes) : Faithful (log ++ [.write data]) := by
  apply faithful.concat
  simpa using faithful.now.trans (List.prefix_append _ data)

theorem Faithful.failed {log : Log} (faithful : Faithful log) (data : Bytes) :
    Faithful (log ++ [.failed data]) := by
  apply faithful.concat
  simpa using faithful.now

end Channel

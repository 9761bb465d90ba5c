import DockerPlugin.PluginSessions

namespace DockerPlugin
open Octets

/-- What a class sees of the body of a message: the argument of `on_body`, and what `body()`
reads in `on_message_complete`. -/
inductive BodyEvent
  | onBody (data : Bytes)
  | onMessageComplete (body : Bytes)
  deriving DecidableEq

namespace Virtuals
variable {σ : Type}

/-- A method of a class, in one that has more members. -/
def within {τ : Type} (method : Connection σ → Int × Connection σ) (c : Connection (σ × τ)) : Int × Connection (σ × τ) :=
  let (res, inner) := method ⟨c.http, c.self.1⟩
  (res, ⟨inner.http, (inner.self, c.self.2)⟩)

/-- A class that also keeps a record of what it sees of the bodies. -/
def recording (v : Virtuals σ) : Virtuals (σ × List BodyEvent) where
  onMessageBegin := within v.onMessageBegin
  onUrl method url := within (v.onUrl method url)
  onHeaderField field := within (v.onHeaderField field)
  onHeaderValue value := within (v.onHeaderValue value)
  onHeadersComplete := within v.onHeadersComplete
  onBody data c := within (v.onBody data) { c with self := (c.self.1, c.self.2 ++ [.onBody data]) }
  onMessageComplete c :=
    within v.onMessageComplete { c with self := (c.self.1, c.self.2 ++ [.onMessageComplete c.http.body]) }

theorem recording_buffering {v : Virtuals σ} (buffering : v.Buffering) : v.recording.Buffering where
  onMessageBegin c := buffering.onMessageBegin ⟨c.http, c.self.1⟩
  onUrl url c := buffering.onUrl url ⟨c.http, c.self.1⟩
  onHeaderField field c := buffering.onHeaderField field ⟨c.http, c.self.1⟩
  onHeaderValue value c := buffering.onHeaderValue value ⟨c.http, c.self.1⟩
  onHeadersComplete c := buffering.onHeadersComplete ⟨c.http, c.self.1⟩
  onBody data c := buffering.onBody data ⟨c.http, c.self.1⟩

theorem recording_observes (v : Virtuals σ) : v.recording.Observes Prod.snd (fun _ log => log) where
  onMessageBegin _ := rfl
  onUrl _ _ := rfl
  onHeaderField _ _ := rfl
  onHeaderValue _ _ := rfl
  onHeadersComplete _ := rfl

end Virtuals

namespace Connection
variable {σ : Type} {v : Virtuals σ}

/-- The end of a buffered message: one call of `on_body` with the buffer, and the same text for
`on_message_complete`. -/
theorem complete_record (policy : InformationResult) (buffering : v.Buffering) {c : Connection (σ × List BodyEvent)}
    (gathered : c.http.mBufferBody = true) :
    (onRead policy v.recording [.onMessageComplete] c).self.2 =
      c.self.2 ++ [.onBody c.http.mBuffer, .onMessageComplete c.http.mBuffer] := by
  obtain ⟨zero, kept⟩ := (Virtuals.recording_buffering buffering).onBody c.http.mBuffer c
  have step : getSettings v.recording .onMessageComplete c =
      v.recording.onMessageComplete (v.recording.onBody c.http.mBuffer c).2 := by
    simp only [getSettings, gathered, if_true]
    rw [if_neg (by simpa using zero)]
  have recorded : ((v.recording.onMessageComplete (v.recording.onBody c.http.mBuffer c).2).2).self.2 =
      (v.recording.onBody c.http.mBuffer c).2.self.2 ++
        [.onMessageComplete (v.recording.onBody c.http.mBuffer c).2.http.body] := rfl
  have called : (v.recording.onBody c.http.mBuffer c).2.self.2 = c.self.2 ++ [.onBody c.http.mBuffer] := rfl
  rw [kept, called, List.append_assoc] at recorded
  simp only [onRead, step]
  split <;> exact recorded

/-- The body of a message is handed over as it was sent exactly if no trailer field came after
it, or there was none. -/
theorem body_delivered_iff (policy : InformationResult) (buffering : v.Buffering) {d : Delivery}
    (post : d.method = .httpPost) (c : Connection (σ × List BodyEvent)) :
    (onRead policy v.recording d.callbacks c).self.2 =
        c.self.2 ++ [.onBody d.body.flatten, .onMessageComplete d.body.flatten] ↔
      d.trailers = [] ∨ d.body.flatten = [] := by
  obtain ⟨next, headers, place, steps, reads⟩ := ReadingAt.message policy
    (Virtuals.recording_buffering buffering) (Virtuals.recording_observes v) post c []
  have gathered : next.http.mBufferBody = true := by
    rw [reads.http]
    rfl
  have text : next.http.mBuffer = d.message.seenBody := by
    rw [reads.http]
    rfl
  have agree : c.self.2 ++ [.onBody d.message.seenBody, .onMessageComplete d.message.seenBody] =
      c.self.2 ++ [.onBody d.body.flatten, .onMessageComplete d.body.flatten] ↔
        d.message.seenBody = d.body.flatten := by simp
  rw [List.append_nil] at steps
  rw [steps, complete_record policy buffering gathered, text, reads.self, agree]
  cases trailing : d.trailers with
  | nil => simp [Message.seenBody, Delivery.message, trailing]
  | cons spans more => simp [Message.seenBody, Delivery.message, trailing, eq_comm]

/-- A body in two spans with a trailer field after it. -/
def trailedBody : Delivery :=
  ⟨.httpPost, [bytes "/VolumeDriver.Remove"], [], [bytes "\x7b\"Name\":", bytes "\"v\"\x7d"],
    [([bytes "Checksum"], [bytes "7"])]⟩

theorem body_delivered_untrailed :
    (onRead .stops (pluginHttpConnection Nat).recording { trailedBody with trailers := [] }.callbacks
        ⟨.create ⟨3, fun _ => .accepts 9, []⟩, ({ mPlugin := {}, drivers := 0 }, [])⟩).self.2 =
      [.onBody (bytes "\x7b\"Name\":\"v\"\x7d"), .onMessageComplete (bytes "\x7b\"Name\":\"v\"\x7d")] :=
  (body_delivered_iff .stops (pluginHttpConnection_buffering Nat) rfl _).mpr (.inl rfl)

theorem body_lost_to_trailer :
    (onRead .stops (pluginHttpConnection Nat).recording trailedBody.callbacks
        ⟨.create ⟨3, fun _ => .accepts 9, []⟩, ({ mPlugin := {}, drivers := 0 }, [])⟩).self.2 =
      [.onBody [], .onMessageComplete []] ∧ trailedBody.body.flatten ≠ [] := by
  decide

end Connection

end DockerPlugin

import DockerPlugin.Plugin
import DockerPlugin.ResponseWrites

namespace DockerPlugin
open Octets Channel

/-- Among the calls of `send` that are made, once one fails, every later one fails too. -/
def FailStop (sends : Nat → SendResult) (made : Nat) : Prop :=
  ∀ i j, i ≤ j → j < made → sends i = .fails → sends j = .fails

theorem FailStop.mono {sends : Nat → SendResult} {made fewer : Nat} (failStop : FailStop sends made)
    (less : fewer ≤ made) : FailStop sends fewer :=
  fun i j order before failed => failStop i j order (by omega) failed

namespace UdsConnection

/-- A connection that has made some of the calls of `send`: if their failures are final, either nothing
was dropped so far, or nothing can be sent any more. -/
structure Sound (sends : Nat → SendResult) (c : UdsConnection) : Prop where
  coming : c.sends = fun i => sends (attempts c.log + i)
  faithful : FailStop sends (attempts c.log) → Faithful c.log
  settled : FailStop sends (attempts c.log) →
    c.accepted = c.written ∨ (∃ i < attempts c.log, sends i = .fails) ∨ c.mSocket < 0

variable {sends : Nat → SendResult}

/-- The loop over a buffer whose front has been sent: what is still to come completes what the
socket has accepted to what was handed over. -/
theorem sendLoop_sound {fuel : Nat} {ptr : Bytes} {c : UdsConnection}
    (coming : c.sends = fun i => sends (attempts c.log + i))
    (faithful : FailStop sends (attempts c.log) → Faithful c.log) (enough : ptr.length ≤ fuel)
    (pending : FailStop sends (attempts c.log) →
      c.accepted ++ ptr = c.written ∨ ∃ i < attempts c.log, sends i = .fails) :
    (sendLoop fuel ptr c).2.Sound sends := by
  induction fuel generalizing ptr c with
  | zero =>
    cases ptr with
    | nil => exact ⟨coming, faithful, fun failStop => by simpa [sendLoop] using (pending failStop).imp_right Or.inl⟩
    | cons b ptr => simp at enough
  | succ fuel ih =>
    cases ptr with
    | nil => exact ⟨coming, faithful, fun failStop => by simpa [sendLoop] using (pending failStop).imp_right Or.inl⟩
    | cons b ptr =>
      simp only [sendLoop, send]
      have rest : ∀ event, attempts [event] = 1 →
          (fun i => c.sends (i + 1)) = fun i => sends (attempts (c.log ++ [event]) + i) := by
        intro event one
        funext i
        rw [coming, attempts_append, one]
        exact congrArg sends (by omega)
      have next : c.sends 0 = sends (attempts c.log) := by simp [coming]
      cases first : c.sends 0 with
      | fails =>
        rw [next] at first
        refine ⟨rest _ rfl, fun failStop => ?_, fun _ => Or.inr (Or.inl ⟨attempts c.log, by simp, first⟩)⟩
        exact (faithful (failStop.mono (by simp))).failed _
      | accepts most =>
        rw [next] at first
        -- No send has failed: this one would have failed too.
        have clean : FailStop sends (attempts c.log + 1) → c.accepted ++ (b :: ptr) = c.written := by
          intro failStop
          refine (pending (failStop.mono (by omega))).resolve_right ?_
          rintro ⟨i, before, failed⟩
          cases first.symm.trans (failStop i (attempts c.log) before.le (by omega) failed)
        have whole : (b :: ptr).take most ++ (b :: ptr).drop (min most (b :: ptr).length) = b :: ptr := by
          rw [List.take_eq_take_min, List.take_append_drop]
        have positive := most.pos
        have split : FailStop sends (attempts c.log + 1) →
            Channel.accepted c.log ++ (b :: ptr).take most ++ (b :: ptr).drop (min most (b :: ptr).length) =
              Channel.buffers c.log := by
          intro failStop
          rw [List.append_assoc, whole]
          exact clean failStop
        apply ih
        · exact rest _ rfl
        · intro failStop
          rw [attempts_append, attempts_sent] at failStop
          apply (faithful (failStop.mono (by omega))).concat
          rw [accepted_append, accepted_sent, buffers_append, buffers_sent, List.append_nil, ← split failStop]
          exact List.prefix_append _ _
        · simp only [List.length_drop, List.length_cons] at enough ⊢
          omega
        · intro failStop
          rw [attempts_append, attempts_sent] at failStop
          left
          simpa [UdsConnection.accepted, UdsConnection.written] using split failStop

/-- A write keeps the history sound. -/
theorem write_sound {c : UdsConnection} (sound : c.Sound sends) (data : Bytes) : (c.write data).2.Sound sends := by
  have same : attempts (c.log ++ [.write data]) = attempts c.log := by simp
  have coming : c.sends = fun i => sends (attempts (c.log ++ [.write data]) + i) := by rw [same, ← sound.coming]
  have handed : FailStop sends (attempts (c.log ++ [.write data])) → Faithful (c.log ++ [.write data]) := fun failStop =>
    (sound.faithful (same ▸ failStop)).write data
  simp only [write]
  split
  · rename_i closed
    exact ⟨coming, handed, fun _ => Or.inr (Or.inr closed)⟩
  · rename_i opened
    have pending : FailStop sends (attempts (c.log ++ [.write data])) →
        ({ c with log := c.log ++ [.write data] } : UdsConnection).accepted ++ data =
          ({ c with log := c.log ++ [.write data] } : UdsConnection).written ∨
        ∃ i < attempts (c.log ++ [.write data]), sends i = .fails := by
      intro failStop
      rw [same] at failStop ⊢
      rcases sound.settled failStop with clean | failed | closed
      · left
        simpa [accepted, written] using clean
      · exact Or.inr failed
      · exact absurd closed opened
    have loop := @sendLoop_sound sends data.length data { c with log := c.log ++ [.write data] } coming handed
      le_rfl pending
    split <;> (rename_i equal; rw [equal] at loop; exact loop)

theorem writes_sound {c : UdsConnection} (sound : c.Sound sends) (buffers : List Bytes) :
    (c.writes buffers).Sound sends := by
  induction buffers generalizing c with
  | nil => exact sound
  | cons data rest ih => exact ih (write_sound sound data)

theorem close_sound {c : UdsConnection} (sound : c.Sound sends) : c.close.Sound sends :=
  ⟨sound.coming, sound.faithful, fun _ => Or.inr (Or.inr (by simp [close]))⟩

end UdsConnection

/-- What the code of a class derived from `http_connection` can do with its base part: the
protected members are all it has. -/
inductive Operation
  | responseStatus (status : Int32) (msg : Bytes)
  | responseHeaders (edit : HttpHeaderSet → HttpHeaderSet)
  | sendHeaders
  | sendData (data : Bytes)
  | endResponse
  | endWith (data : Bytes)
  | bufferBody
  | bufferHeaders
  | write (data : Bytes)
  | close

namespace Operation

def apply : Operation → HttpConnection → HttpConnection
  | responseStatus status msg, c => c.responseStatus status msg
  | responseHeaders edit, c => { c with mResponseHeaders := edit c.mResponseHeaders }
  | sendHeaders, c => c.sendHeaders
  | sendData data, c => c.sendData data
  | endResponse, c => c.end_
  | endWith data, c => c.endWith data
  | bufferBody, c => c.bufferBody
  | bufferHeaders, c => c.bufferHeaders
  | write data, c => c.write data
  | close, c => c.close

end Operation

namespace HttpConnection

theorem sendHeaders_writes (c : HttpConnection) : ∃ buffers, c.sendHeaders.uds = c.uds.writes buffers := by
  cases sent : c.mResponseHeadersSent with
  | true => exact ⟨[], by rw [sendHeaders, if_pos sent]; rfl⟩
  | false => exact ⟨[c.block], by rw [sendHeaders_eq sent]; rfl⟩

theorem announceChunked_uds (c : HttpConnection) : c.announceChunked.uds = c.uds := by
  unfold announceChunked
  split <;> rfl

theorem sendData_writes (c : HttpConnection) (data : Bytes) :
    ∃ buffers, (c.sendData data).uds = c.uds.writes buffers := by
  cases sent : c.mResponseHeadersSent with
  | true => exact ⟨_, by rw [sendData_sent sent]; rfl⟩
  | false =>
    obtain ⟨head, first⟩ := c.announceChunked.sendHeaders_writes
    refine ⟨head ++ dataWrites c.announceChunked.sendHeaders.mResponseChunked data, ?_⟩
    rw [sendData_unsent sent, sendData_sent (sendHeaders_sent _), withUds_uds, first, announceChunked_uds,
      UdsConnection.writes_append]

theorem end_unsent {c : HttpConnection} (unsent : c.mResponseHeadersSent = false) :
    c.end_ = (if !c.mResponseHeaders.has (bytes "content-length") then
      c.setResponseHeader (bytes "content-length") (bytes "0") else c).sendHeaders.end_ := by
  have closed : ¬ c.mResponseHeadersSent = true := by simp [unsent]
  conv => lhs; unfold end_
  conv => rhs; unfold end_
  rw [if_neg closed, if_pos (sendHeaders_sent _)]

theorem end_writes (c : HttpConnection) : ∃ buffers, c.end_.uds = c.uds.writes buffers := by
  cases sent : c.mResponseHeadersSent with
  | true => exact ⟨_, by rw [end_sent sent]; rfl⟩
  | false =>
    rw [end_unsent sent]
    split
    · obtain ⟨head, first⟩ := (c.setResponseHeader (bytes "content-length") (bytes "0")).sendHeaders_writes
      exact ⟨head ++ _, by rw [end_sent (sendHeaders_sent _), cleared_uds, first, UdsConnection.writes_append]; rfl⟩
    · obtain ⟨head, first⟩ := c.sendHeaders_writes
      exact ⟨head ++ _, by rw [end_sent (sendHeaders_sent _), cleared_uds, first, UdsConnection.writes_append]⟩

theorem endWith_writes (c : HttpConnection) (data : Bytes) :
    ∃ buffers, (c.endWith data).uds = c.uds.writes buffers := by
  unfold endWith
  split
  · obtain ⟨front, first⟩ := c.sendData_writes data
    obtain ⟨back, second⟩ := (c.sendData data).end_writes
    exact ⟨front ++ back, by rw [UdsConnection.writes_append, ← first, ← second]⟩
  · obtain ⟨front, first⟩ :=
      (c.setResponseHeader (bytes "content-length") (decimal data.length)).sendData_writes data
    obtain ⟨back, second⟩ :=
      ((c.setResponseHeader (bytes "content-length") (decimal data.length)).sendData data).end_writes
    exact ⟨front ++ back, by
      rw [UdsConnection.writes_append, show c.uds =
        (c.setResponseHeader (bytes "content-length") (decimal data.length)).uds from rfl, ← first, ← second]⟩

end HttpConnection

/-- Every operation reaches the transport by writes, or closes it. -/
theorem Operation.apply_uds (operation : Operation) (c : HttpConnection) :
    (∃ buffers, (operation.apply c).uds = c.uds.writes buffers) ∨ (operation.apply c).uds = c.uds.close := by
  cases operation with
  | responseStatus status msg => exact Or.inl ⟨[], rfl⟩
  | responseHeaders edit => exact Or.inl ⟨[], rfl⟩
  | sendHeaders => exact Or.inl c.sendHeaders_writes
  | sendData data => exact Or.inl (c.sendData_writes data)
  | endResponse => exact Or.inl c.end_writes
  | endWith data => exact Or.inl (c.endWith_writes data)
  | bufferBody => exact Or.inl ⟨[], rfl⟩
  | bufferHeaders => exact Or.inl ⟨[], rfl⟩
  | write data => exact Or.inl ⟨[data], rfl⟩
  | close => exact Or.inr rfl

theorem Operation.apply_sound {sends : Nat → SendResult} {c : HttpConnection} (sound : c.uds.Sound sends)
    (operation : Operation) : (operation.apply c).uds.Sound sends := by
  rcases operation.apply_uds c with ⟨buffers, same⟩ | same
  · rw [same]
    exact UdsConnection.writes_sound sound buffers
  · rw [same]
    exact UdsConnection.close_sound sound

/-- One base part comes from another by operations. -/
def Operations (before after : HttpConnection) : Prop :=
  ∃ operations : List Operation, after = operations.foldl (fun c operation => operation.apply c) before

theorem Operations.sound {sends : Nat → SendResult} {before after : HttpConnection} (operations : Operations before after)
    (sound : before.uds.Sound sends) : after.uds.Sound sends := by
  obtain ⟨operations, rfl⟩ := operations
  induction operations generalizing before with
  | nil => exact sound
  | cons operation rest ih => exact ih (operation.apply_sound sound)

/-- A class whose methods reach the base part by its operations only, as every derived class
does. -/
structure Virtuals.WithinOperations {σ : Type} (v : Virtuals σ) : Prop where
  onMessageBegin : ∀ c, Operations c.http (v.onMessageBegin c).2.http
  onUrl : ∀ method url c, Operations c.http (v.onUrl method url c).2.http
  onHeaderField : ∀ field c, Operations c.http (v.onHeaderField field c).2.http
  onHeaderValue : ∀ value c, Operations c.http (v.onHeaderValue value c).2.http
  onHeadersComplete : ∀ c, Operations c.http (v.onHeadersComplete c).2.http
  onBody : ∀ data c, Operations c.http (v.onBody data c).2.http
  onMessageComplete : ∀ c, Operations c.http (v.onMessageComplete c).2.http

theorem invokePluginHandler_operations {δ : Type} (h : Handler) (c : Connection (PluginConnection δ)) :
    Operations c.http (PluginConnection.invokePluginHandler h c).http := by
  let typed : Operation := .responseHeaders fun headers =>
    headers.set (bytes "content-type") (bytes "application/vnd.docker.plugins.v1.1+json")
  unfold PluginConnection.invokePluginHandler
  dsimp only
  split
  · exact ⟨[typed, .responseStatus 404 [], .endWith (bytes "Not found")], rfl⟩
  · exact ⟨[typed, .responseStatus _ [], .endWith _], rfl⟩

/-- The plugin's connection is of such a class. -/
theorem pluginHttpConnection_withinOperations (δ : Type) : (pluginHttpConnection δ).WithinOperations where
  onMessageBegin _ := ⟨[.bufferHeaders, .bufferBody], rfl⟩
  onUrl method url c := by
    show Operations c.http (PluginConnection.onUrl method url c).2.http
    unfold PluginConnection.onUrl
    split
    · exact ⟨[.responseStatus 405 [], .endWith (bytes "Method not allowed")], rfl⟩
    · exact ⟨[], rfl⟩
  onHeaderField _ _ := ⟨[], rfl⟩
  onHeaderValue _ _ := ⟨[], rfl⟩
  onHeadersComplete _ := ⟨[], rfl⟩
  onBody _ _ := ⟨[], rfl⟩
  onMessageComplete c := by
    show Operations c.http (PluginConnection.onMessageComplete c).2.http
    unfold PluginConnection.onMessageComplete
    split
    · exact invokePluginHandler_operations _ c
    · exact ⟨[.responseStatus 404 [], .endWith (bytes "Not found")], rfl⟩

/-- A step in the life of a connection: the parser makes a callback, or the derived class
uses the base part by itself. -/
inductive ConnectionStep
  | callback (callback : Callback)
  | operation (operation : Operation)

namespace Connection
variable {σ : Type}

def step (v : Virtuals σ) (c : Connection σ) : ConnectionStep → Connection σ
  | .callback callback => (getSettings v callback c).2
  | .operation operation => c.mapHttp operation.apply

def run (v : Virtuals σ) (c : Connection σ) (steps : List ConnectionStep) : Connection σ := steps.foldl (step v) c

theorem assignHeader_uds (c : HttpConnection) : c.assignHeader.uds = c.uds := by
  unfold HttpConnection.assignHeader
  split <;> rfl

theorem callback_sound {sends : Nat → SendResult} {v : Virtuals σ} (within : v.WithinOperations) {c : Connection σ}
    (sound : c.http.uds.Sound sends) (callback : Callback) : (getSettings v callback c).2.http.uds.Sound sends := by
  cases callback with
  | onMessageBegin => exact (within.onMessageBegin (c.mapHttp .clearBuffer)).sound sound
  | onUrl span => exact sound
  | onUrlComplete method => exact (within.onUrl method c.http.mBuffer c).sound sound
  | onHeaderField span => exact sound
  | onHeaderFieldComplete =>
    have after := (within.onHeaderField c.http.mBuffer c).sound sound
    simp only [getSettings]
    split <;> exact after
  | onHeaderValue span => exact sound
  | onHeaderValueComplete =>
    have after := (within.onHeaderValue c.http.mBuffer c).sound sound
    simp only [getSettings]
    split
    · simpa only [mapHttp, HttpConnection.clearBuffer, assignHeader_uds] using after
    · exact after
  | onHeadersComplete => exact (within.onHeadersComplete (c.mapHttp .clearBuffer)).sound sound
  | onBody span =>
    simp only [getSettings]
    split
    · exact sound
    · exact (within.onBody span c).sound sound
  | onMessageComplete =>
    simp only [getSettings]
    split
    · have after := (within.onBody c.http.mBuffer c).sound sound
      split
      · exact after
      · exact (within.onMessageComplete _).sound after
    · exact (within.onMessageComplete (c.mapHttp .clearBuffer)).sound sound

theorem run_sound {sends : Nat → SendResult} {v : Virtuals σ} (within : v.WithinOperations) {c : Connection σ}
    (sound : c.http.uds.Sound sends) (steps : List ConnectionStep) : (c.run v steps).http.uds.Sound sends := by
  induction steps generalizing c with
  | nil => exact sound
  | cons next rest ih =>
    refine @ih (step v c next) ?_
    cases next with
    | callback callback => exact callback_sound within sound callback
    | operation operation => exact operation.apply_sound sound

/-- Where the sends that a run makes fail for good once they fail, at every moment of it the bytes
accepted by the socket are a prefix of what was written. -/
theorem run_faithful {v : Virtuals σ} (within : v.WithinOperations) {c : Connection σ}
    (fresh : c.http.uds.log = []) (steps : List ConnectionStep)
    (failStop : FailStop c.http.uds.sends (attempts (c.run v steps).http.uds.log)) :
    Faithful (c.run v steps).http.uds.log := by
  have start : c.http.uds.Sound c.http.uds.sends := by
    refine ⟨?_, fun _ => ?_, fun _ => Or.inl ?_⟩
    · simp [fresh]
    · rw [fresh]
      exact Faithful.nil
    · simp [UdsConnection.accepted, UdsConnection.written, fresh]
  exact (run_sound within start steps).faithful failStop

/-- A peer that goes away in the middle of the answer to an activation. -/
theorem run_faithful_peer_gone :
    Faithful (run (pluginHttpConnection Nat)
      ⟨.create ⟨3, fun i => if i = 0 then .accepts 5 else .fails, []⟩, { mPlugin := {}, drivers := 0 }⟩
      [.callback .onMessageBegin, .callback (.onUrl (bytes "/Plugin.Activate")), .callback (.onUrlComplete .httpPost),
        .callback .onHeadersComplete, .callback .onMessageComplete]).http.uds.log := by
  refine run_faithful (pluginHttpConnection_withinOperations Nat) rfl _ ?_
  intro i j order _ failed
  have later : j ≠ 0 := by
    rintro rfl
    obtain rfl : i = 0 := by omega
    simp [HttpConnection.create] at failed
  simp [HttpConnection.create, later]

/-- The header block is dropped by an interrupted send, and the body goes out after it. -/
theorem run_drops_header_block :
    ¬ Faithful (run {} ⟨.create ⟨3, fun i => if i = 0 then .fails else .accepts 100, []⟩, ()⟩
      [.operation (.endWith (bytes "ok"))]).http.uds.log := by
  intro faithful
  exact absurd faithful.now (by decide)

end Connection

end DockerPlugin

import DockerPlugin.SendFailures
import DockerPlugin.Messages

namespace DockerPlugin
open Octets

namespace HttpConnection

/-- The iterator can be written through: it points at one of the request headers. -/
def Writable (c : HttpConnection) : Prop :=
  ∃ position, c.mCurrentHeader = some position ∧ position < c.mHeaders.entries.length

/-- Headers that are buffered still are the same, with the same iterator. -/
def Undisturbed (before after : HttpConnection) : Prop :=
  after.mBufferHeaders = true → before.mBufferHeaders = true ∧ after.mCurrentHeader = before.mCurrentHeader ∧
    after.mHeaders = before.mHeaders

theorem Undisturbed.trans {c c' c'' : HttpConnection} (first : Undisturbed c c') (second : Undisturbed c' c'') :
    Undisturbed c c'' := fun buffers => by
  obtain ⟨still, iterator, headers⟩ := second buffers
  obtain ⟨before, iterator', headers'⟩ := first still
  exact ⟨before, iterator.trans iterator', headers.trans headers'⟩

theorem Undisturbed.writable {before after : HttpConnection} (same : Undisturbed before after)
    (writable : before.mBufferHeaders = true → before.Writable) (buffers : after.mBufferHeaders = true) :
    after.Writable := by
  obtain ⟨still, iterator, headers⟩ := same buffers
  rw [Writable, iterator, headers]
  exact writable still

theorem sendHeaders_undisturbed (c : HttpConnection) : Undisturbed c c.sendHeaders := by
  cases sent : c.mResponseHeadersSent with
  | true =>
    rw [sendHeaders, if_pos sent]
    exact fun buffers => ⟨buffers, rfl, rfl⟩
  | false =>
    rw [sendHeaders_eq sent]
    exact fun buffers => ⟨buffers, rfl, rfl⟩

theorem announceChunked_undisturbed (c : HttpConnection) : Undisturbed c c.announceChunked := by
  unfold announceChunked
  split
  · exact fun buffers => ⟨buffers, rfl, rfl⟩
  · exact fun buffers => ⟨buffers, rfl, rfl⟩

theorem sendData_undisturbed (c : HttpConnection) (data : Bytes) : Undisturbed c (c.sendData data) := by
  have later : ∀ c : HttpConnection, c.mResponseHeadersSent = true → Undisturbed c (c.sendData data) := fun c sent => by
    rw [sendData_sent sent]
    exact fun buffers => ⟨buffers, rfl, rfl⟩
  cases sent : c.mResponseHeadersSent with
  | true => exact later c sent
  | false =>
    rw [sendData_unsent sent]
    exact (c.announceChunked_undisturbed.trans c.announceChunked.sendHeaders_undisturbed).trans
      (later _ (sendHeaders_sent _))

end HttpConnection

open HttpConnection

/-- Only to start buffering headers disturbs those that are buffered: the end of a response gives them up. -/
theorem Operation.apply_undisturbed {operation : Operation} (other : operation ≠ .bufferHeaders) (c : HttpConnection) :
    Undisturbed c (operation.apply c) := by
  cases operation with
  | responseStatus status msg => exact fun buffers => ⟨buffers, rfl, rfl⟩
  | responseHeaders edit => exact fun buffers => ⟨buffers, rfl, rfl⟩
  | sendHeaders => exact c.sendHeaders_undisturbed
  | sendData data => exact c.sendData_undisturbed data
  | endResponse => exact fun buffers => absurd buffers Bool.false_ne_true
  | endWith data => exact fun buffers => absurd buffers Bool.false_ne_true
  | bufferBody => exact fun buffers => ⟨buffers, rfl, rfl⟩
  | bufferHeaders => exact absurd rfl other
  | write data => exact fun buffers => ⟨buffers, rfl, rfl⟩
  | close => exact fun buffers => ⟨buffers, rfl, rfl⟩

/-- Operations among which is none that starts to buffer headers. -/
def CalmOperations (before after : HttpConnection) : Prop :=
  ∃ operations : List Operation, .bufferHeaders ∉ operations ∧
    after = operations.foldl (fun c operation => operation.apply c) before

theorem CalmOperations.undisturbed {before after : HttpConnection} (calm : CalmOperations before after) :
    Undisturbed before after := by
  obtain ⟨operations, calm, rfl⟩ := calm
  induction operations generalizing before with
  | nil => exact fun buffers => ⟨buffers, rfl, rfl⟩
  | cons operation rest ih =>
    obtain ⟨first, later⟩ := not_or.mp (mt List.mem_cons.mpr calm)
    exact (operation.apply_undisturbed (Ne.symm first) before).trans (ih later)

/-- Steps in which the value of a header is completed only after its name is, with nothing in between but its spans
and operations that do not start to buffer headers. The flag tells whether a name waits for its value. -/
def Ordered : Bool → List ConnectionStep → Prop
  | _, [] => True
  | _, .callback .onHeaderFieldComplete :: rest => Ordered true rest
  | named, .callback (.onHeaderValue _) :: rest => Ordered named rest
  | named, .callback .onHeaderValueComplete :: rest => named = true ∧ Ordered false rest
  | _, .callback _ :: rest => Ordered false rest
  | _, .operation .bufferHeaders :: rest => Ordered false rest
  | named, .operation _ :: rest => Ordered named rest

section
variable {rest : List ConnectionStep} (ordered : Ordered false rest)
include ordered

/-- Spans of the text that `announce` hands over stand anywhere but between the two parts of a header. -/
theorem spans_ordered (announce : Bytes → Callback) (apart : ∀ span later, Ordered false later →
    Ordered false (.callback (announce span) :: later)) (spans : List Bytes) :
    Ordered false ((spans.map announce).map .callback ++ rest) := by
  induction spans with
  | nil => exact ordered
  | cons span spans ih => exact apart span _ ih

theorem field_ordered (field : List Bytes × List Bytes) :
    Ordered false ((fieldCallbacks field).map .callback ++ rest) := by
  have value : Ordered true
      ((field.2.map .onHeaderValue).map .callback ++ .callback .onHeaderValueComplete :: rest) := by
    induction field.2 with
    | nil => exact ⟨rfl, ordered⟩
    | cons span spans ih => exact ih
  have name : Ordered false (.callback .onHeaderFieldComplete ::
      ((field.2.map .onHeaderValue).map .callback ++ .callback .onHeaderValueComplete :: rest)) := value
  have whole := spans_ordered name .onHeaderField (fun _ _ later => later) field.1
  rw [fieldCallbacks, List.map_append, List.map_cons, List.map_append, List.append_assoc, List.cons_append,
    List.append_assoc]
  exact whole

theorem fields_ordered (fields : List (List Bytes × List Bytes)) :
    Ordered false ((fields.flatMap fieldCallbacks).map .callback ++ rest) := by
  induction fields with
  | nil => exact ordered
  | cons field fields ih =>
    rw [List.flatMap_cons, List.map_append, List.append_assoc]
    exact field_ordered ih field

theorem delivery_ordered (d : Delivery) : Ordered false (d.callbacks.map .callback ++ rest) := by
  have complete : Ordered false (.callback .onMessageComplete :: rest) := ordered
  have body := spans_ordered (fields_ordered complete d.trailers) .onBody (fun _ _ later => later) d.body
  have headers := @fields_ordered (.callback .onHeadersComplete :: _) body d.headers
  have whole := @spans_ordered (.callback (.onUrlComplete d.method) :: _) headers .onUrl (fun _ _ later => later) d.url
  simp only [Delivery.callbacks, List.map_append, List.map_cons, List.append_assoc, List.cons_append, List.map_nil,
    List.nil_append] at whole ⊢
  exact whole

end

/-- Whatever messages are delivered one after the other, their steps are ordered. -/
theorem deliveries_ordered (history : List Delivery) :
    Ordered false ((history.flatMap Delivery.callbacks).map .callback) := by
  induction history with
  | nil => trivial
  | cons d history ih =>
    rw [List.flatMap_cons, List.map_append]
    exact delivery_ordered ih d

namespace Connection
variable {σ : Type} {v : Virtuals σ}

/-- The name of a header that is buffered is where the iterator points. -/
theorem fieldComplete_writable (c : Connection σ)
    (buffers : (step v c (.callback .onHeaderFieldComplete)).http.mBufferHeaders = true) :
    (step v c (.callback .onHeaderFieldComplete)).http.Writable := by
  simp only [step, getSettings] at buffers ⊢
  split at buffers
  · next gathers =>
    rw [if_pos gathers]
    refine ⟨_, rfl, ?_⟩
    simp only [mapHttp, HttpConnection.clearBuffer, HttpConnection.emplaceHeader, Multimap.upperBound, Multimap.emplace]
    rw [List.length_append, List.length_cons]
    omega
  · next gathers => exact absurd buffers gathers

/-- Operations outside the class keep what is known of the iterator while they keep the steps ordered. -/
theorem operation_writable {operation : Operation} (other : operation ≠ .bufferHeaders) {c : Connection σ}
    (writable : c.http.mBufferHeaders = true → c.http.Writable)
    (buffers : (step v c (.operation operation)).http.mBufferHeaders = true) :
    (step v c (.operation operation)).http.Writable :=
  (operation.apply_undisturbed other c.http).writable writable buffers

/-- The first step of ordered ones: what is left is ordered, and if a name waits for its value after it the iterator
points at that name. -/
theorem ordered_step {named : Bool} {next : ConnectionStep} {rest : List ConnectionStep}
    (ordered : Ordered named (next :: rest)) {c : Connection σ}
    (writable : named = true → c.http.mBufferHeaders = true → c.http.Writable) :
    ∃ waits : Bool, Ordered waits rest ∧
      (waits = true → (step v c next).http.mBufferHeaders = true → (step v c next).http.Writable) := by
  cases next with
  | callback callback =>
    cases callback with
    | onHeaderFieldComplete => exact ⟨true, ordered, fun _ => c.fieldComplete_writable⟩
    | onHeaderValue span => exact ⟨named, ordered, writable⟩
    | onHeaderValueComplete => exact ⟨false, ordered.2, fun waits => absurd waits Bool.false_ne_true⟩
    | onMessageBegin => exact ⟨false, ordered, fun waits => absurd waits Bool.false_ne_true⟩
    | onUrl span => exact ⟨false, ordered, fun waits => absurd waits Bool.false_ne_true⟩
    | onUrlComplete method => exact ⟨false, ordered, fun waits => absurd waits Bool.false_ne_true⟩
    | onHeaderField span => exact ⟨false, ordered, fun waits => absurd waits Bool.false_ne_true⟩
    | onHeadersComplete => exact ⟨false, ordered, fun waits => absurd waits Bool.false_ne_true⟩
    | onBody span => exact ⟨false, ordered, fun waits => absurd waits Bool.false_ne_true⟩
    | onMessageComplete => exact ⟨false, ordered, fun waits => absurd waits Bool.false_ne_true⟩
  | operation operation =>
    by_cases starts : operation = .bufferHeaders
    · subst starts
      exact ⟨false, ordered, fun waits => absurd waits Bool.false_ne_true⟩
    · refine ⟨named, ?_, fun waits => operation_writable starts (writable waits)⟩
      cases operation <;> first | exact ordered | exact absurd rfl starts

/-- Where the next value is completed in ordered steps, a name waits for it, and the iterator points at that name. -/
theorem run_writable {steps : List ConnectionStep} {named : Bool} (ordered : Ordered named steps) {c : Connection σ}
    (writable : named = true → c.http.mBufferHeaders = true → c.http.Writable) {before after : List ConnectionStep}
    (parts : steps = before ++ .callback .onHeaderValueComplete :: after)
    (buffers : (c.run v before).http.mBufferHeaders = true) : (c.run v before).http.Writable := by
  subst parts
  induction before generalizing named c with
  | nil => exact writable ordered.1 buffers
  | cons next before ih =>
    obtain ⟨waits, rest, known⟩ := ordered_step (v := v) ordered writable
    exact ih known buffers rest

/-- Whoever starts to buffer headers does not do so between the name and the value of one, and then the value is
always written to a header that is there. -/
theorem header_iterator_valid (attentive : ∀ value c, CalmOperations c.http (v.onHeaderValue value c).2.http)
    {steps : List ConnectionStep} (ordered : Ordered false steps) (c : Connection σ)
    {before after : List ConnectionStep} (parts : steps = before ++ .callback .onHeaderValueComplete :: after)
    (buffers : (v.onHeaderValue (c.run v before).http.mBuffer (c.run v before)).2.http.mBufferHeaders = true) :
    (v.onHeaderValue (c.run v before).http.mBuffer (c.run v before)).2.http.Writable := by
  have calm := attentive (c.run v before).http.mBuffer (c.run v before)
  have unnamed : false = true → c.http.mBufferHeaders = true → c.http.Writable :=
    fun waits => absurd waits Bool.false_ne_true
  exact calm.undisturbed.writable (run_writable ordered unnamed parts) buffers

/-- A body with a trailer field behind it. -/
def trailing : Delivery := ⟨.httpPost, [bytes "/a"], [], [bytes "x"], [([bytes "K"], [bytes "v"])]⟩

def beforeTrailer : List ConnectionStep := [.callback .onMessageBegin, .callback (.onUrl (bytes "/a")),
  .callback (.onUrlComplete .httpPost), .callback .onHeadersComplete, .callback (.onBody (bytes "x")),
  .callback (.onHeaderField (bytes "K")), .callback .onHeaderFieldComplete, .callback (.onHeaderValue (bytes "v"))]

theorem header_iterator_valid_trailer :
    (run (pluginHttpConnection Nat) ⟨.create ⟨3, fun _ => .accepts 9, []⟩, { mPlugin := {}, drivers := 0 }⟩
      beforeTrailer).http.Writable :=
  @header_iterator_valid _ (pluginHttpConnection Nat) (fun _ _ => ⟨[], List.not_mem_nil, rfl⟩) _
    (deliveries_ordered [trailing]) _ beforeTrailer [.callback .onMessageComplete] rfl rfl

/-- A class that starts to buffer headers at the first value. -/
def hasty : Virtuals Unit where
  onHeaderValue _ c := (0, c.mapHttp .bufferHeaders)

example : (run hasty ⟨.create ⟨3, fun _ => .accepts 9, []⟩, ()⟩ (trailing.callbacks.map .callback)).http.mFault =
    true := rfl

end Connection

end DockerPlugin

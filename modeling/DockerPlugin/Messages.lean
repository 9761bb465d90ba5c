import DockerPlugin.HttpCallbacks

namespace DockerPlugin
open Octets

/-- A message as the parser delivers it: every text comes in any number of spans. A header has
the spans of its name and those of its value, and so has a trailer field. -/
structure Delivery where
  method : LlhttpMethod
  url : List Bytes
  headers : List (List Bytes × List Bytes)
  body : List Bytes
  trailers : List (List Bytes × List Bytes)

/-- A message, however it is delivered. -/
structure Message where
  method : LlhttpMethod
  url : Bytes
  headers : List (Bytes × Bytes)
  body : Bytes
  trailers : List (Bytes × Bytes)
  deriving DecidableEq

def fieldCallbacks (field : List Bytes × List Bytes) : List Callback :=
  field.1.map .onHeaderField ++ .onHeaderFieldComplete :: (field.2.map .onHeaderValue ++ [.onHeaderValueComplete])

namespace Delivery

def callbacks (d : Delivery) : List Callback :=
  .onMessageBegin :: (d.url.map .onUrl ++ .onUrlComplete d.method :: (d.headers.flatMap fieldCallbacks ++
    .onHeadersComplete :: (d.body.map .onBody ++ (d.trailers.flatMap fieldCallbacks ++ [.onMessageComplete]))))

def message (d : Delivery) : Message where
  method := d.method
  url := d.url.flatten
  headers := d.headers.map fun field => (field.1.flatten, field.2.flatten)
  body := d.body.flatten
  trailers := d.trailers.map fun field => (field.1.flatten, field.2.flatten)

end Delivery

namespace Message

/-- A message delivered with every text in one piece. -/
def whole (m : Message) : Delivery where
  method := m.method
  url := [m.url]
  headers := m.headers.map fun field => ([field.1], [field.2])
  body := [m.body]
  trailers := m.trailers.map fun field => ([field.1], [field.2])

theorem whole_message (m : Message) : m.whole.message = m := by
  obtain ⟨method, url, headers, body, trailers⟩ := m
  simp [whole, Delivery.message, Function.comp_def]

/-- The buffer at the end of the message: a trailer field takes the body along into its name. -/
def seenBody (m : Message) : Bytes := if m.trailers.isEmpty then m.body else []

end Message

/-- A request header under its lower-case name, as the two completions of a header store it. -/
def HttpHeaderSet.collect (h : HttpHeaderSet) (field : Bytes × Bytes) : HttpHeaderSet :=
  (h.emplace (field.1.map toLower) []).assign (Multimap.upperBound h (field.1.map toLower)) field.2

namespace HttpConnection

/-- A connection in the middle of a message that is buffered. -/
def reading (c : HttpConnection) (buffer : Bytes) (headers : HttpHeaderSet) (position : Option Nat) : HttpConnection :=
  { c with
    mBuffer := buffer, mBufferBody := true, mBufferHeaders := true, mHeaders := headers
    mCurrentHeader := position }

end HttpConnection

section Runs
variable {σ : Type} {policy : InformationResult} {v : Virtuals σ}

theorem onRead_continue {callback : Callback} {c next : Connection σ} (step : getSettings v callback c = (0, next))
    (rest : List Callback) : onRead policy v (callback :: rest) c = onRead policy v rest next := by
  rw [onRead, step]
  rfl

/-- Spans that go to the buffer one by one go there together. -/
theorem onRead_spans {announce : Bytes → Callback} {c : Connection σ}
    (appends : ∀ span (c' : Connection σ), c'.http.mBufferBody = c.http.mBufferBody →
      getSettings v (announce span) c' = (0, c'.mapHttp (·.appendBuffer span)))
    (spans : List Bytes) (rest : List Callback) :
    onRead policy v (spans.map announce ++ rest) c = onRead policy v rest (c.mapHttp (·.appendBuffer spans.flatten)) := by
  induction spans generalizing c with
  | nil => simp [Connection.mapHttp, HttpConnection.appendBuffer]
  | cons span spans ih =>
    rw [List.map_cons, List.cons_append, onRead_continue (appends span c rfl), @ih (c.mapHttp (·.appendBuffer span)) appends]
    simp [Connection.mapHttp, HttpConnection.appendBuffer]

end Runs

/-- A class that enables both buffers when a message begins, and whose other methods leave the
base part alone until the message is complete. -/
structure Virtuals.Buffering {σ : Type} (v : Virtuals σ) : Prop where
  onMessageBegin : ∀ c, (v.onMessageBegin c).1 = 0 ∧ (v.onMessageBegin c).2.http = c.http.bufferHeaders.bufferBody
  onUrl : ∀ url c, (v.onUrl .httpPost url c).1 = 0 ∧ (v.onUrl .httpPost url c).2.http = c.http
  onHeaderField : ∀ field c, (v.onHeaderField field c).1 = 0 ∧ (v.onHeaderField field c).2.http = c.http
  onHeaderValue : ∀ value c, (v.onHeaderValue value c).1 = 0 ∧ (v.onHeaderValue value c).2.http = c.http
  onHeadersComplete : ∀ c, (v.onHeadersComplete c).1 = 0 ∧ (v.onHeadersComplete c).2.http = c.http
  onBody : ∀ data c, (v.onBody data c).1 = 0 ∧ (v.onBody data c).2.http = c.http

/-- What can be told of the members of a class changes with the URL only. -/
structure Virtuals.Observes {σ τ : Type} (v : Virtuals σ) (seen : σ → τ) (atUrl : Bytes → τ → τ) : Prop where
  onMessageBegin : ∀ c, seen (v.onMessageBegin c).2.self = seen c.self
  onUrl : ∀ url c, seen (v.onUrl .httpPost url c).2.self = atUrl url (seen c.self)
  onHeaderField : ∀ field c, seen (v.onHeaderField field c).2.self = seen c.self
  onHeaderValue : ∀ value c, seen (v.onHeaderValue value c).2.self = seen c.self
  onHeadersComplete : ∀ c, seen (v.onHeadersComplete c).2.self = seen c.self

/-- How far a connection has read into a message: its base part, and what can be told of its
members. -/
structure ReadingAt {σ τ : Type} (seen : σ → τ) (c : Connection σ) (start : HttpConnection) (buffer : Bytes)
    (headers : HttpHeaderSet) (position : Option Nat) (value : τ) : Prop where
  http : c.http = start.reading buffer headers position
  self : seen c.self = value

namespace ReadingAt
variable {σ τ : Type} {policy : InformationResult} {v : Virtuals σ} {seen : σ → τ} {atUrl : Bytes → τ → τ}
  {c : Connection σ} {start : HttpConnection} {buffer : Bytes} {headers : HttpHeaderSet} {position : Option Nat}
  {value : τ}

theorem append (reads : ReadingAt seen c start buffer headers position value) (span : Bytes) :
    ReadingAt seen (c.mapHttp (·.appendBuffer span)) start (buffer ++ span) headers position value :=
  ⟨by rw [Connection.mapHttp, reads.http]; rfl, reads.self⟩

theorem clear (reads : ReadingAt seen c start buffer headers position value) :
    ReadingAt seen (c.mapHttp .clearBuffer) start [] headers position value :=
  ⟨by rw [Connection.mapHttp, reads.http]; rfl, reads.self⟩

theorem begin (buffering : v.Buffering) (observes : v.Observes seen atUrl) (c : Connection σ) :
    ∃ next, getSettings v .onMessageBegin c = (0, next) ∧
      ReadingAt seen next c.http [] c.http.mHeaders c.http.mCurrentHeader (seen c.self) := by
  obtain ⟨zero, buffers⟩ := buffering.onMessageBegin (c.mapHttp .clearBuffer)
  refine ⟨(v.onMessageBegin (c.mapHttp .clearBuffer)).2, Prod.ext zero rfl, ?_, observes.onMessageBegin _⟩
  rw [buffers]
  rfl

theorem urlComplete (buffering : v.Buffering) (observes : v.Observes seen atUrl)
    (reads : ReadingAt seen c start buffer headers position value) :
    ∃ next, getSettings v (.onUrlComplete .httpPost) c = (0, next) ∧
      ReadingAt seen next start [] headers position (atUrl buffer value) := by
  obtain ⟨zero, kept⟩ := buffering.onUrl c.http.mBuffer c
  have told := observes.onUrl c.http.mBuffer c
  have text : c.http.mBuffer = buffer := by rw [reads.http]; rfl
  refine ⟨_, Prod.ext zero rfl, ?_, ?_⟩
  · show (v.onUrl .httpPost c.http.mBuffer c).2.http.clearBuffer = _
    rw [kept, reads.http]
    rfl
  · rw [← reads.self, ← text]
    exact told

theorem fieldComplete (buffering : v.Buffering) (observes : v.Observes seen atUrl)
    (reads : ReadingAt seen c start buffer headers position value) :
    ∃ next, getSettings v .onHeaderFieldComplete c = (0, next) ∧
      ReadingAt seen next start [] (headers.emplace (buffer.map toLower) [])
        (some (Multimap.upperBound headers (buffer.map toLower))) value := by
  obtain ⟨zero, kept⟩ := buffering.onHeaderField c.http.mBuffer c
  have told := observes.onHeaderField c.http.mBuffer c
  have collecting : (v.onHeaderField c.http.mBuffer c).2.http.mBufferHeaders = true := by
    rw [kept, reads.http]
    rfl
  refine ⟨_, Prod.ext zero rfl, ?_, ?_⟩
  · simp only [getSettings, Connection.mapHttp, kept]
    rw [reads.http]
    rfl
  · simp only [getSettings, collecting, if_true, Connection.mapHttp]
    exact told.trans reads.self

theorem valueComplete {place : Nat} (buffering : v.Buffering) (observes : v.Observes seen atUrl)
    (reads : ReadingAt seen c start buffer headers (some place) value) :
    ∃ next, getSettings v .onHeaderValueComplete c = (0, next) ∧
      ReadingAt seen next start [] (headers.assign place buffer) (some place) value := by
  obtain ⟨zero, kept⟩ := buffering.onHeaderValue c.http.mBuffer c
  have told := observes.onHeaderValue c.http.mBuffer c
  have collecting : (v.onHeaderValue c.http.mBuffer c).2.http.mBufferHeaders = true := by
    rw [kept, reads.http]
    rfl
  refine ⟨_, Prod.ext zero rfl, ?_, ?_⟩
  · simp only [getSettings, Connection.mapHttp, kept]
    rw [reads.http]
    rfl
  · simp only [getSettings, collecting, if_true, Connection.mapHttp]
    exact told.trans reads.self

theorem headersComplete (buffering : v.Buffering) (observes : v.Observes seen atUrl)
    (reads : ReadingAt seen c start buffer headers position value) :
    ∃ next, getSettings v .onHeadersComplete c = (0, next) ∧ ReadingAt seen next start [] headers position value := by
  obtain ⟨zero, kept⟩ := buffering.onHeadersComplete (c.mapHttp .clearBuffer)
  refine ⟨_, Prod.ext zero rfl, ?_, ?_⟩
  · show (v.onHeadersComplete (c.mapHttp .clearBuffer)).2.http = _
    rw [kept]
    exact reads.clear.http
  · exact (observes.onHeadersComplete (c.mapHttp .clearBuffer)).trans reads.self

variable (policy)

/-- Both halves of a header: the name goes behind what the buffer still holds. -/
theorem field (buffering : v.Buffering) (observes : v.Observes seen atUrl)
    (reads : ReadingAt seen c start buffer headers position value) (spans : List Bytes × List Bytes)
    (rest : List Callback) :
    ∃ next place, onRead policy v (fieldCallbacks spans ++ rest) c = onRead policy v rest next ∧
      ReadingAt seen next start [] (headers.collect (buffer ++ spans.1.flatten, spans.2.flatten)) place value := by
  obtain ⟨named, nameStep, afterName⟩ := (reads.append spans.1.flatten).fieldComplete buffering observes
  obtain ⟨valued, valueStep, afterValue⟩ := (afterName.append spans.2.flatten).valueComplete buffering observes
  refine ⟨valued, _, ?_, afterValue⟩
  rw [fieldCallbacks, List.append_assoc, onRead_spans fun _ _ _ => rfl, List.cons_append,
    onRead_continue nameStep, List.append_assoc, onRead_spans fun _ _ _ => rfl]
  exact onRead_continue valueStep rest

/-- A run of headers, each read from an empty buffer but the first. -/
theorem fields (buffering : v.Buffering) (observes : v.Observes seen atUrl)
    (reads : ReadingAt seen c start [] headers position value) (fields : List (List Bytes × List Bytes))
    (rest : List Callback) :
    ∃ next place, onRead policy v (fields.flatMap fieldCallbacks ++ rest) c = onRead policy v rest next ∧
      ReadingAt seen next start []
        ((fields.map fun spans => (spans.1.flatten, spans.2.flatten)).foldl HttpHeaderSet.collect headers) place value := by
  induction fields generalizing c headers position with
  | nil => exact ⟨c, position, rfl, reads⟩
  | cons spans fields ih =>
    obtain ⟨one, place, first, afterFirst⟩ :=
      reads.field policy buffering observes spans (fields.flatMap fieldCallbacks ++ rest)
    obtain ⟨next, last, later, afterLater⟩ := ih afterFirst
    exact ⟨next, last, by rw [List.flatMap_cons, List.append_assoc, first, later], afterLater⟩

/-- Up to the end of the headers, where exactly the headers of the message have been
collected on top of those the connection had. -/
theorem head (buffering : v.Buffering) (observes : v.Observes seen atUrl) {d : Delivery} (post : d.method = .httpPost)
    (c : Connection σ) (rest : List Callback) :
    ∃ next place, onRead policy v (d.callbacks ++ rest) c =
      onRead policy v (.onHeadersComplete :: (d.body.map .onBody ++ (d.trailers.flatMap fieldCallbacks ++
        .onMessageComplete :: rest))) next ∧
      ReadingAt seen next c.http [] (d.message.headers.foldl HttpHeaderSet.collect c.http.mHeaders) place
        (atUrl d.message.url (seen c.self)) := by
  obtain ⟨begun, beginStep, afterBegin⟩ := begin buffering observes c
  obtain ⟨located, urlStep, afterUrl⟩ := (afterBegin.append d.url.flatten).urlComplete buffering observes
  obtain ⟨next, place, fieldSteps, afterFields⟩ := afterUrl.fields policy buffering observes d.headers
    (.onHeadersComplete :: (d.body.map .onBody ++ (d.trailers.flatMap fieldCallbacks ++ .onMessageComplete :: rest)))
  refine ⟨next, place, ?_, afterFields⟩
  rw [Delivery.callbacks, List.cons_append, onRead_continue beginStep, List.append_assoc,
    onRead_spans fun _ _ _ => rfl, List.cons_append, post, onRead_continue urlStep, List.append_assoc]
  simpa using fieldSteps

/-- Up to the end of the message: the buffer holds the body, unless trailer fields came. -/
theorem message (buffering : v.Buffering) (observes : v.Observes seen atUrl) {d : Delivery} (post : d.method = .httpPost)
    (c : Connection σ) (rest : List Callback) :
    ∃ next headers place, onRead policy v (d.callbacks ++ rest) c = onRead policy v (.onMessageComplete :: rest) next ∧
      ReadingAt seen next c.http d.message.seenBody headers place (atUrl d.message.url (seen c.self)) := by
  obtain ⟨opened, _, headSteps, afterHead⟩ := head policy buffering observes post c rest
  obtain ⟨closed, closeStep, afterClose⟩ := afterHead.headersComplete buffering observes
  have afterBody := afterClose.append d.body.flatten
  have bodySteps : onRead policy v (d.body.map .onBody ++ (d.trailers.flatMap fieldCallbacks ++
      .onMessageComplete :: rest)) closed =
      onRead policy v (d.trailers.flatMap fieldCallbacks ++ .onMessageComplete :: rest)
        (closed.mapHttp (·.appendBuffer d.body.flatten)) := by
    apply onRead_spans
    intro span c' same
    have gathering : c'.http.mBufferBody = true := by
      rw [same, afterClose.http]
      rfl
    simp only [getSettings, gathering, if_true]
  rw [headSteps, onRead_continue closeStep, bodySteps]
  cases trailing : d.trailers with
  | nil =>
    have whole : d.message.seenBody = d.body.flatten := by simp [Message.seenBody, Delivery.message, trailing]
    rw [whole]
    exact ⟨_, _, _, rfl, afterBody⟩
  | cons spans more =>
    obtain ⟨one, _, first, afterFirst⟩ := afterBody.field policy buffering observes spans
      (more.flatMap fieldCallbacks ++ .onMessageComplete :: rest)
    obtain ⟨next, place, later, afterLater⟩ := afterFirst.fields policy buffering observes more
      (.onMessageComplete :: rest)
    have lost : d.message.seenBody = [] := by simp [Message.seenBody, Delivery.message, trailing]
    rw [lost]
    exact ⟨next, _, place, by rw [List.flatMap_cons, List.append_assoc, first, later], afterLater⟩

end ReadingAt

end DockerPlugin

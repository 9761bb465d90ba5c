import DockerPlugin.Plugin
import DockerPlugin.Messages
import DockerPlugin.Replies
import DockerPlugin.RequestDecoding

namespace DockerPlugin
open Octets

theorem pluginHttpConnection_buffering (δ : Type) : (pluginHttpConnection δ).Buffering where
  onMessageBegin _ := ⟨rfl, rfl⟩
  onUrl _ _ := ⟨rfl, rfl⟩
  onHeaderField _ _ := ⟨rfl, rfl⟩
  onHeaderValue _ _ := ⟨rfl, rfl⟩
  onHeadersComplete _ := ⟨rfl, rfl⟩
  onBody _ _ := ⟨rfl, rfl⟩

theorem pluginHttpConnection_observes (δ : Type) :
    (pluginHttpConnection δ).Observes (fun self => self) (fun url self => { self with mUrl := url }) where
  onMessageBegin _ := rfl
  onUrl _ _ := rfl
  onHeaderField _ _ := rfl
  onHeaderValue _ _ := rfl
  onHeadersComplete _ := rfl

/-- What a plugin does with a message: the reply, the handlers it runs, and the drivers' new
state. Nothing but the URL, the body and the old state goes into it. -/
structure Answer (δ : Type) where
  reply : Reply
  calls : List HandlerCall
  drivers : δ

namespace Plugin
variable {δ : Type}

def answer (p : Plugin δ) (url body : Bytes) (drivers : δ) : Answer δ :=
  match PluginConnection.handlerOf url with
  | none => ⟨⟨404, false, bytes "Not found"⟩, [], drivers⟩
  | some h =>
    match p.method h with
    | none => ⟨⟨404, true, bytes "Not found"⟩, [], drivers⟩
    | some fn =>
      match fromJson h.request body with
      | .error e =>
        let (status, text) := PluginConnection.answer h.response (.error e)
        ⟨⟨status, true, text⟩, [], drivers⟩
      | .ok req =>
        let (status, text) := PluginConnection.answer h.response (fn req drivers).1
        ⟨⟨status, true, text⟩, [⟨h, req⟩], (fn req drivers).2⟩

/-- The method that the message is handed to throws an error with this status. -/
def Throws (p : Plugin δ) (url body : Bytes) (drivers : δ) (status : Int32) : Prop :=
  ∃ (h : Handler) (fn : DriverMethod δ h.request.Decoded h.response.Encoded) (req : h.request.Decoded)
    (e : ErrorResponse), PluginConnection.handlerOf url = some h ∧ p.method h = some fn ∧
      fromJson h.request body = .ok req ∧ (fn req drivers).1 = .error (.errorResponse e) ∧ e.status = status

/-- A status that is no final code, or that forbids content, comes from a driver. -/
theorem answer_status (p : Plugin δ) (url body : Bytes) (drivers : δ) :
    AllowsContent (p.answer url body drivers).reply.status.toInt ∨
      p.Throws url body drivers (p.answer url body drivers).reply.status := by
  unfold answer
  split
  · exact Or.inl .notFound
  · rename_i h found
    split
    · exact Or.inl .notFound
    · rename_i fn method
      split
      · rename_i e decoded
        rcases fromJson_error_cases decoded with ⟨what, rfl⟩ | ⟨what, rfl⟩
        · exact Or.inl .badRequest
        · exact Or.inl .serverError
      · rename_i req decoded
        rcases outcome : (fn req drivers).1 with ⟨e | what | what⟩ | res
        · exact Or.inr ⟨h, fn, req, e, found, method, decoded, outcome, rfl⟩
        · exact Or.inl .badRequest
        · exact Or.inl .serverError
        · exact Or.inl .ok

/-- One response to a message, which is read as one unless its status was thrown and is no final code
or forbids content. -/
def RespondsOnce (p : Plugin δ) (m : Message) (drivers : δ) (text : Bytes) : Prop :=
  ∃ reply : Reply, reply.SpelledBy text ∧ (AllowsContent reply.status.toInt → reply.GivenBy text) ∧
    (AllowsContent reply.status.toInt ∨ p.Throws m.url m.seenBody drivers reply.status)

end Plugin

namespace HttpConnection

theorem Idle.reading {c : HttpConnection} (idle : c.Idle) (buffer : Bytes) (headers : HttpHeaderSet)
    (position : Option Nat) : (c.reading buffer headers position).Idle :=
  ⟨idle.headers, idle.unsent, idle.unchunked⟩

/-- A response completed on an idle connection leaves the same state wherever it came from. -/
theorem Idle.respond {c : HttpConnection} (idle : c.Idle) (status : Int32) (text : Bytes) :
    (c.responseStatus status).endWith text = cleared (c.uds.writes (Reply.buffers ⟨status, false, text⟩)) c.mFault := by
  rw [endWith_eq (c := c.responseStatus status) idle.unsent idle.unchunked (by
    rw [show (c.responseStatus status).mResponseHeaders = c.mResponseHeaders from rfl, idle.headers]
    decide)]
  simp only [responseStatus, idle.headers, Reply.buffers, Reply.headers, Bool.false_eq_true, if_false]

theorem Idle.respondTyped {c : HttpConnection} (idle : c.Idle) (status : Int32) (text : Bytes) :
    ((c.setResponseHeader contentType.1 contentType.2).responseStatus status).endWith text =
      cleared (c.uds.writes (Reply.buffers ⟨status, true, text⟩)) c.mFault := by
  rw [endWith_eq (c := (c.setResponseHeader contentType.1 contentType.2).responseStatus status) idle.unsent
    idle.unchunked (by
      rw [show ((c.setResponseHeader contentType.1 contentType.2).responseStatus status).mResponseHeaders =
        c.mResponseHeaders.set contentType.1 contentType.2 from rfl, idle.headers]
      decide)]
  simp only [responseStatus, setResponseHeader, idle.headers, Reply.buffers, Reply.headers, if_true]

end HttpConnection

namespace PluginConnection
variable {δ : Type} {policy : InformationResult}

/-- A connection after a message was answered. -/
def answered (c : Connection (PluginConnection δ)) (url : Bytes) (a : Answer δ) : Connection (PluginConnection δ) where
  http := .cleared (c.http.uds.writes a.reply.buffers) c.http.mFault
  self := { c.self with mUrl := url, drivers := a.drivers, calls := c.self.calls ++ a.calls }

theorem answered_unasked (c : Connection (PluginConnection δ)) (reply : Reply) :
    answered c c.self.mUrl ⟨reply, [], c.self.drivers⟩ =
      { http := .cleared (c.http.uds.writes reply.buffers) c.http.mFault, self := c.self } := by
  simp [answered]

theorem invokePluginHandler_eq {c : Connection (PluginConnection δ)} (idle : c.http.Idle) {h : Handler}
    (found : handlerOf c.self.mUrl = some h) :
    invokePluginHandler h c = answered c c.self.mUrl (c.self.mPlugin.answer c.self.mUrl c.http.mBuffer c.self.drivers) := by
  have respond := idle.respondTyped
  simp only [contentType] at respond
  simp only [invokePluginHandler, Plugin.answer, found, Connection.mapHttp]
  cases method : c.self.mPlugin.method h with
  | none =>
    simp only [answered_unasked, respond]
  | some fn =>
    simp only [callHandler, HttpConnection.body, HttpConnection.setResponseHeader] at respond ⊢
    cases decoded : fromJson h.request c.http.mBuffer with
    | error e => simp only [answered_unasked, respond]
    | ok req => simp only [answered, respond]

/-- The dispatch on a buffered message. -/
theorem onMessageComplete_eq {c : Connection (PluginConnection δ)} (idle : c.http.Idle) :
    onMessageComplete c =
      (0, answered c c.self.mUrl (c.self.mPlugin.answer c.self.mUrl c.http.mBuffer c.self.drivers)) := by
  unfold onMessageComplete
  cases found : handlerOf c.self.mUrl with
  | some h => exact congrArg (Prod.mk 0) (invokePluginHandler_eq idle found)
  | none => simp only [Plugin.answer, found, answered_unasked, Connection.mapHttp, idle.respond]

/-- A message is answered from its URL and its buffered body alone. -/
theorem onRead_message {d : Delivery} (post : d.method = .httpPost) {c : Connection (PluginConnection δ)}
    (idle : c.http.Idle) (rest : List Callback) :
    onRead policy (pluginHttpConnection δ) (d.callbacks ++ rest) c =
      onRead policy (pluginHttpConnection δ) rest (answered c d.message.url
        (c.self.mPlugin.answer d.message.url d.message.seenBody c.self.drivers)) := by
  obtain ⟨next, headers, place, steps, reads⟩ := ReadingAt.message policy
    (pluginHttpConnection_buffering δ) (pluginHttpConnection_observes δ) post c rest
  have ready : next.http.Idle := by
    rw [reads.http]
    exact idle.reading _ _ _
  have complete : getSettings (pluginHttpConnection δ) .onMessageComplete next = onMessageComplete next := by
    have gathered : next.http.mBufferBody = true := by
      rw [reads.http]
      rfl
    simp only [getSettings, gathered, if_true]
    rfl
  rw [steps, onRead_continue (complete.trans (onMessageComplete_eq ready))]
  simp only [answered, reads.http, reads.self]
  rfl

theorem answered_idle (c : Connection (PluginConnection δ)) (url : Bytes) (a : Answer δ) :
    (answered c url a).http.Idle :=
  HttpConnection.cleared_idle _ _

/-- A connection that was just constructed on a transport. -/
def fresh (p : Plugin δ) (drivers : δ) (uds : UdsConnection) : Connection (PluginConnection δ) where
  http := .create uds
  self := { mPlugin := p, drivers }

/-- What can be told of a connection from outside: the bytes written, the handlers that were
run, and the state they left the drivers in. -/
@[ext]
structure Outcome (δ : Type) where
  written : Bytes
  calls : List HandlerCall
  drivers : δ

def outcome (c : Connection (PluginConnection δ)) : Outcome δ := ⟨c.http.uds.written, c.self.calls, c.self.drivers⟩

/-- What comes later is added to what came before. -/
def Outcome.andThen (before later : Outcome δ) : Outcome δ :=
  ⟨before.written ++ later.written, before.calls ++ later.calls, later.drivers⟩

def serve (policy : InformationResult) (history : List Delivery) (c : Connection (PluginConnection δ)) :
    Connection (PluginConnection δ) :=
  onRead policy (pluginHttpConnection δ) (history.flatMap Delivery.callbacks) c

/-- A message served alone on a new connection. -/
def alone (policy : InformationResult) (p : Plugin δ) (uds : UdsConnection) (m : Message) (drivers : δ) : Outcome δ :=
  outcome (serve policy [m.whole] (fresh p drivers uds))

/-- Messages served each on a connection of its own, with the drivers' state handed on. -/
def separately (policy : InformationResult) (p : Plugin δ) (uds : UdsConnection) : List Message → δ → Outcome δ
  | [], drivers => ⟨[], [], drivers⟩
  | m :: rest, drivers =>
    (alone policy p uds m drivers).andThen
      (separately policy p uds rest (alone policy p uds m drivers).drivers)

theorem Outcome.andThen_assoc (a b c : Outcome δ) : (a.andThen b).andThen c = a.andThen (b.andThen c) := by
  simp only [andThen, List.append_assoc]

theorem outcome_answered (c : Connection (PluginConnection δ)) (url : Bytes) (a : Answer δ) :
    outcome (answered c url a) = (outcome c).andThen ⟨a.reply.wire, a.calls, a.drivers⟩ := by
  simp only [outcome, answered, HttpConnection.cleared_uds, UdsConnection.writes_written, Outcome.andThen, Reply.wire]

variable (policy) in
theorem serve_cons {d : Delivery} (post : d.method = .httpPost) {c : Connection (PluginConnection δ)}
    (idle : c.http.Idle) (rest : List Delivery) :
    serve policy (d :: rest) c = serve policy rest (answered c d.message.url
      (c.self.mPlugin.answer d.message.url d.message.seenBody c.self.drivers)) := by
  rw [serve, List.flatMap_cons, onRead_message post idle]
  rfl

theorem outcome_fresh (p : Plugin δ) (drivers : δ) {uds : UdsConnection} (unused : uds.log = []) :
    outcome (fresh p drivers uds) = ⟨[], [], drivers⟩ := by
  simp [outcome, fresh, HttpConnection.create, UdsConnection.written, unused]

theorem alone_eq (p : Plugin δ) {uds : UdsConnection} (unused : uds.log = []) {m : Message}
    (post : m.method = .httpPost) (drivers : δ) :
    alone policy p uds m drivers =
      ⟨(p.answer m.url m.seenBody drivers).reply.wire, (p.answer m.url m.seenBody drivers).calls,
        (p.answer m.url m.seenBody drivers).drivers⟩ := by
  have served := serve_cons policy (d := m.whole) post (c := fresh p drivers uds) (HttpConnection.create_idle uds) []
  rw [alone, served, m.whole_message]
  show outcome (answered _ _ _) = _
  rw [outcome_answered, outcome_fresh p drivers unused]
  rfl

/-- Messages on an idle connection add to its outcome what they amount to separately. -/
theorem serve_outcome {uds : UdsConnection} (unused : uds.log = []) {history : List Delivery}
    (posts : ∀ d ∈ history, d.method = .httpPost) {c : Connection (PluginConnection δ)} (idle : c.http.Idle) :
    outcome (serve policy history c) =
      (outcome c).andThen (separately policy c.self.mPlugin uds (history.map Delivery.message) c.self.drivers) := by
  induction history generalizing c with
  | nil => simp [serve, onRead, separately, outcome, Outcome.andThen]
  | cons d rest ih =>
    have post : d.message.method = .httpPost := posts d List.mem_cons_self
    rw [serve_cons policy post idle, ih (fun e member => posts e (List.mem_cons_of_mem d member)) (answered_idle c _ _),
      outcome_answered, Outcome.andThen_assoc, List.map_cons, separately,
      alone_eq c.self.mPlugin unused post c.self.drivers]
    rfl

/-- What a sequence of messages on one connection amounts to: the messages each alone on a new
connection, however they were cut into spans, and to each one response. -/
theorem messages_independent (policy : InformationResult) (p : Plugin δ) (drivers : δ) {uds other : UdsConnection}
    (unused : uds.log = []) (otherUnused : other.log = []) {history : List Delivery}
    (posts : ∀ d ∈ history, d.method = .httpPost) :
    outcome (serve policy history (fresh p drivers uds)) =
        separately policy p other (history.map Delivery.message) drivers ∧
      ∀ m ∈ history.map Delivery.message, ∀ state, p.RespondsOnce m state (alone policy p other m state).written := by
  constructor
  · rw [serve_outcome otherUnused posts (HttpConnection.create_idle uds), outcome_fresh p drivers unused]
    simp [Outcome.andThen, fresh]
  · intro m member state
    obtain ⟨d, inHistory, rfl⟩ := List.mem_map.mp member
    have post : d.message.method = .httpPost := posts d inHistory
    rw [alone_eq p otherUnused post state]
    exact ⟨_, Reply.wire_spelled _, Reply.wire_gives, p.answer_status _ _ state⟩

/-- A volume driver that counts its calls and is always busy. -/
def busyDriver : Volume.Driver Nat where
  create _ n := (.error (.errorResponse ⟨409, bytes "busy"⟩), n + 1)
  list _ n := (.ok {}, n + 1)
  get _ n := (.error (.errorResponse ⟨409, bytes "busy"⟩), n + 1)
  remove _ n := (.error (.errorResponse ⟨409, bytes "busy"⟩), n + 1)
  path _ n := (.ok {}, n + 1)
  mount _ n := (.error (.stdException (bytes "busy")), n + 1)
  unmount _ n := (.error (.stdException (bytes "busy")), n + 1)
  capabilities _ n := (.ok {}, n + 1)

/-- A request of two body spans for a driver, and one that is for nobody. -/
def twoMessages : List Delivery := [
  ⟨.httpPost, [bytes "/VolumeDriver", bytes ".Remove"], [([bytes "Host"], [])],
    [bytes "\x7b\"Name\":", bytes "\"v\"\x7d"], []⟩,
  ⟨.httpPost, [bytes "/elsewhere"], [], [], []⟩]

theorem messages_independent_two :
    outcome (serve .ignored twoMessages
        (fresh (({} : Plugin Nat).registerVolume busyDriver) 0 ⟨3, fun _ => .accepts 7, []⟩)) =
        separately .ignored (({} : Plugin Nat).registerVolume busyDriver) ⟨4, fun _ => .accepts 1, []⟩
          (twoMessages.map Delivery.message) 0 ∧
      ∀ m ∈ twoMessages.map Delivery.message, ∀ state,
        (({} : Plugin Nat).registerVolume busyDriver).RespondsOnce m state
          (alone .ignored (({} : Plugin Nat).registerVolume busyDriver) ⟨4, fun _ => .accepts 1, []⟩ m state).written :=
  messages_independent .ignored _ 0 rfl rfl (by decide)

end PluginConnection

end DockerPlugin

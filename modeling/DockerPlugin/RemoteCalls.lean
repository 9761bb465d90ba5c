import DockerPlugin.RequestEncoding
import DockerPlugin.WellFormedAnswers
import DockerPlugin.Dispatch

namespace DockerPlugin
open Octets Picojson PluginConnection Http

/-- What comes of calling a method: it is not there, or it returns or throws. -/
inductive CallResult (h : Handler)
  | absent
  | outcome (res : Except Exception h.response.Encoded)

namespace Plugin
variable {δ : Type}

/-- A method that is called where the driver is. -/
def perform (p : Plugin δ) (call : HandlerCall) (drivers : δ) : CallResult call.1 × δ :=
  match p.method call.1 with
  | none => (.absent, drivers)
  | some fn => (.outcome (fn call.2 drivers).1, (fn call.2 drivers).2)

/-- Methods that are called one after the other. -/
def performAll (p : Plugin δ) : List HandlerCall → δ → List (Σ h, CallResult h) × δ
  | [], drivers => ([], drivers)
  | call :: rest, drivers =>
    let (results, after) := p.performAll rest (p.perform call drivers).2
    (⟨call.1, (p.perform call drivers).1⟩ :: results, after)

end Plugin

/-- What an engine makes of a response. -/
inductive Heard (h : Handler)
  | absent
  | value (v : h.response.Encoded)
  | error (status : Nat) (what : Bytes)

/-- How an engine reads a response: as a value if its code is 200, and otherwise as an error if there is an
object in it. -/
def hear (h : Handler) (response : Response) : Option (Heard h) :=
  match parse response.body with
  | .ok (.object o) =>
    some (if response.status = 200 then .value (h.response.readBack o)
      else .error response.status (Object.readString o (bytes "Err")))
  | _ => if response.status = 404 then some .absent else none

namespace CallResult
variable {h : Handler}

/-- What is heard is what came of the call: the value, as far as a body shows it, or the error. -/
inductive Tells : CallResult h → Heard h → Prop
  | absent : Tells .absent .absent
  | value {v heard : h.response.Encoded} : h.response.Shown (fun _ tp => WrittenYear tp) heard v →
      Tells (.outcome (.ok v)) (.value heard)
  | errorResponse {e : ErrorResponse} {status : Nat} : (status : Int) = e.status.toInt →
      Tells (.outcome (.error (.errorResponse e))) (.error status e.error)
  | invalidArgument {what : Bytes} : Tells (.outcome (.error (.invalidArgument what))) (.error 400 what)
  | stdException {what : Bytes} : Tells (.outcome (.error (.stdException what))) (.error 500 what)

/-- A status that is thrown is one of an answer with content, and not that of success. -/
def Tellable (result : CallResult h) : Prop :=
  ∀ e, result = .outcome (.error (.errorResponse e)) → AllowsContent e.status.toInt ∧ e.status.toInt ≠ 200

/-- The reply that the plugin gives. -/
def reply : CallResult h → Reply
  | absent => ⟨404, true, bytes "Not found"⟩
  | outcome res => ⟨(answer h.response res).1, true, (answer h.response res).2⟩

end CallResult

/-- A message that calls a method of a driver: its body is the text of the request. -/
structure Delivery.Carries (d : Delivery) (call : HandlerCall) : Prop where
  post : d.method = .httpPost
  url : d.message.url = call.1.endpoint
  body : d.message.body = call.1.request.text call.2
  plain : d.trailers = []

/-- A call with what arrives of its request. -/
def HandlerCall.arriving (call : HandlerCall) : HandlerCall := ⟨call.1, call.1.request.arriving call.2⟩

/-- The plain text that stands for a missing method is no JSON. -/
theorem parse_notFound : ∃ err, parse (bytes "Not found") = .error err := by
  obtain ⟨i, got, -, -⟩ := Input.skipWs_found (i := { cur := bytes "Not found" }) (b := 78) (t := bytes "ot found")
    (by decide)
  exact ⟨_, by simp [parse, parseValue, got, isDigit]; rfl⟩

theorem hear_object {h : Handler} {response : Response} {t : ResponseType} {v : t.Encoded}
    (body : response.body = toJson t v) :
    hear h response = some (if response.status = 200 then .value (h.response.readBack (toObject t v))
      else .error response.status (Object.readString (toObject t v) (bytes "Err"))) := by
  rw [hear, body, parse_toJson]

/-- An error is heard with its text under any code but that of success. -/
theorem hear_error {h : Handler} {response : Response} {e : ErrorResponse} (body : response.body = toJson .error e)
    (failure : response.status ≠ 200) : hear h response = some (.error response.status e.error) := by
  rw [hear_object body, if_neg failure]
  simp only [toObject, Object.readString, Object.find?_insert_same]

namespace CallResult
variable {h : Handler}

theorem reply_allows {result : CallResult h} (tellable : result.Tellable) :
    AllowsContent result.reply.status.toInt := by
  cases result with
  | absent => exact .notFound
  | outcome res =>
    refine (answer_allows_iff h.response res).mpr fun e thrown => ?_
    exact (tellable e (congrArg outcome thrown)).1

/-- A reply is heard as what it was given for. -/
theorem hear_reply {result : CallResult h} (tellable : result.Tellable) {response : Response}
    (read : result.reply.prepared.ReadAs response) : ∃ heard, hear h response = some heard ∧ Tells result heard := by
  have status : (response.status : Int) = result.reply.status.toInt := read.status
  have body : response.body = result.reply.text := read.body
  cases result with
  | absent =>
    obtain ⟨err, failed⟩ := parse_notFound
    have code : response.status = 404 := Int.ofNat.inj (status.trans (by decide : (404 : Int32).toInt = (404 : Nat)))
    refine ⟨.absent, ?_, .absent⟩
    rw [hear, body, show (absent : CallResult h).reply.text = bytes "Not found" from rfl, failed]
    exact if_pos code
  | outcome res =>
    rcases res with (e | what | what) | v
    · have failure : response.status ≠ 200 := by
        intro same
        rw [same] at status
        exact (tellable e rfl).2 status.symm
      exact ⟨_, hear_error body failure, .errorResponse status⟩
    · have code : response.status = 400 := Int.ofNat.inj (status.trans (by decide : (400 : Int32).toInt = (400 : Nat)))
      have heard := hear_error (h := h) (e := ⟨0, what⟩) body (by rw [code]; decide)
      rw [code] at heard
      exact ⟨_, heard, .invalidArgument⟩
    · have code : response.status = 500 := Int.ofNat.inj (status.trans (by decide : (500 : Int32).toInt = (500 : Nat)))
      have heard := hear_error (h := h) (e := ⟨0, what⟩) body (by rw [code]; decide)
      rw [code] at heard
      exact ⟨_, heard, .stdException⟩
    · have code : response.status = 200 := Int.ofNat.inj (status.trans (by decide : (200 : Int32).toInt = (200 : Nat)))
      have heard := hear_object (h := h) (t := h.response) (v := v) body
      rw [if_pos code] at heard
      exact ⟨_, heard, .value (readBack_toObject h.response v)⟩

end CallResult

namespace Plugin
variable {δ : Type} (p : Plugin δ)

/-- A message that carries a call is answered by what comes of the call, which is made if the method is there. -/
theorem answer_call {d : Delivery} {call : HandlerCall} (carries : d.Carries call) (drivers : δ) :
    p.answer d.message.url d.message.seenBody drivers =
      ⟨(p.perform call.arriving drivers).1.reply, if (p.method call.1).isSome then [call.arriving] else [],
        (p.perform call.arriving drivers).2⟩ := by
  have located : handlerOf d.message.url = some call.1 := handlerOf_iff.mpr carries.url
  have body : d.message.seenBody = call.1.request.text call.2 := by
    rw [Message.seenBody, carries.body, Delivery.message, carries.plain]
    rfl
  have read := fromJson_text call.1.request call.2
  cases there : p.method call.1 with
  | none => simp [answer, located, perform, HandlerCall.arriving, there, CallResult.reply]
  | some fn => simp [answer, located, perform, HandlerCall.arriving, there, body, read, CallResult.reply]

end Plugin

section
variable {δ : Type} {history : List Delivery} {calls : List HandlerCall}

/-- The replies to the calls come one after the other, and the calls are made in between. -/
theorem serve_calls (policy : InformationResult) (carries : List.Forall₂ Delivery.Carries history calls)
    {c : Connection (PluginConnection δ)} (idle : c.http.Idle) (healthy : c.http.uds.Healthy) :
    (serve policy history c).http.uds.accepted = c.http.uds.accepted ++
        (c.self.mPlugin.performAll (calls.map .arriving) c.self.drivers).1.flatMap (fun result => result.2.reply.wire) ∧
      (serve policy history c).self.drivers = (c.self.mPlugin.performAll (calls.map .arriving) c.self.drivers).2 ∧
      (serve policy history c).self.calls =
        c.self.calls ++ (calls.map .arriving).filter fun call => (c.self.mPlugin.method call.1).isSome := by
  induction carries generalizing c with
  | nil => simp [serve, onRead, Plugin.performAll]
  | @cons d call history calls first _ ih =>
    rw [serve_cons policy first.post idle, c.self.mPlugin.answer_call first]
    obtain ⟨stays, taken⟩ := UdsConnection.writes_healthy healthy
      (c.self.mPlugin.perform call.arriving c.self.drivers).1.reply.buffers
    obtain ⟨accepted, drivers, made⟩ := ih (answered_idle c d.message.url
      ⟨(c.self.mPlugin.perform call.arriving c.self.drivers).1.reply,
        if (c.self.mPlugin.method call.1).isSome then [call.arriving] else [],
        (c.self.mPlugin.perform call.arriving c.self.drivers).2⟩) stays
    refine ⟨?_, drivers, ?_⟩
    · rw [accepted, answered, HttpConnection.cleared_uds, taken, List.map_cons, Plugin.performAll, List.flatMap_cons,
        List.append_assoc]
      rfl
    · have own : (c.self.mPlugin.method call.arriving.1).isSome = (c.self.mPlugin.method call.1).isSome := rfl
      rw [made, List.map_cons, List.filter_cons, own]
      cases (c.self.mPlugin.method call.1).isSome with
      | true => simp [answered]
      | false => simp [answered]

theorem read_replies {results : List (Σ h, CallResult h)} (tellable : ∀ result ∈ results, result.2.Tellable) :
    ∃ responses,
      readResponses (results.flatMap fun result => result.2.reply.wire).length
          (results.flatMap fun result => result.2.reply.wire) = some responses ∧
        List.Forall₂ (fun result response => ∃ heard, hear result.1 response = some heard ∧ result.2.Tells heard)
          results responses := by
  have allowed : ∀ reply ∈ results.map fun result => result.2.reply, AllowsContent reply.status.toInt := by
    intro reply member
    obtain ⟨result, known, rfl⟩ := List.mem_map.mp member
    exact CallResult.reply_allows (tellable result known)
  obtain ⟨responses, read, same⟩ := Reply.read_wires allowed
  rw [List.flatMap_map] at read
  refine ⟨responses, read, ?_⟩
  have told := (List.forall₂_and_left results responses).mpr ⟨tellable, List.forall₂_map_left_iff.mp same⟩
  exact told.imp fun result response both => CallResult.hear_reply both.1 both.2

end

/-- Calls that are made over one connection, in messages cut in any way and over a socket that takes any part
of what it is offered, come to what they come to where the driver is: with what arrives of each request, the methods are
called in this order, the drivers are left in the same state, and the engine reads one response to each call, which
tells what came of it. -/
theorem remote_calls_tell {δ : Type} (policy : InformationResult) (p : Plugin δ) (drivers : δ) {uds : UdsConnection}
    (healthy : uds.Healthy) (unused : uds.log = []) {history : List Delivery} {calls : List HandlerCall}
    (carries : List.Forall₂ Delivery.Carries history calls)
    (tellable : ∀ result ∈ (p.performAll (calls.map .arriving) drivers).1, result.2.Tellable) :
    (serve policy history (fresh p drivers uds)).self.calls =
        ((calls.map HandlerCall.arriving).filter fun call => (p.method call.1).isSome) ∧
      (serve policy history (fresh p drivers uds)).self.drivers = (p.performAll (calls.map .arriving) drivers).2 ∧
      ∃ responses,
        readResponses (serve policy history (fresh p drivers uds)).http.uds.accepted.length
            (serve policy history (fresh p drivers uds)).http.uds.accepted = some responses ∧
          List.Forall₂ (fun result response => ∃ heard, hear result.1 response = some heard ∧ result.2.Tells heard)
            (p.performAll (calls.map .arriving) drivers).1 responses := by
  obtain ⟨accepted, state, made⟩ := serve_calls policy carries (c := fresh p drivers uds)
    (HttpConnection.create_idle uds) healthy
  refine ⟨made, state, ?_⟩
  have nothing : (fresh p drivers uds).http.uds.accepted = [] := by
    simp [fresh, HttpConnection.create, UdsConnection.accepted, unused]
  rw [accepted, nothing, List.nil_append]
  exact read_replies tellable

def busyPlugin : Plugin Nat := ({} : Plugin Nat).registerVolume busyDriver

/-- A volume is removed, a driver is asked for that is not there, and the volumes are listed. -/
def threeCalls : List HandlerCall := [
  ⟨.volumeRemove, ({ name := bytes "v" } : Volume.RemoveRequest)⟩, ⟨.networkCapabilities, ({} : EmptyType)⟩,
  ⟨.volumeList, ({} : EmptyType)⟩]

/-- A call in a message whose body comes in two spans. -/
def inTwoSpans (call : HandlerCall) : Delivery :=
  let text := call.1.request.text call.2
  ⟨.httpPost, [call.1.endpoint], [([bytes "Host"], [])], [text.take 3, text.drop 3], []⟩

theorem inTwoSpans_carries (calls : List HandlerCall) : List.Forall₂ Delivery.Carries (calls.map inTwoSpans) calls :=
  List.forall₂_map_left_iff.mpr (List.forall₂_same.mpr fun call _ =>
    ⟨rfl, by simp [Delivery.message, inTwoSpans], by simp [Delivery.message, inTwoSpans], rfl⟩)

theorem threeCalls_results : (busyPlugin.performAll (threeCalls.map .arriving) 0).1 = [
    ⟨.volumeRemove, .outcome (.error (.errorResponse ⟨409, bytes "busy"⟩))⟩, ⟨.networkCapabilities, .absent⟩,
    ⟨.volumeList, .outcome (.ok ({} : Volume.ListResponse))⟩] := rfl

theorem threeCalls_tellable : ∀ result ∈ (busyPlugin.performAll (threeCalls.map .arriving) 0).1, result.2.Tellable := by
  rw [threeCalls_results]
  simp only [List.forall_mem_cons]
  refine ⟨fun e thrown => ?_, fun e thrown => ?_, fun e thrown => ?_, List.forall_mem_nil _⟩
  · obtain rfl : (⟨409, bytes "busy"⟩ : ErrorResponse) = e :=
      Exception.errorResponse.inj (Except.error.inj (CallResult.outcome.inj thrown))
    exact ⟨by constructor <;> decide, by decide⟩
  · cases thrown
  · cases CallResult.outcome.inj thrown

def threeCallsServed : Connection (PluginConnection Nat) :=
  serve .ignored (threeCalls.map inTwoSpans) (fresh busyPlugin 0 ⟨3, fun _ => .accepts 8, []⟩)

theorem remote_calls_tell_three :
    threeCallsServed.self.calls =
        ((threeCalls.map HandlerCall.arriving).filter fun call => (busyPlugin.method call.1).isSome) ∧
      threeCallsServed.self.drivers = (busyPlugin.performAll (threeCalls.map .arriving) 0).2 ∧
      ∃ responses,
        readResponses threeCallsServed.http.uds.accepted.length threeCallsServed.http.uds.accepted = some responses ∧
          List.Forall₂ (fun result response => ∃ heard, hear result.1 response = some heard ∧ result.2.Tells heard)
            (busyPlugin.performAll (threeCalls.map .arriving) 0).1 responses := by
  unfold threeCallsServed
  exact remote_calls_tell .ignored busyPlugin 0 ⟨by decide, by simp⟩ rfl (inTwoSpans_carries threeCalls) threeCalls_tellable

end DockerPlugin

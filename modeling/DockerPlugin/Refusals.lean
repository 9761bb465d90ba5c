import DockerPlugin.PluginSessions

namespace DockerPlugin
open Octets

/-- The response to a request that is not a POST. -/
def refusal : Reply := ⟨405, false, bytes "Method not allowed"⟩

namespace Callback

/-- The callbacks that a message has between the end of its URL and its own end. -/
def quiet : Callback → Bool
  | onHeaderField _ | onHeaderFieldComplete | onHeaderValue _ | onHeaderValueComplete | onHeadersComplete
  | onBody _ => true
  | _ => false

end Callback

theorem fieldCallbacks_quiet (field : List Bytes × List Bytes) :
    ∀ callback ∈ fieldCallbacks field, callback.quiet = true := by
  intro callback member
  simp only [fieldCallbacks, List.mem_append, List.mem_map, List.mem_cons, List.not_mem_nil, or_false] at member
  rcases member with ⟨span, -, rfl⟩ | rfl | ⟨span, -, rfl⟩ | rfl <;> rfl

namespace Delivery

/-- The callbacks behind the URL of a message, without the last one. -/
def quietCallbacks (d : Delivery) : List Callback :=
  d.headers.flatMap fieldCallbacks ++ .onHeadersComplete :: (d.body.map .onBody ++ d.trailers.flatMap fieldCallbacks)

theorem quietCallbacks_quiet (d : Delivery) : ∀ callback ∈ d.quietCallbacks, callback.quiet = true := by
  intro callback member
  simp only [quietCallbacks, List.mem_append, List.mem_flatMap, List.mem_cons, List.mem_map] at member
  rcases member with ⟨field, -, inField⟩ | rfl | ⟨span, -, rfl⟩ | ⟨field, -, inField⟩
  · exact fieldCallbacks_quiet field callback inField
  · rfl
  · rfl
  · exact fieldCallbacks_quiet field callback inField

theorem callbacks_eq (d : Delivery) (rest : List Callback) : d.callbacks ++ rest =
    .onMessageBegin :: (d.url.map .onUrl ++ .onUrlComplete d.method :: (d.quietCallbacks ++ .onMessageComplete :: rest)) := by
  simp [callbacks, quietCallbacks]

end Delivery

namespace PluginConnection
variable {δ : Type}

/-- A connection whose response is over while the message goes on. -/
def drifting (uds : UdsConnection) (fault : Bool) (buffer : Bytes) (self : PluginConnection δ) :
    Connection (PluginConnection δ) where
  http := { HttpConnection.cleared uds fault with mBuffer := buffer }
  self := self

theorem quiet_step {callback : Callback} (quiet : callback.quiet = true) (uds : UdsConnection) (fault : Bool)
    (buffer : Bytes) (self : PluginConnection δ) :
    ∃ later, getSettings (pluginHttpConnection δ) callback (drifting uds fault buffer self) =
      (0, drifting uds fault later self) := by
  cases callback with
  | onHeaderField span => exact ⟨_, rfl⟩
  | onHeaderFieldComplete => exact ⟨_, rfl⟩
  | onHeaderValue span => exact ⟨_, rfl⟩
  | onHeaderValueComplete => exact ⟨_, rfl⟩
  | onHeadersComplete => exact ⟨_, rfl⟩
  | onBody span => exact ⟨_, rfl⟩
  | onMessageBegin => cases quiet
  | onUrl span => cases quiet
  | onUrlComplete method => cases quiet
  | onMessageComplete => cases quiet

/-- The rest of a refused message changes nothing but the buffer. -/
theorem quiet_run (policy : InformationResult) {callbacks : List Callback}
    (quiet : ∀ callback ∈ callbacks, callback.quiet = true) (uds : UdsConnection) (fault : Bool) (buffer : Bytes)
    (self : PluginConnection δ) (rest : List Callback) :
    ∃ later, onRead policy (pluginHttpConnection δ) (callbacks ++ rest) (drifting uds fault buffer self) =
      onRead policy (pluginHttpConnection δ) rest (drifting uds fault later self) := by
  induction callbacks generalizing buffer with
  | nil => exact ⟨buffer, rfl⟩
  | cons callback callbacks ih =>
    obtain ⟨next, step⟩ := quiet_step (quiet callback List.mem_cons_self) uds fault buffer self
    obtain ⟨later, steps⟩ := ih (fun other member => quiet other (List.mem_cons_of_mem callback member)) next
    exact ⟨later, by rw [List.cons_append, onRead_continue step, steps]⟩

/-- A refused connection: the answer is out, and nothing else has changed. -/
def refused (c : Connection (PluginConnection δ)) : Connection (PluginConnection δ) where
  http := .cleared (c.http.uds.writes refusal.buffers) c.http.mFault
  self := c.self

theorem refused_idle (c : Connection (PluginConnection δ)) : (refused c).http.Idle := HttpConnection.cleared_idle _ _

/-- Up to the end of the URL of a request that is not a POST. -/
theorem onUrl_refused {method : LlhttpMethod} (other : method ≠ .httpPost) {c : Connection (PluginConnection δ)}
    (idle : c.http.Idle) :
    getSettings (pluginHttpConnection δ) (.onUrlComplete method) c = (1, refused c) := by
  have rejected : (pluginHttpConnection δ).onUrl method c.http.mBuffer c =
      (1, c.mapHttp fun http => (http.responseStatus 405).endWith (bytes "Method not allowed")) := if_pos other
  simp only [getSettings, rejected, Connection.mapHttp, idle.respond]
  rfl

/-- The callbacks up to the refusal, with the result that the parser is given. -/
theorem onRead_refused {policy : InformationResult} {d : Delivery} (other : d.method ≠ .httpPost)
    {c : Connection (PluginConnection δ)} (idle : c.http.Idle) (rest : List Callback) :
    onRead policy (pluginHttpConnection δ) (d.callbacks ++ rest) c =
      if policy = .stops then (refused c).mapHttp .close
      else onRead policy (pluginHttpConnection δ) (d.quietCallbacks ++ .onMessageComplete :: rest) (refused c) := by
  obtain ⟨begun, beginStep, afterBegin⟩ := ReadingAt.begin (pluginHttpConnection_buffering δ)
    (pluginHttpConnection_observes δ) c
  have located := afterBegin.append d.url.flatten
  have ready : (begun.mapHttp (·.appendBuffer d.url.flatten)).http.Idle := by
    rw [located.http]
    exact idle.reading _ _ _
  have same : refused (begun.mapHttp (·.appendBuffer d.url.flatten)) = refused c := by
    simp only [refused, located.http, located.self]
    rfl
  rw [d.callbacks_eq, onRead_continue beginStep, onRead_spans fun _ _ _ => rfl, onRead, onUrl_refused other ready, same]
  cases policy <;> rfl

/-- Where the parser ignores the result, the refused message is dispatched after all, on the
URL of an earlier request and without a body. -/
theorem onRead_ignored {d : Delivery} (other : d.method ≠ .httpPost) {c : Connection (PluginConnection δ)}
    (idle : c.http.Idle) (rest : List Callback) :
    onRead .ignored (pluginHttpConnection δ) (d.callbacks ++ rest) c =
      onRead .ignored (pluginHttpConnection δ) rest
        (answered (refused c) c.self.mUrl (c.self.mPlugin.answer c.self.mUrl [] c.self.drivers)) := by
  obtain ⟨later, steps⟩ := quiet_run .ignored d.quietCallbacks_quiet (c.http.uds.writes refusal.buffers) c.http.mFault []
    c.self (.onMessageComplete :: rest)
  have complete : getSettings (pluginHttpConnection δ) .onMessageComplete
      (drifting (c.http.uds.writes refusal.buffers) c.http.mFault later c.self) = onMessageComplete (refused c) := rfl
  rw [onRead_refused other idle, if_neg (by decide)]
  exact steps.trans (onRead_continue (complete.trans (onMessageComplete_eq (refused_idle c))) rest)

/-- The messages of a history that are delivered, each with the connection it meets: the
others come after the connection was closed. -/
def delivered (policy : InformationResult) : List Delivery → Connection (PluginConnection δ) →
    List (Connection (PluginConnection δ) × Delivery)
  | [], _ => []
  | d :: rest, c =>
    if c.http.uds.mSocket < 0 then []
    else (c, d) :: delivered policy rest (serve policy [d] c)

/-- A request is refused once and does nothing else: one response is written, no handler is
run, and the connection is closed or answers later requests as if it had not been. -/
def RefusedOnce (policy : InformationResult) (c : Connection (PluginConnection δ)) (d : Delivery) : Prop :=
  (∃ text, refusal.GivenBy text ∧ outcome (serve policy [d] c) = (outcome c).andThen ⟨text, [], c.self.drivers⟩) ∧
    ((serve policy [d] c).http.uds.mSocket < 0 ∨
      ∀ posts : List Delivery, (∀ e ∈ posts, e.method = .httpPost) → ∃ later,
        outcome (serve policy posts (serve policy [d] c)) = (outcome (serve policy [d] c)).andThen later ∧
          outcome (serve policy posts c) = (outcome c).andThen later)

theorem RefusedOnce.calls {policy : InformationResult} {c : Connection (PluginConnection δ)} {d : Delivery}
    (refused : RefusedOnce policy c d) : (serve policy [d] c).self.calls = c.self.calls := by
  obtain ⟨text, -, same⟩ := refused.1
  exact (congrArg Outcome.calls same).trans (List.append_nil _)

theorem outcome_refused (c : Connection (PluginConnection δ)) :
    outcome (refused c) = (outcome c).andThen ⟨refusal.wire, [], c.self.drivers⟩ := by
  simp only [outcome, refused, HttpConnection.cleared_uds, UdsConnection.writes_written, Outcome.andThen, Reply.wire,
    List.append_nil]

theorem serve_stopped {d : Delivery} (other : d.method ≠ .httpPost) {c : Connection (PluginConnection δ)}
    (idle : c.http.Idle) : serve .stops [d] c = (refused c).mapHttp .close := by
  rw [serve, List.flatMap_cons, onRead_refused other idle]
  rfl

theorem serve_ignored {d : Delivery} (other : d.method ≠ .httpPost) {c : Connection (PluginConnection δ)}
    (idle : c.http.Idle) : serve .ignored [d] c =
      answered (refused c) c.self.mUrl (c.self.mPlugin.answer c.self.mUrl [] c.self.drivers) := by
  rw [serve, List.flatMap_cons, onRead_ignored other idle]
  rfl

/-- Serving a message keeps the connection idle, and open unless the parser stopped. -/
theorem serve_one {policy : InformationResult} (d : Delivery) {c : Connection (PluginConnection δ)} (idle : c.http.Idle)
    (allowed : policy = .ignored ∨ d.method = .httpPost) :
    (serve policy [d] c).http.Idle ∧ (serve policy [d] c).http.uds.mSocket = c.http.uds.mSocket := by
  by_cases post : d.method = .httpPost
  · rw [serve_cons _ post idle]
    exact ⟨answered_idle _ _ _, UdsConnection.writes_mSocket _ _⟩
  · obtain rfl := allowed.resolve_right post
    rw [serve_ignored post idle]
    refine ⟨answered_idle _ _ _, ?_⟩
    show ((c.http.uds.writes _).writes _).mSocket = _
    rw [UdsConnection.writes_mSocket, UdsConnection.writes_mSocket]

theorem refusedOnce_stops {d : Delivery} (other : d.method ≠ .httpPost) {c : Connection (PluginConnection δ)}
    (idle : c.http.Idle) : RefusedOnce .stops c d ∧ (serve .stops [d] c).http.uds.mSocket < 0 := by
  have served := serve_stopped other idle
  have closed : (serve .stops [d] c).http.uds.mSocket < 0 := by
    rw [served]
    show (-1 : Int) < 0
    decide
  have counted : outcome ((refused c).mapHttp .close) = outcome (refused c) := rfl
  exact ⟨⟨⟨_, Reply.wire_gives .notAllowed, by rw [served, counted, outcome_refused]⟩, Or.inl closed⟩, closed⟩

theorem wire_ne_nil (r : Reply) : r.wire ≠ [] := by
  simp [Reply.wire, Reply.buffers, HttpConnection.headerBlock, crlf]

/-- Where the parser goes on, a second response is always written. -/
theorem not_refusedOnce_ignored {d : Delivery} (other : d.method ≠ .httpPost) {c : Connection (PluginConnection δ)}
    (idle : c.http.Idle) : ¬ RefusedOnce .ignored c d := by
  rintro ⟨⟨text, given, once⟩, -⟩
  rw [serve_ignored other idle, outcome_answered, outcome_refused] at once
  have written := congrArg Outcome.written once
  simp only [Outcome.andThen, List.append_assoc] at written
  have both := List.append_cancel_left written
  obtain ⟨response, whole, -⟩ := given.read
  rw [← both] at whole
  exact wire_ne_nil _ ((Reply.oneResponse (r := refusal) .notAllowed).nothing_behind whole)

/-- A parser that goes on delivers every message of a history to an idle connection. -/
theorem delivered_all {history : List Delivery} {c : Connection (PluginConnection δ)} (idle : c.http.Idle)
    (opened : 0 ≤ c.http.uds.mSocket) : ∀ d ∈ history, ∃ before : Connection (PluginConnection δ),
      before.http.Idle ∧ (before, d) ∈ delivered .ignored history c := by
  induction history generalizing c with
  | nil => simp
  | cons first rest ih =>
    intro d member
    rw [delivered, if_neg (by omega)]
    obtain ⟨stillIdle, same⟩ := serve_one first idle (.inl rfl)
    rcases List.mem_cons.mp member with rfl | later
    · exact ⟨c, idle, List.mem_cons_self⟩
    · obtain ⟨before, ready, inRest⟩ := ih stillIdle (by omega) d later
      exact ⟨before, ready, List.mem_cons_of_mem _ inRest⟩

theorem delivered_stops {history : List Delivery} {c : Connection (PluginConnection δ)} (idle : c.http.Idle) :
    ∀ met ∈ delivered .stops history c, met.2.method ≠ .httpPost → RefusedOnce .stops met.1 met.2 := by
  induction history generalizing c with
  | nil => simp [delivered]
  | cons d rest ih =>
    intro met member other
    rw [delivered] at member
    split at member
    · exact absurd member List.not_mem_nil
    · rcases List.mem_cons.mp member with rfl | later
      · exact (refusedOnce_stops other idle).1
      · by_cases post : d.method = .httpPost
        · exact ih (serve_one d idle (.inr post)).1 met later other
        · have closed := (refusedOnce_stops post idle).2
          cases rest with
          | nil => exact absurd later List.not_mem_nil
          | cons next rest =>
            rw [delivered, if_pos closed] at later
            exact absurd later List.not_mem_nil

theorem delivered_mem {policy : InformationResult} {history : List Delivery} {c : Connection (PluginConnection δ)} :
    ∀ met ∈ delivered policy history c, met.2 ∈ history := by
  induction history generalizing c with
  | nil => simp [delivered]
  | cons d rest ih =>
    intro met member
    rw [delivered] at member
    split at member
    · exact absurd member List.not_mem_nil
    · rcases List.mem_cons.mp member with rfl | later
      · exact List.mem_cons_self
      · exact List.mem_cons_of_mem d (ih met later)

/-- Every request of a history that is not a POST is refused once exactly if the parser stops
at the refusal, or there is no such request. -/
theorem refusals_iff (policy : InformationResult) (p : Plugin δ) (drivers : δ) {uds : UdsConnection}
    (opened : 0 ≤ uds.mSocket) (history : List Delivery) :
    (∀ met ∈ delivered policy history (fresh p drivers uds), met.2.method ≠ .httpPost → RefusedOnce policy met.1 met.2) ↔
      policy = .stops ∨ ∀ d ∈ history, d.method = .httpPost := by
  constructor
  · intro refused
    cases policy with
    | stops => exact Or.inl rfl
    | ignored =>
      refine Or.inr fun d member => ?_
      by_contra other
      obtain ⟨before, idle, met⟩ := @delivered_all δ history (fresh p drivers uds)
        (HttpConnection.create_idle uds) opened d member
      exact not_refusedOnce_ignored other idle (refused (before, d) met other)
  · rintro (rfl | posts) met member other
    · exact delivered_stops (HttpConnection.create_idle uds) met member other
    · exact absurd (posts met.2 (delivered_mem met member)) other

/-- A request to list the volumes, and one that is not a POST behind it. -/
def listThenGet : List Delivery :=
  [⟨.httpPost, [bytes "/VolumeDriver.List"], [], [], []⟩,
    ⟨.other 1, [bytes "/"], [([bytes "Host"], [bytes "docker"])], [], []⟩]

theorem refusals_list_then_get :
    RefusedOnce .stops (serve .stops [listThenGet[0]]
      (fresh (({} : Plugin Nat).registerVolume busyDriver) 0 ⟨3, fun _ => .accepts 8, []⟩)) listThenGet[1] := by
  have refused := (refusals_iff .stops (({} : Plugin Nat).registerVolume busyDriver) 0
    (show 0 ≤ (⟨3, fun _ => .accepts 8, []⟩ : UdsConnection).mSocket by decide) listThenGet).mpr (.inl rfl)
  exact refused (_, listThenGet[1]) (List.mem_cons_of_mem _ List.mem_cons_self) (by decide)

/-- A parser that goes on has the volumes listed once more on account of the refused request. -/
theorem refused_request_lists_again :
    ¬ ∀ met ∈ delivered .ignored listThenGet
        (fresh (({} : Plugin Nat).registerVolume busyDriver) 0 ⟨3, fun _ => .accepts 8, []⟩),
      met.2.method ≠ .httpPost → RefusedOnce .ignored met.1 met.2 := by
  intro refused
  have once := refused (serve .ignored [listThenGet[0]]
    (fresh (({} : Plugin Nat).registerVolume busyDriver) 0 ⟨3, fun _ => .accepts 8, []⟩), listThenGet[1])
    (List.mem_cons_of_mem _ List.mem_cons_self) (by decide)
  exact absurd (congrArg List.length once.calls) (by decide)

end PluginConnection

end DockerPlugin

import DockerPlugin.Dispatch
import DockerPlugin.SendFailures
import DockerPlugin.Library.Reduction

namespace DockerPlugin
open Octets

/-- What happens to a plugin: a registration, a callback that the parser makes for a connection, or
an error that it finds in what a connection sends. -/
inductive HostEvent (δ : Type)
  | registerVolume (drv : Volume.Driver δ)
  | registerNetwork (drv : Network.Driver δ)
  | registerIpam (drv : Ipam.Driver δ)
  | callback (i : Nat) (callback : Callback)
  | malformed (i : Nat)

namespace HostEvent
variable {δ : Type}

/-- The connection that an event is about. -/
def connection? : HostEvent δ → Option Nat
  | callback i _ | malformed i => some i
  | _ => none

/-- Registrations, and the callbacks that end a message. -/
def commits : HostEvent δ → Bool
  | callback _ last => last = .onMessageComplete
  | malformed _ => false
  | _ => true

end HostEvent

/-- A callback that comes before the end of a message and does not refuse it. -/
def Callback.Quiet (callback : Callback) : Prop :=
  callback ≠ .onMessageComplete ∧ ∀ method, callback = .onUrlComplete method → method = .httpPost

namespace PluginConnection
variable {δ : Type}

/-- The same connection without a plugin to look at. -/
def blind (c : Connection (PluginConnection δ)) : Connection (PluginConnection Unit) :=
  ⟨c.http, { mPlugin := {}, mUrl := c.self.mUrl, drivers := () }⟩

/-- Until a message is complete, its connection neither looks at the plugin nor changes anything of it. -/
theorem getSettings_blind {callback : Callback} (unfinished : callback ≠ .onMessageComplete)
    (c : Connection (PluginConnection δ)) :
    getSettings (pluginHttpConnection δ) callback c =
      ((getSettings (pluginHttpConnection Unit) callback (blind c)).1,
        ⟨(getSettings (pluginHttpConnection Unit) callback (blind c)).2.http,
          { c.self with mUrl := (getSettings (pluginHttpConnection Unit) callback (blind c)).2.self.mUrl }⟩) := by
  cases callback with
  | onMessageBegin | onUrl | onHeaderField | onHeaderValue | onHeadersComplete => rfl
  | onUrlComplete method =>
    simp only [getSettings, pluginHttpConnection, onUrl, blind]
    split <;> rfl
  | onHeaderFieldComplete | onHeaderValueComplete =>
    by_cases gathers : c.http.mBufferHeaders = true <;>
      simp [getSettings, pluginHttpConnection, blind, gathers, Connection.mapHttp]
  | onBody span =>
    by_cases gathers : c.http.mBufferBody = true <;>
      simp [getSettings, pluginHttpConnection, blind, gathers, Connection.mapHttp]
  | onMessageComplete => exact absurd rfl unfinished

theorem onRead_blind (policy : InformationResult) {callback : Callback} (unfinished : callback ≠ .onMessageComplete)
    (c : Connection (PluginConnection δ)) :
    onRead policy (pluginHttpConnection δ) [callback] c =
      ⟨(onRead policy (pluginHttpConnection Unit) [callback] (blind c)).http,
        { c.self with mUrl := (onRead policy (pluginHttpConnection Unit) [callback] (blind c)).self.mUrl }⟩ := by
  simp only [onRead, getSettings_blind unfinished c]
  split <;> rfl

end PluginConnection

namespace PluginHost
open PluginConnection
variable {δ : Type}

/-- A change of one connection only. -/
def onConnection (host : PluginHost δ) (i : Nat) (change : HttpConnection × Bytes → HttpConnection × Bytes) : PluginHost δ :=
  { host with connections := Function.update host.connections i (change (host.connections i)) }

/-- What methods of a connection made of it and of what it shares with others. -/
def putBack (host : PluginHost δ) (i : Nat) (c : Connection (PluginConnection δ)) : PluginHost δ :=
  { host with
    drivers := c.self.drivers, calls := c.self.calls
    connections := Function.update host.connections i (c.http, c.self.mUrl) }

/-- An event. A connection that was closed is no longer read. -/
def event (policy : InformationResult) (host : PluginHost δ) : HostEvent δ → PluginHost δ
  | .registerVolume drv => { host with plugin := host.plugin.registerVolume drv }
  | .registerNetwork drv => { host with plugin := host.plugin.registerNetwork drv }
  | .registerIpam drv => { host with plugin := host.plugin.registerIpam drv }
  | .callback i callback =>
    if 0 ≤ (host.connections i).1.uds.mSocket then
      host.putBack i (onRead policy (pluginHttpConnection δ) [callback] (host.connection i))
    else host
  | .malformed i => host.onConnection i fun c => (c.1.close, c.2)

/-- What an unfinished message does to its connection. -/
def unfinishedChange (policy : InformationResult) (callback : Callback) (c : HttpConnection × Bytes) : HttpConnection × Bytes :=
  if 0 ≤ c.1.uds.mSocket then
    let next := onRead policy (pluginHttpConnection Unit) [callback] ⟨c.1, { mPlugin := {}, mUrl := c.2, drivers := () }⟩
    (next.http, next.self.mUrl)
  else c

theorem event_unfinished (policy : InformationResult) {callback : Callback} (unfinished : callback ≠ .onMessageComplete)
    (host : PluginHost δ) (i : Nat) :
    host.event policy (.callback i callback) = host.onConnection i (unfinishedChange policy callback) := by
  rw [event]
  split
  · rename_i opened
    rw [PluginConnection.onRead_blind policy unfinished]
    simp only [onConnection, unfinishedChange, if_pos opened]
    rfl
  · rename_i closed
    simp only [onConnection, unfinishedChange, if_neg closed, Function.update_eq_self]

/-- An event that commits nothing changes its connection only. -/
theorem event_local (policy : InformationResult) {e : HostEvent δ} (waits : e.commits = false) :
    ∃ i change, e.connection? = some i ∧ ∀ host : PluginHost δ, host.event policy e = host.onConnection i change := by
  cases e with
  | registerVolume | registerNetwork | registerIpam => cases waits
  | callback i callback =>
    have unfinished : callback ≠ .onMessageComplete := of_decide_eq_false waits
    exact ⟨i, _, rfl, fun host => host.event_unfinished policy unfinished i⟩
  | malformed i => exact ⟨i, fun c => (c.1.close, c.2), rfl, fun _ => rfl⟩

section
variable {i j : Nat} (apart : j ≠ i) (host : PluginHost δ) (change : HttpConnection × Bytes → HttpConnection × Bytes)
include apart

theorem onConnection_other : (host.onConnection i change).connections j = host.connections j :=
  Function.update_of_ne apart _ _

theorem connection_onConnection : (host.onConnection i change).connection j = host.connection j := by
  rw [connection, onConnection_other apart]
  rfl

theorem putBack_onConnection (c : Connection (PluginConnection δ)) :
    (host.onConnection i change).putBack j c = (host.putBack j c).onConnection i change := by
  simp only [putBack, onConnection, Function.update_comm apart, Function.update_of_ne apart.symm]

end

theorem event_onConnection (policy : InformationResult) {e : HostEvent δ} {i : Nat} (apart : e.connection? ≠ some i)
    (host : PluginHost δ) (change : HttpConnection × Bytes → HttpConnection × Bytes) :
    (host.onConnection i change).event policy e = (host.event policy e).onConnection i change := by
  cases e with
  | registerVolume | registerNetwork | registerIpam => rfl
  | callback j callback =>
    have other : j ≠ i := fun same => apart (congrArg some same)
    rw [event, event, onConnection_other other, connection_onConnection other]
    split
    · exact putBack_onConnection other host change _
    · rfl
  | malformed j =>
    have other : j ≠ i := fun same => apart (congrArg some same)
    simp only [event, onConnection, Function.update_comm other, Function.update_of_ne other,
      Function.update_of_ne other.symm]

/-- An event is not seen by the connections that it is not about. -/
theorem event_elsewhere (policy : InformationResult) {e : HostEvent δ} {n : Nat} (apart : e.connection? ≠ some n) (host : PluginHost δ) :
    (host.event policy e).connections n = host.connections n := by
  cases e with
  | registerVolume | registerNetwork | registerIpam => rfl
  | callback m callback =>
    have other : n ≠ m := fun same => apart (congrArg some same.symm)
    rw [event]
    split
    · exact Function.update_of_ne other _ _
    · rfl
  | malformed m => exact Function.update_of_ne (fun same => apart (congrArg some same.symm)) _ _

theorem events_elsewhere (policy : InformationResult) {events : List (HostEvent δ)} {n : Nat} (apart : ∀ e ∈ events, e.connection? ≠ some n)
    (host : PluginHost δ) : (events.foldl (event policy) host).connections n = host.connections n := by
  induction events generalizing host with
  | nil => rfl
  | cons e events ih =>
    rw [List.foldl_cons, ih fun f member => apart f (List.mem_cons_of_mem _ member)]
    exact event_elsewhere policy (apart e List.mem_cons_self) host

/-- The connections of a plugin as threads, which commit what they have read with the last callback of
each message. -/
def threads (δ : Type) (policy : InformationResult) : Threads (HostEvent δ) (Option Nat) (PluginHost δ) where
  thread := HostEvent.connection?
  commits := HostEvent.commits
  step := event policy
  moves host e f waits apart := by
    obtain ⟨i, change, here, does⟩ := event_local policy waits
    rw [does, does]
    exact event_onConnection policy (fun there => apart (here.trans there.symm)) host change

/-! ### Whole messages -/

theorem getSettings_quiet {callback : Callback} (quiet : callback.Quiet) (c : Connection (PluginConnection δ)) :
    (getSettings (pluginHttpConnection δ) callback c).1 = 0 ∧
      (getSettings (pluginHttpConnection δ) callback c).2.http.uds = c.http.uds := by
  cases callback with
  | onMessageBegin | onUrl | onHeaderField | onHeaderValue | onHeadersComplete => exact ⟨rfl, rfl⟩
  | onUrlComplete method =>
    obtain rfl := quiet.2 method rfl
    exact ⟨rfl, rfl⟩
  | onHeaderFieldComplete =>
    by_cases gathers : c.http.mBufferHeaders = true <;>
      simp [getSettings, pluginHttpConnection, gathers, Connection.mapHttp, HttpConnection.emplaceHeader,
        HttpConnection.clearBuffer]
  | onHeaderValueComplete =>
    by_cases gathers : c.http.mBufferHeaders = true <;>
      simp [getSettings, pluginHttpConnection, gathers, Connection.mapHttp, Connection.assignHeader_uds,
        HttpConnection.clearBuffer]
  | onBody span =>
    by_cases gathers : c.http.mBufferBody = true <;>
      simp [getSettings, pluginHttpConnection, gathers, Connection.mapHttp, HttpConnection.appendBuffer]
  | onMessageComplete => exact absurd rfl quiet.1

theorem connection_putBack (host : PluginHost δ) (i : Nat) (c : Connection (PluginConnection δ))
    (same : c.self.mPlugin = host.plugin) : (host.putBack i c).connection i = c := by
  obtain ⟨http, plugin, url, drivers, calls⟩ := c
  obtain rfl : plugin = host.plugin := same
  simp [connection, putBack]

theorem putBack_putBack (host : PluginHost δ) (i : Nat) (c next : Connection (PluginConnection δ)) :
    (host.putBack i c).putBack i next = host.putBack i next := by
  simp [putBack]

theorem putBack_connection (host : PluginHost δ) (i : Nat) : host.putBack i (host.connection i) = host := by
  simp [connection, putBack]

theorem onRead_quiet (policy : InformationResult) {callback : Callback} (quiet : callback.Quiet)
    (c : Connection (PluginConnection δ)) :
    (onRead policy (pluginHttpConnection δ) [callback] c).http.uds = c.http.uds ∧
      (onRead policy (pluginHttpConnection δ) [callback] c).self.mPlugin = c.self.mPlugin ∧
      ∀ rest, onRead policy (pluginHttpConnection δ) (callback :: rest) c =
        onRead policy (pluginHttpConnection δ) rest (onRead policy (pluginHttpConnection δ) [callback] c) := by
  obtain ⟨zero, same⟩ := getSettings_quiet quiet c
  have step : getSettings (pluginHttpConnection δ) callback c =
      (0, (getSettings (pluginHttpConnection δ) callback c).2) := Prod.ext zero rfl
  refine ⟨?_, ?_, fun rest => ?_⟩
  · rw [onRead_continue step]
    exact same
  · rw [PluginConnection.onRead_blind policy quiet.1]
  · rw [onRead_continue step, onRead_continue step]
    rfl

/-- Quiet callbacks on an open connection amount to one read. -/
theorem run_quiet (policy : InformationResult) {callbacks : List Callback} (quiet : ∀ callback ∈ callbacks, callback.Quiet)
    {host : PluginHost δ} {i : Nat} (opened : 0 ≤ (host.connections i).1.uds.mSocket) :
    ∃ c, c.self.mPlugin = host.plugin ∧ c.http.uds = (host.connections i).1.uds ∧
      (threads δ policy).run host (callbacks.map (.callback i)) = host.putBack i c ∧
      ∀ rest, onRead policy (pluginHttpConnection δ) (callbacks ++ rest) (host.connection i) =
        onRead policy (pluginHttpConnection δ) rest c := by
  induction callbacks generalizing host with
  | nil => exact ⟨host.connection i, rfl, rfl, (putBack_connection host i).symm, fun _ => rfl⟩
  | cons callback callbacks ih =>
    obtain ⟨same, plugin, goesOn⟩ := onRead_quiet policy (quiet callback List.mem_cons_self) (host.connection i)
    have next : (threads δ policy).step host (.callback i callback) =
        host.putBack i (onRead policy (pluginHttpConnection δ) [callback] (host.connection i)) := if_pos opened
    have seen := connection_putBack host i _ plugin
    have stays : ((host.putBack i (onRead policy (pluginHttpConnection δ) [callback] (host.connection i))).connections i).1.uds =
        (host.connections i).1.uds := by
      simp only [putBack, Function.update_self]
      exact same
    obtain ⟨c, plugin', kept, ran, reads⟩ := ih (fun other member => quiet other (List.mem_cons_of_mem _ member))
      (stays ▸ opened)
    refine ⟨c, plugin', kept.trans stays, ?_, fun rest => ?_⟩
    · rw [List.map_cons, Threads.run_cons, next, ran, putBack_putBack]
    · rw [List.cons_append, goesOn, ← reads, seen]

/-- A callback of the plugin's connection does nothing to its socket but write to it. -/
theorem getSettings_writes (callback : Callback) (c : Connection (PluginConnection δ)) :
    ∃ buffers, (getSettings (pluginHttpConnection δ) callback c).2.http.uds = c.http.uds.writes buffers := by
  by_cases quiet : callback.Quiet
  · exact ⟨[], (getSettings_quiet quiet c).2⟩
  have complete : ∀ c' : Connection (PluginConnection δ),
      ∃ buffers, (onMessageComplete c').2.http.uds = c'.http.uds.writes buffers := by
    intro c'
    unfold onMessageComplete invokePluginHandler
    split
    · dsimp only
      split <;> exact HttpConnection.endWith_writes _ _
    · exact HttpConnection.endWith_writes _ _
  cases callback with
  | onUrlComplete method =>
    simp only [getSettings, pluginHttpConnection, onUrl]
    split
    · exact HttpConnection.endWith_writes _ _
    · exact ⟨[], rfl⟩
  | onMessageComplete =>
    simp only [getSettings, pluginHttpConnection]
    split
    · exact complete c
    · exact complete _
  | onMessageBegin | onUrl | onHeaderField | onHeaderFieldComplete | onHeaderValue | onHeaderValueComplete
  | onHeadersComplete | onBody =>
    exact absurd ⟨fun same => Callback.noConfusion same, fun method same => Callback.noConfusion same⟩ quiet

/-- No callback of the plugin's connection closes it: that is left to the read that made the callback. -/
theorem getSettings_mSocket (callback : Callback) (c : Connection (PluginConnection δ)) :
    (getSettings (pluginHttpConnection δ) callback c).2.http.uds.mSocket = c.http.uds.mSocket := by
  obtain ⟨buffers, same⟩ := getSettings_writes callback c
  rw [same, UdsConnection.writes_mSocket]

theorem getSettings_mPlugin (callback : Callback) (c : Connection (PluginConnection δ)) :
    (getSettings (pluginHttpConnection δ) callback c).2.self.mPlugin = c.self.mPlugin := by
  have complete : ∀ c' : Connection (PluginConnection δ), (onMessageComplete c').2.self.mPlugin = c'.self.mPlugin := by
    intro c'
    unfold onMessageComplete invokePluginHandler callHandler
    split
    · dsimp only
      split
      · rfl
      · split <;> rfl
    · rfl
  by_cases last : callback = .onMessageComplete
  · subst last
    simp only [getSettings, pluginHttpConnection]
    split
    · exact complete c
    · exact complete _
  · rw [getSettings_blind last]

theorem run_closed (policy : InformationResult) (callbacks : List Callback) {host : PluginHost δ} {i : Nat}
    (closed : (host.connections i).1.uds.mSocket < 0) : (threads δ policy).run host (callbacks.map (.callback i)) = host := by
  induction callbacks with
  | nil => rfl
  | cons callback callbacks ih =>
    have stays : (threads δ policy).step host (.callback i callback) = host := if_neg (not_le.mpr closed)
    rw [List.map_cons, Threads.run_cons, stays, ih]

/-- A read of an open connection is its callbacks one by one: once one of them has stopped the parser,
the connection is closed and the others do nothing. -/
theorem read_callbacks (policy : InformationResult) (callbacks : List Callback) {host : PluginHost δ} {i : Nat}
    (opened : 0 ≤ (host.connections i).1.uds.mSocket) :
    (threads δ policy).run host (callbacks.map (.callback i)) =
      host.putBack i (onRead policy (pluginHttpConnection δ) callbacks (host.connection i)) := by
  induction callbacks generalizing host with
  | nil => exact (putBack_connection host i).symm
  | cons callback callbacks ih =>
    obtain ⟨res, c, result⟩ : ∃ res c, getSettings (pluginHttpConnection δ) callback (host.connection i) = (res, c) := ⟨_, _, rfl⟩
    have plugin : c.self.mPlugin = host.plugin := by
      have same := getSettings_mPlugin callback (host.connection i)
      rw [result] at same
      exact same
    have socket : c.http.uds.mSocket = (host.connections i).1.uds.mSocket := by
      have same := getSettings_mSocket callback (host.connection i)
      rw [result] at same
      exact same
    have step : (threads δ policy).step host (.callback i callback) =
        host.putBack i (if stopsAt policy callback res then c.mapHttp .close else c) := by
      have first : (threads δ policy).step host (.callback i callback) =
          host.putBack i (onRead policy (pluginHttpConnection δ) [callback] (host.connection i)) := if_pos opened
      rw [first, onRead, result]
      rfl
    rw [List.map_cons, Threads.run_cons, step, onRead, result]
    dsimp only
    split
    · rw [run_closed]
      simp [putBack, Connection.mapHttp, HttpConnection.close, UdsConnection.close]
    · rw [ih (by simpa [putBack, socket] using opened), connection_putBack host i c plugin, putBack_putBack]

theorem fieldCallbacks_quiet (field : List Bytes × List Bytes) : ∀ callback ∈ fieldCallbacks field, callback.Quiet := by
  intro callback member
  simp only [fieldCallbacks, List.mem_append, List.mem_cons, List.mem_map, List.not_mem_nil, or_false] at member
  rcases member with ⟨span, -, rfl⟩ | rfl | ⟨span, -, rfl⟩ | rfl <;>
    exact ⟨fun same => Callback.noConfusion same, fun method same => Callback.noConfusion same⟩

/-- A request is some quiet callbacks and the end of the message. -/
theorem callbacks_of_post {d : Delivery} (post : d.method = .httpPost) :
    ∃ front, d.callbacks = front ++ [.onMessageComplete] ∧ ∀ callback ∈ front, callback.Quiet := by
  refine ⟨.onMessageBegin :: (d.url.map .onUrl ++ .onUrlComplete d.method :: (d.headers.flatMap fieldCallbacks ++
    .onHeadersComplete :: (d.body.map .onBody ++ d.trailers.flatMap fieldCallbacks))), by simp [Delivery.callbacks], ?_⟩
  intro callback member
  simp only [List.mem_append, List.mem_cons, List.mem_map, List.mem_flatMap] at member
  rcases member with rfl | ⟨span, -, rfl⟩ | rfl | ⟨field, -, inside⟩ | rfl | ⟨span, -, rfl⟩ | ⟨field, -, inside⟩
  · exact ⟨fun same => Callback.noConfusion same, fun method same => Callback.noConfusion same⟩
  · exact ⟨fun same => Callback.noConfusion same, fun method same => Callback.noConfusion same⟩
  · refine ⟨fun same => Callback.noConfusion same, fun method same => ?_⟩
    rw [← Callback.onUrlComplete.inj same, post]
  · exact fieldCallbacks_quiet field callback inside
  · exact ⟨fun same => Callback.noConfusion same, fun method same => Callback.noConfusion same⟩
  · exact ⟨fun same => Callback.noConfusion same, fun method same => Callback.noConfusion same⟩
  · exact fieldCallbacks_quiet field callback inside

/-- The callbacks of a request, uninterrupted, are the request. -/
theorem run_request (policy : InformationResult) {d : Delivery} (post : d.method = .httpPost) {host : PluginHost δ} {i : Nat}
    (opened : 0 ≤ (host.connections i).1.uds.mSocket) :
    (threads δ policy).run host (d.callbacks.map (.callback i)) = host.step policy (.request i d) := by
  obtain ⟨front, whole, quiet⟩ := callbacks_of_post post
  obtain ⟨c, plugin, kept, ran, reads⟩ := run_quiet policy quiet opened
  have still : 0 ≤ ((host.putBack i c).connections i).1.uds.mSocket := by
    simpa [putBack, kept] using opened
  have last : (threads δ policy).step (host.putBack i c) (.callback i .onMessageComplete) =
      (host.putBack i c).putBack i (onRead policy (pluginHttpConnection δ) [.onMessageComplete]
        ((host.putBack i c).connection i)) := if_pos still
  have served : serve policy [d] (host.connection i) =
      onRead policy (pluginHttpConnection δ) [.onMessageComplete] c := by
    rw [serve, List.flatMap_singleton, whole, reads]
  rw [whole, List.map_append, Threads.run_append, ran, List.map_singleton, Threads.run_cons, last,
    connection_putBack host i c plugin, putBack_putBack, ← served]
  rfl

/-- The callbacks that a connection has had. -/
def received (i : Nat) (events : List (HostEvent δ)) : List Callback :=
  events.filterMap fun
    | .callback j callback => if j = i then some callback else none
    | _ => none

theorem received_append (i : Nat) (before later : List (HostEvent δ)) :
    received i (before ++ later) = received i before ++ received i later :=
  List.filterMap_append

theorem mem_received {i : Nat} {events : List (HostEvent δ)} {callback : Callback} :
    callback ∈ received i events ↔ .callback i callback ∈ events := by
  simp only [received, List.mem_filterMap]
  constructor
  · rintro ⟨e, member, found⟩
    cases e with
    | callback j other =>
      by_cases same : j = i
      · obtain rfl : other = callback := by simpa [same] using found
        rwa [← same]
      · simp [same] at found
    | registerVolume | registerNetwork | registerIpam | malformed => cases found
  · exact fun member => ⟨_, member, by simp⟩

theorem received_map (i j : Nat) (callbacks : List Callback) :
    received j (callbacks.map (.callback (δ := δ) i)) = if i = j then callbacks else [] := by
  by_cases same : i = j <;> simp [received, List.filterMap_map, same]

/-- Where no error is found, a connection's events are its callbacks. -/
theorem own_received (policy : InformationResult) (i : Nat) {events : List (HostEvent δ)}
    (intact : ∀ j, .malformed j ∉ events) :
    (threads δ policy).own (some i) events = (received i events).map (.callback i) := by
  induction events with
  | nil => rfl
  | cons e events ih =>
    have rest := ih fun j member => intact j (List.mem_cons_of_mem e member)
    rw [Threads.own] at rest ⊢
    cases e with
    | registerVolume | registerNetwork | registerIpam => exact rest
    | malformed j => exact absurd List.mem_cons_self (intact j)
    | callback j callback =>
      by_cases same : j = i
      · subst same
        simpa [List.filter_cons, threads, HostEvent.connection?, received] using rest
      · simpa [List.filter_cons, threads, HostEvent.connection?, received, same] using rest

theorem received_own (policy : InformationResult) (i : Nat) (events : List (HostEvent δ)) :
    received i ((threads δ policy).own (some i) events) = received i events := by
  rw [received, Threads.own, List.filterMap_filter]
  refine List.filterMap_congr fun e _ => ?_
  cases e with
  | registerVolume | registerNetwork | registerIpam | malformed => simp
  | callback j callback =>
    by_cases same : j = i <;> simp [threads, HostEvent.connection?, same]

/-- The requests in the order in which they are completed, and the registrations between them, with
what each connection has still to deliver. -/
def serveEvent (progress : List (PluginStep δ) × (Nat → List Delivery)) :
    HostEvent δ → List (PluginStep δ) × (Nat → List Delivery)
  | .registerVolume drv => (progress.1 ++ [.registerVolume drv], progress.2)
  | .registerNetwork drv => (progress.1 ++ [.registerNetwork drv], progress.2)
  | .registerIpam drv => (progress.1 ++ [.registerIpam drv], progress.2)
  | .callback i callback =>
    match callback, progress.2 i with
    | .onMessageComplete, d :: rest => (progress.1 ++ [.request i d], Function.update progress.2 i rest)
    | _, _ => progress
  | .malformed _ => progress

def served (streams : Nat → List Delivery) (events : List (HostEvent δ)) : List (PluginStep δ) × (Nat → List Delivery) :=
  events.foldl serveEvent ([], streams)

theorem served_concat (streams : Nat → List Delivery) (events : List (HostEvent δ)) (e : HostEvent δ) :
    served streams (events ++ [e]) = serveEvent (served streams events) e :=
  List.foldl_concat ..

theorem serveEvent_waits (progress : List (PluginStep δ) × (Nat → List Delivery)) {e : HostEvent δ}
    (waits : e.commits = false) : serveEvent progress e = progress := by
  cases e with
  | registerVolume | registerNetwork | registerIpam => cases waits
  | malformed => rfl
  | callback i callback =>
    have unfinished : callback ≠ .onMessageComplete := of_decide_eq_false waits
    cases callback <;> first | rfl | exact absurd rfl unfinished

theorem run_concat (policy : InformationResult) (host : PluginHost δ) (steps : List (PluginStep δ)) (last : PluginStep δ) :
    host.run policy (steps ++ [last]) = (host.run policy steps).step policy last :=
  List.foldl_concat ..

/-- Requests leave every socket as it was. -/
theorem run_mSocket (policy : InformationResult) (uds : Nat → UdsConnection) (drivers : δ) {steps : List (PluginStep δ)}
    (posts : ∀ i d, .request i d ∈ steps → d.method = .httpPost) (i : Nat) :
    (((start uds drivers).run policy steps).connections i).1.uds.mSocket = (uds i).mSocket := by
  induction steps using List.reverseRecOn with
  | nil => rfl
  | append_singleton steps last ih =>
    have earlier : ∀ j d, .request j d ∈ steps → d.method = .httpPost := fun j d member =>
      posts j d (List.mem_append_left _ member)
    have same := ih earlier
    rw [run_concat]
    cases last with
    | registerVolume | registerNetwork | registerIpam => exact same
    | request j d =>
      have post := posts j d (List.mem_append_right _ List.mem_cons_self)
      have idle := (run_latest policy uds drivers earlier).2 j
      have answer := serve_cons policy post (c := ((start uds drivers).run policy steps).connection j) idle []
      rw [step]
      by_cases here : i = j
      · subst here
        simp only [Function.update_self, answer]
        simp only [serve, List.flatMap_nil, onRead, answered, HttpConnection.cleared_uds, UdsConnection.writes_mSocket]
        exact same
      · simp only [Function.update_of_ne here]
        exact same

/-- How far the blocks of a schedule are the requests served. -/
structure Serial (policy : InformationResult) (uds : Nat → UdsConnection) (drivers : δ) (streams : Nat → List Delivery)
    (events : List (HostEvent δ)) : Prop where
  state : (threads δ policy).run (start uds drivers) ((threads δ policy).cut events).1.flatten =
    (start uds drivers).run policy (served streams events).1
  read : ∀ i, received i ((threads δ policy).cut events).1.flatten ++
    ((served streams events).2 i).flatMap Delivery.callbacks = (streams i).flatMap Delivery.callbacks
  posts : ∀ i d, .request i d ∈ (served streams events).1 → d.method = .httpPost
  left : ∀ i, ∀ d ∈ (served streams events).2 i, d.method = .httpPost

section
variable {policy : InformationResult} {uds : Nat → UdsConnection} {drivers : δ} {streams : Nat → List Delivery}
  {events : List (HostEvent δ)}

theorem Serial.register (serial : Serial policy uds drivers streams events) {e : HostEvent δ} {step : PluginStep δ}
    (own : e.connection? = none) (commits : e.commits = true) (makes : ∀ host, event policy host e = host.step policy step)
    (adds : ∀ progress, serveEvent progress e = (progress.1 ++ [step], progress.2)) (registers : ∀ i d, step ≠ .request i d) :
    Serial policy uds drivers streams (events ++ [e]) := by
  have nobody : (threads δ policy).own none ((threads δ policy).cut events).2 = [] := by
    refine List.filter_eq_nil_iff.mpr fun f member => ?_
    obtain ⟨i, -, here, -⟩ := event_local policy (Threads.cut_waits events f member)
    simp [threads, here]
  have blocks : ((threads δ policy).cut (events ++ [e])).1.flatten = ((threads δ policy).cut events).1.flatten ++ [e] := by
    rw [Threads.cut_concat, Threads.settle, if_pos (show (threads δ policy).commits e = true from commits),
      show (threads δ policy).thread e = none from own, nobody]
    simp
  have quiet : ∀ i, received i [e] = [] := fun i => by
    cases e with
    | callback | malformed => cases own
    | registerVolume | registerNetwork | registerIpam => rfl
  refine ⟨?_, fun i => ?_, fun i d member => ?_, ?_⟩
  · rw [blocks, Threads.run_append, serial.state, served_concat, adds, run_concat]
    exact makes _
  · rw [blocks, received_append, quiet, List.append_nil, served_concat, adds]
    exact serial.read i
  · rw [served_concat, adds] at member
    rcases List.mem_append.mp member with old | new
    · exact serial.posts i d old
    · exact absurd (List.mem_singleton.mp new).symm (registers i d)
  · rw [served_concat, adds]
    exact serial.left

theorem waiting_intact (intact : ∀ j, .malformed j ∉ events) :
    ∀ e ∈ ((threads δ policy).cut events).2, ∃ j callback, e = .callback j callback ∧ callback ∈ received j events := by
  intro e member
  obtain ⟨j, -, here, -⟩ := event_local policy (Threads.cut_waits events e member)
  have own : e ∈ (threads δ policy).own (some j) ((threads δ policy).cut events).2 :=
    List.mem_filter.mpr ⟨member, decide_eq_true here⟩
  have there := List.mem_append_right ((threads δ policy).own (some j) ((threads δ policy).cut events).1.flatten) own
  rw [Threads.own_cut, own_received policy j intact] at there
  obtain ⟨callback, inside, rfl⟩ := List.mem_map.mp there
  exact ⟨j, callback, rfl, inside⟩

theorem received_cut (i : Nat) :
    received i ((threads δ policy).cut events).1.flatten ++ received i ((threads δ policy).cut events).2 =
      received i events := by
  rw [← received_own policy i events, ← Threads.own_cut, received_append, received_own, received_own]

/-- Up to the first end of a message two beginnings of one text agree. -/
theorem front_unique {last : Callback} {waiting front rest : List Callback} (unfinished : last ∉ waiting)
    (unended : last ∉ front) (begins : waiting ++ [last] <+: front ++ last :: rest) : waiting = front := by
  induction waiting generalizing front with
  | nil =>
    cases front with
    | nil => rfl
    | cons callback front =>
      have same : last = callback := by simpa using begins
      exact absurd (same ▸ List.mem_cons_self) unended
  | cons callback waiting ih =>
    cases front with
    | nil =>
      have same : callback = last := (List.cons_prefix_cons.mp begins).1
      exact absurd (same ▸ List.mem_cons_self) unfinished
    | cons other front =>
      obtain ⟨rfl, tail⟩ := List.cons_prefix_cons.mp begins
      rw [ih (fun member => unfinished (List.mem_cons_of_mem _ member)) (fun member => unended (List.mem_cons_of_mem _ member))
        tail]

/-- The end of a message closes the block that is the next request of its connection. -/
theorem Serial.complete (serial : Serial policy uds drivers streams events) (opened : ∀ i, 0 ≤ (uds i).mSocket)
    (intact : ∀ j, .malformed j ∉ events) {i : Nat}
    (delivered : received i (events ++ [.callback i .onMessageComplete]) <+: (streams i).flatMap Delivery.callbacks) :
    Serial policy uds drivers streams (events ++ [.callback i .onMessageComplete]) := by
  have waits := Threads.cut_waits (T := threads δ policy) events
  have unbroken : ∀ j, .malformed j ∉ ((threads δ policy).cut events).2 := fun j member => by
    obtain ⟨k, callback, same, -⟩ := waiting_intact intact _ member
    cases same
  have unfinished : .onMessageComplete ∉ received i ((threads δ policy).cut events).2 := fun member => by
    have committed := waits _ (mem_received.mp member)
    exact Bool.noConfusion committed
  have next : received i ((threads δ policy).cut events).2 ++ [.onMessageComplete] <+:
      ((served streams events).2 i).flatMap Delivery.callbacks := by
    rw [received_append, ← @received_cut _ policy, ← serial.read i, List.append_assoc] at delivered
    have tail := (List.prefix_append_right_inj _).mp delivered
    simpa [received] using tail
  cases left : (served streams events).2 i with
  | nil => simp [left] at next
  | cons d rest =>
    have post : d.method = .httpPost := serial.left i d (by rw [left]; exact List.mem_cons_self)
    obtain ⟨front, whole, quiet⟩ := callbacks_of_post post
    rw [left, List.flatMap_cons, whole, List.append_assoc, List.singleton_append] at next
    have same := front_unique unfinished (fun member => (quiet _ member).1 rfl) next
    have blocks : ((threads δ policy).cut (events ++ [.callback i .onMessageComplete])).1.flatten =
        ((threads δ policy).cut events).1.flatten ++ d.callbacks.map (.callback i) := by
      have own := own_received policy i unbroken
      rw [same] at own
      rw [Threads.cut_concat, Threads.settle, if_pos (show (threads δ policy).commits (.callback i .onMessageComplete) = true
        from rfl), show (threads δ policy).thread (.callback i .onMessageComplete) =
        some i from rfl, own, whole]
      simp
    have progress : served streams (events ++ [.callback i .onMessageComplete]) =
        ((served streams events).1 ++ [.request i d], Function.update (served streams events).2 i rest) := by
      rw [served_concat]
      simp only [serveEvent, left]
    refine ⟨?_, fun j => ?_, fun j e member => ?_, fun j e member => ?_⟩
    · rw [blocks, Threads.run_append, serial.state, run_request policy post
        (by rw [run_mSocket policy uds drivers serial.posts]; exact opened i), progress, run_concat]
    · rw [blocks, received_append, progress]
      dsimp only
      by_cases here : j = i
      · subst here
        rw [received_map, if_pos rfl, ← serial.read j, left, Function.update_self, List.flatMap_cons, List.append_assoc]
      · rw [received_map, if_neg (Ne.symm here), Function.update_of_ne here, List.append_nil]
        exact serial.read j
    · rw [progress] at member
      rcases List.mem_append.mp member with old | new
      · exact serial.posts j e old
      · obtain ⟨rfl, rfl⟩ := PluginStep.request.inj (List.mem_singleton.mp new)
        exact post
    · rw [progress] at member
      dsimp only at member
      by_cases here : j = i
      · subst here
        rw [Function.update_self] at member
        exact serial.left j e (by rw [left]; exact List.mem_cons_of_mem d member)
      · rw [Function.update_of_ne here] at member
        exact serial.left j e member

theorem serial (opened : ∀ i, 0 ≤ (uds i).mSocket) (posts : ∀ i, ∀ d ∈ streams i, d.method = .httpPost)
    (intact : ∀ j, .malformed j ∉ events)
    (delivered : ∀ i, received i events <+: (streams i).flatMap Delivery.callbacks) :
    Serial policy uds drivers streams events := by
  induction events using List.reverseRecOn with
  | nil => exact ⟨rfl, fun i => rfl, fun i d member => absurd member List.not_mem_nil, posts⟩
  | append_singleton events e ih =>
    have before := ih (fun j member => intact j (List.mem_append_left _ member)) fun i =>
      (List.prefix_append _ _).trans (received_append i events [e] ▸ delivered i)
    cases e with
    | registerVolume drv =>
      exact @Serial.register _ _ _ _ _ _ before _ (.registerVolume drv) rfl rfl (fun _ => rfl) (fun _ => rfl) fun i d same =>
        by cases same
    | registerNetwork drv =>
      exact @Serial.register _ _ _ _ _ _ before _ (.registerNetwork drv) rfl rfl (fun _ => rfl) (fun _ => rfl) fun i d same =>
        by cases same
    | registerIpam drv =>
      exact @Serial.register _ _ _ _ _ _ before _ (.registerIpam drv) rfl rfl (fun _ => rfl) (fun _ => rfl) fun i d same =>
        by cases same
    | malformed j => exact absurd (List.mem_append_right _ List.mem_cons_self) (intact j)
    | callback i callback =>
      by_cases last : callback = .onMessageComplete
      · subst last
        exact before.complete opened (fun j member => intact j (List.mem_append_left _ member)) (delivered i)
      · have waits : HostEvent.commits (.callback (δ := δ) i callback) = false := decide_eq_false last
        have blocks : ((threads δ policy).cut (events ++ [.callback i callback])).1 = ((threads δ policy).cut events).1 := by
          rw [Threads.cut_concat, Threads.settle, show (threads δ policy).commits (.callback i callback) = false from waits]
          rfl
        have progress : served streams (events ++ [.callback (δ := δ) i callback]) = served streams events := by
          rw [served_concat, serveEvent_waits _ waits]
        exact ⟨by rw [blocks, progress]; exact before.state, by rw [blocks, progress]; exact before.read,
          by rw [progress]; exact before.posts, by rw [progress]; exact before.left⟩

/-- Unfinished requests have not reached the drivers, and nothing was answered. -/
theorem run_waiting {waiting : List (HostEvent δ)}
    (quiet : ∀ e ∈ waiting, ∃ j callback, e = .callback j callback ∧ callback.Quiet) (host : PluginHost δ) :
    ((threads δ policy).run host waiting).plugin = host.plugin ∧
      ((threads δ policy).run host waiting).drivers = host.drivers ∧
      ((threads δ policy).run host waiting).calls = host.calls ∧
      ∀ i, ((threads δ policy).run host waiting).written i = host.written i := by
  induction waiting generalizing host with
  | nil => exact ⟨rfl, rfl, rfl, fun _ => rfl⟩
  | cons e waiting ih =>
    obtain ⟨j, callback, rfl, still⟩ := quiet e List.mem_cons_self
    have step : (threads δ policy).step host (.callback j callback) = host.onConnection j (unfinishedChange policy callback) :=
      host.event_unfinished policy still.1 j
    obtain ⟨plugin, drivers, calls, written⟩ :=
      ih (fun f member => quiet f (List.mem_cons_of_mem _ member)) (host.onConnection j (unfinishedChange policy callback))
    rw [Threads.run_cons, step]
    refine ⟨plugin, drivers, calls, fun i => (written i).trans ?_⟩
    rw [PluginHost.written, PluginHost.written]
    by_cases here : i = j
    · subst here
      simp only [onConnection, Function.update_self, unfinishedChange]
      split
      · rw [(onRead_quiet policy still _).1]
      · rfl
    · rw [onConnection_other here]

end

/-- Two plugins at which the same is registered and the same was called and answered. -/
def Alike (host other : PluginHost δ) : Prop :=
  host.plugin = other.plugin ∧ host.drivers = other.drivers ∧ host.calls = other.calls ∧
    ∀ i, host.written i = other.written i

/-- Events mixed in any way leave what their requests leave one after the other. -/
theorem alike_served (policy : InformationResult) {uds : Nat → UdsConnection} (drivers : δ)
    (opened : ∀ i, 0 ≤ (uds i).mSocket) {streams : Nat → List Delivery} (posts : ∀ i, ∀ d ∈ streams i, d.method = .httpPost)
    {events : List (HostEvent δ)} (intact : ∀ j, .malformed j ∉ events)
    (delivered : ∀ i, received i events <+: (streams i).flatMap Delivery.callbacks) :
    Alike (events.foldl (event policy) (start uds drivers))
      ((start uds drivers).run policy (served streams events).1) := by
  have settled : (threads δ policy).run (start uds drivers) events =
      (threads δ policy).run ((start uds drivers).run policy (served streams events).1) ((threads δ policy).cut events).2 := by
    rw [Threads.run_cut, Threads.run_append, (serial opened posts intact delivered).state]
  have quiet : ∀ e ∈ ((threads δ policy).cut events).2, ∃ j callback, e = .callback j callback ∧ callback.Quiet := by
    intro e member
    obtain ⟨j, callback, rfl, there⟩ := waiting_intact intact e member
    obtain ⟨d, inStream, inside⟩ := List.mem_flatMap.mp ((delivered j).subset there)
    obtain ⟨front, whole, quiet⟩ := callbacks_of_post (posts j d inStream)
    rw [whole, List.mem_append, List.mem_singleton] at inside
    have unfinished : callback ≠ .onMessageComplete := of_decide_eq_false (Threads.cut_waits events _ member)
    exact ⟨j, callback, rfl, quiet callback (inside.resolve_right unfinished)⟩
  have final := @run_waiting _ policy _ quiet ((start uds drivers).run policy (served streams events).1)
  rw [← settled] at final
  exact final

/-- However the requests of several connections are cut into callbacks and mixed, and whatever is
registered meanwhile, the drivers are left in the state, the handlers were run and every
connection was answered as if each request had come in one piece, in the order in which the requests
were completed. -/
theorem interleavings_serialize (policy : InformationResult) {uds : Nat → UdsConnection} (drivers : δ)
    (opened : ∀ i, 0 ≤ (uds i).mSocket) {streams : Nat → List Delivery} (posts : ∀ i, ∀ d ∈ streams i, d.method = .httpPost)
    {events : List (HostEvent δ)} (intact : ∀ j, .malformed j ∉ events)
    (delivered : ∀ i, received i events <+: (streams i).flatMap Delivery.callbacks) :
    (events.foldl (event policy) (start uds drivers)).plugin =
        ((start uds drivers).run policy (served streams events).1).plugin ∧
      (events.foldl (event policy) (start uds drivers)).drivers =
        ((start uds drivers).run policy (served streams events).1).drivers ∧
      (events.foldl (event policy) (start uds drivers)).calls =
        ((start uds drivers).run policy (served streams events).1).calls ∧
      ∀ i, (events.foldl (event policy) (start uds drivers)).written i =
        ((start uds drivers).run policy (served streams events).1).written i :=
  alike_served policy drivers opened posts intact delivered

/-- A listing on one connection and activations on another. -/
def twoStreams : Nat → List Delivery
  | 0 => [⟨.httpPost, [bytes "/VolumeDriver", bytes ".List"], [], [], []⟩]
  | 1 => [⟨.httpPost, [bytes "/Plugin.Activate"], [], [], []⟩, ⟨.httpPost, [bytes "/Plugin.Activate"], [], [], []⟩]
  | _ => []

/-- They are mixed, a driver is registered in between, and the last of them is not finished. -/
def mixed : List (HostEvent Nat) := [
  .callback 0 .onMessageBegin, .callback 1 .onMessageBegin, .callback 0 (.onUrl (bytes "/VolumeDriver")),
  .registerVolume busyDriver, .callback 1 (.onUrl (bytes "/Plugin.Activate")), .callback 1 (.onUrlComplete .httpPost),
  .callback 0 (.onUrl (bytes ".List")), .callback 0 (.onUrlComplete .httpPost), .callback 1 .onHeadersComplete,
  .callback 1 .onMessageComplete, .callback 0 .onHeadersComplete, .callback 0 .onMessageComplete,
  .callback 1 .onMessageBegin]

theorem interleavings_serialize_mixed :
    (mixed.foldl (event .stops) (start (fun _ => ⟨3, fun _ => .accepts 9, []⟩) 0)).plugin =
        ((start (fun _ => ⟨3, fun _ => .accepts 9, []⟩) 0).run .stops (served twoStreams mixed).1).plugin ∧
      (mixed.foldl (event .stops) (start (fun _ => ⟨3, fun _ => .accepts 9, []⟩) 0)).drivers =
        ((start (fun _ => ⟨3, fun _ => .accepts 9, []⟩) 0).run .stops (served twoStreams mixed).1).drivers ∧
      (mixed.foldl (event .stops) (start (fun _ => ⟨3, fun _ => .accepts 9, []⟩) 0)).calls =
        ((start (fun _ => ⟨3, fun _ => .accepts 9, []⟩) 0).run .stops (served twoStreams mixed).1).calls ∧
      ∀ i, (mixed.foldl (event .stops) (start (fun _ => ⟨3, fun _ => .accepts 9, []⟩) 0)).written i =
        ((start (fun _ => ⟨3, fun _ => .accepts 9, []⟩) 0).run .stops (served twoStreams mixed).1).written i := by
  refine @interleavings_serialize _ .stops _ 0 (fun _ => by decide) twoStreams (fun i d member => ?_) _
    (fun j => by simp [mixed]) fun i => ?_
  · rcases i with _ | _ | i
    · simp only [twoStreams, List.mem_singleton] at member
      rw [member]
    · simp only [twoStreams, List.mem_cons, List.not_mem_nil, or_false, or_self] at member
      rw [member]
    · exact absurd member List.not_mem_nil
  · rcases i with _ | _ | i
    · exact ⟨[], rfl⟩
    · exact ⟨[.onUrl (bytes "/Plugin.Activate"), .onUrlComplete .httpPost, .onHeadersComplete, .onMessageComplete], rfl⟩
    · exact ⟨[], rfl⟩

end PluginHost

end DockerPlugin

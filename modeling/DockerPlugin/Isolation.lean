import DockerPlugin.Interleavings
import DockerPlugin.Library.Noninterference

namespace DockerPlugin
open Octets

namespace PluginConnection
variable {δ : Type}

/-- A connection to a plugin some handlers of which were run before. -/
def earlier (calls : List HandlerCall) (c : Connection (PluginConnection δ)) : Connection (PluginConnection δ) :=
  { c with self := { c.self with calls := calls ++ c.self.calls } }

theorem onMessageComplete_earlier (calls : List HandlerCall) (c : Connection (PluginConnection δ)) :
    onMessageComplete (earlier calls c) = ((onMessageComplete c).1, earlier calls (onMessageComplete c).2) := by
  have url : (earlier calls c).self.mUrl = c.self.mUrl := rfl
  unfold onMessageComplete
  rw [url]
  cases handlerOf c.self.mUrl with
  | none => rfl
  | some h =>
    have plugin : (earlier calls c).self.mPlugin = c.self.mPlugin := rfl
    simp only [invokePluginHandler, Connection.mapHttp, plugin]
    cases c.self.mPlugin.method h with
    | none => rfl
    | some fn =>
      simp only [callHandler, HttpConnection.body, earlier]
      cases fromJson h.request _ with
      | error e => rfl
      | ok req => simp only [List.append_assoc]

/-- What was run before makes no difference to a connection. -/
theorem getSettings_earlier (callback : Callback) (calls : List HandlerCall) (c : Connection (PluginConnection δ)) :
    getSettings (pluginHttpConnection δ) callback (earlier calls c) =
      ((getSettings (pluginHttpConnection δ) callback c).1,
        earlier calls (getSettings (pluginHttpConnection δ) callback c).2) := by
  by_cases last : callback = .onMessageComplete
  · subst last
    have gathers : (earlier calls c).http.mBufferBody = c.http.mBufferBody := rfl
    simp only [getSettings, gathers]
    split
    · exact onMessageComplete_earlier calls c
    · exact onMessageComplete_earlier calls (c.mapHttp .clearBuffer)
  · rw [getSettings_blind last (earlier calls c), getSettings_blind last c]
    rfl

theorem onRead_earlier (policy : InformationResult) (callback : Callback) (calls : List HandlerCall)
    (c : Connection (PluginConnection δ)) :
    onRead policy (pluginHttpConnection δ) [callback] (earlier calls c) =
      earlier calls (onRead policy (pluginHttpConnection δ) [callback] c) := by
  simp only [onRead, getSettings_earlier]
  split <;> rfl

/-- The methods of drivers among handlers. -/
def ofDrivers (calls : List HandlerCall) : List HandlerCall := calls.filter fun call => call.1.kind.isSome

theorem onMessageComplete_drivers {c : Connection (PluginConnection δ)}
    (quiet : ofDrivers (onMessageComplete c).2.self.calls = ofDrivers c.self.calls) :
    (onMessageComplete c).2.self.drivers = c.self.drivers := by
  unfold onMessageComplete at quiet ⊢
  cases url : handlerOf c.self.mUrl with
  | none => rfl
  | some h =>
    simp only [url, invokePluginHandler, Connection.mapHttp] at quiet ⊢
    cases found : c.self.mPlugin.method h with
    | none => rfl
    | some fn =>
      simp only [found, callHandler, HttpConnection.body] at quiet ⊢
      cases read : fromJson h.request _ with
      | error e => rfl
      | ok req =>
        simp only [read] at quiet ⊢
        cases kind : h.kind with
        | some k => simp [ofDrivers, kind] at quiet
        | none =>
          obtain rfl : h = .pluginActivate := by cases h <;> first | rfl | cases kind
          cases found
          rfl

/-- The drivers have changed only if a method of one was called. -/
theorem onRead_drivers (policy : InformationResult) {callback : Callback} {c : Connection (PluginConnection δ)}
    (quiet : ofDrivers (onRead policy (pluginHttpConnection δ) [callback] c).self.calls = ofDrivers c.self.calls) :
    (onRead policy (pluginHttpConnection δ) [callback] c).self.drivers = c.self.drivers := by
  by_cases last : callback = .onMessageComplete
  · subst last
    have same : (onRead policy (pluginHttpConnection δ) [.onMessageComplete] c).self =
        (getSettings (pluginHttpConnection δ) .onMessageComplete c).2.self := by
      simp only [onRead]
      split <;> rfl
    rw [same] at quiet ⊢
    simp only [getSettings] at quiet ⊢
    split at quiet
    · next gathers =>
      rw [if_pos gathers]
      exact onMessageComplete_drivers quiet
    · next gathers =>
      rw [if_neg gathers]
      exact onMessageComplete_drivers (c := c.mapHttp .clearBuffer) quiet
  · rw [onRead_blind policy last]

end PluginConnection

namespace PluginHost
open PluginConnection
variable {δ : Type}

/-- What can be told of a plugin without looking at some of its connections. -/
structure Sight (δ : Type) where
  plugin : Plugin δ
  drivers : δ
  driverCalls : List HandlerCall
  connections : Nat → Option (HttpConnection × Bytes)

def sight (strangers : Nat → Bool) (host : PluginHost δ) : Sight δ where
  plugin := host.plugin
  drivers := host.drivers
  driverCalls := host.driverCalls
  connections i := if strangers i then none else some (host.connections i)

section
variable {strangers : Nat → Bool} {host other : PluginHost δ}

theorem sight_eq_iff : host.sight strangers = other.sight strangers ↔
    host.plugin = other.plugin ∧ host.drivers = other.drivers ∧ host.driverCalls = other.driverCalls ∧
      ∀ i, strangers i = false → host.connections i = other.connections i := by
  constructor
  · intro same
    obtain ⟨plugin, drivers, calls, connections⟩ := Sight.mk.inj same
    refine ⟨plugin, drivers, calls, fun i known => ?_⟩
    have here := congrFun connections i
    simp only [known, Bool.false_eq_true, if_false] at here
    exact Option.some.inj here
  · rintro ⟨plugin, drivers, calls, connections⟩
    simp only [sight, plugin, drivers, calls, Sight.mk.injEq, true_and]
    funext i
    cases known : strangers i with
    | true => rfl
    | false =>
      simp only [Bool.false_eq_true, if_false]
      rw [connections i known]

/-- A connection before any handler was run. -/
def newcomer (host : PluginHost δ) (i : Nat) : Connection (PluginConnection δ) where
  http := (host.connections i).1
  self := { mPlugin := host.plugin, mUrl := (host.connections i).2, drivers := host.drivers }

theorem connection_earlier (host : PluginHost δ) (i : Nat) :
    host.connection i = earlier host.calls (host.newcomer i) := by
  simp only [connection, earlier, newcomer, List.append_nil]

theorem driverCalls_putBack (host : PluginHost δ) (i : Nat) (c : Connection (PluginConnection δ)) :
    (host.putBack i c).driverCalls = ofDrivers c.self.calls := rfl

theorem ofDrivers_append (calls more : List HandlerCall) :
    ofDrivers (calls ++ more) = ofDrivers calls ++ ofDrivers more :=
  List.filter_append ..

/-- Whoever sees a connection sees all that its events depend on. -/
theorem callback_follows (policy : InformationResult) {i : Nat} (known : strangers i = false) (callback : Callback)
    (same : host.sight strangers = other.sight strangers) :
    (host.event policy (.callback i callback)).sight strangers =
      (other.event policy (.callback i callback)).sight strangers := by
  obtain ⟨plugin, drivers, calls, connections⟩ := sight_eq_iff.mp same
  have here := connections i known
  have newcomers : host.newcomer i = other.newcomer i := by rw [newcomer, newcomer, plugin, drivers, here]
  rw [event, event, here]
  split
  · rw [connection_earlier, connection_earlier, onRead_earlier, onRead_earlier, newcomers]
    refine sight_eq_iff.mpr ⟨plugin, rfl, ?_, fun j seen => ?_⟩
    · simp only [driverCalls_putBack, earlier, ofDrivers_append]
      exact congrArg (· ++ _) calls
    · simp only [putBack, earlier]
      by_cases there : j = i
      · rw [there, Function.update_self, Function.update_self]
      · rw [Function.update_of_ne there, Function.update_of_ne there]
        exact connections j seen
  · exact same

theorem event_follows (policy : InformationResult) {e : HostEvent δ} (seen : e.connection?.any strangers = false)
    (same : host.sight strangers = other.sight strangers) :
    (host.event policy e).sight strangers = (other.event policy e).sight strangers := by
  have parts := sight_eq_iff.mp same
  obtain ⟨plugin, drivers, calls, connections⟩ := parts
  cases e with
  | registerVolume drv =>
    exact sight_eq_iff.mpr ⟨congrArg (Plugin.registerVolume · drv) plugin, drivers, calls, connections⟩
  | registerNetwork drv =>
    exact sight_eq_iff.mpr ⟨congrArg (Plugin.registerNetwork · drv) plugin, drivers, calls, connections⟩
  | registerIpam drv =>
    exact sight_eq_iff.mpr ⟨congrArg (Plugin.registerIpam · drv) plugin, drivers, calls, connections⟩
  | callback i callback => exact callback_follows policy seen callback same
  | malformed i =>
    refine sight_eq_iff.mpr ⟨plugin, drivers, calls, fun j known => ?_⟩
    simp only [event, onConnection]
    by_cases there : j = i
    · rw [there, Function.update_self, Function.update_self, connections i seen]
    · rw [Function.update_of_ne there, Function.update_of_ne there]
      exact connections j known

/-- An event of a connection without a call of a driver is not seen from outside of it. -/
theorem event_unseen (policy : InformationResult) {e : HostEvent δ} (hidden : e.connection?.any strangers = true)
    (quiet : (host.event policy e).driverCalls = host.driverCalls) :
    (host.event policy e).sight strangers = host.sight strangers := by
  have apart : ∀ {i j : Nat}, strangers i = true → strangers j = false → j ≠ i := fun stranger known there => by
    rw [there, stranger] at known
    cases known
  cases e with
  | registerVolume | registerNetwork | registerIpam => cases hidden
  | malformed i => exact sight_eq_iff.mpr ⟨rfl, rfl, rfl, fun j known => Function.update_of_ne (apart hidden known) _ _⟩
  | callback i callback =>
    rw [event] at quiet ⊢
    split at quiet
    · next opened =>
      rw [if_pos opened]
      refine sight_eq_iff.mpr ⟨rfl, onRead_drivers policy quiet, quiet, fun j known => ?_⟩
      exact Function.update_of_ne (apart hidden known) _ _
    · next closed => rw [if_neg closed]

end

/-- A plugin as it looks from outside of some connections. -/
def observation (δ : Type) (policy : InformationResult) (strangers : Nat → Bool) :
    Observation (HostEvent δ) (PluginHost δ) (Sight δ) where
  step := event policy
  view := sight strangers
  hidden e := e.connection?.any strangers
  follows _ _ _ seen same := event_follows policy seen same

/-- The events that are not about strangers. -/
def withoutStrangers (strangers : Nat → Bool) (events : List (HostEvent δ)) : List (HostEvent δ) :=
  events.filter fun e => !e.connection?.any strangers

theorem unnoticed_of_harmless {policy : InformationResult} {strangers : Nat → Bool} {host : PluginHost δ}
    {events : List (HostEvent δ)} (harmless : ∀ before e after, events = before ++ e :: after →
      e.connection?.any strangers = true →
      ((before ++ [e]).foldl (event policy) host).driverCalls = (before.foldl (event policy) host).driverCalls) :
    (observation δ policy strangers).Unnoticed host events := by
  intro before e after parts hidden
  have quiet := harmless before e after parts hidden
  rw [List.foldl_concat] at quiet
  exact event_unseen policy hidden quiet

/-- As long as no method of a driver is called on account of strangers, everything else (the plugin, the drivers and
what is called of them, and every other connection) is as if nothing had come from them. -/
theorem strangers_unnoticed (policy : InformationResult) (strangers : Nat → Bool) {host : PluginHost δ}
    {events : List (HostEvent δ)} (harmless : ∀ before e after, events = before ++ e :: after →
      e.connection?.any strangers = true →
      ((before ++ [e]).foldl (event policy) host).driverCalls = (before.foldl (event policy) host).driverCalls) :
    (events.foldl (event policy) host).plugin = ((withoutStrangers strangers events).foldl (event policy) host).plugin ∧
      (events.foldl (event policy) host).drivers =
        ((withoutStrangers strangers events).foldl (event policy) host).drivers ∧
      (events.foldl (event policy) host).driverCalls =
        ((withoutStrangers strangers events).foldl (event policy) host).driverCalls ∧
      ∀ i, strangers i = false → (events.foldl (event policy) host).connections i =
        ((withoutStrangers strangers events).foldl (event policy) host).connections i :=
  sight_eq_iff.mp ((observation δ policy strangers).view_purged (unnoticed_of_harmless harmless))

/-- Where no message is completed, no driver is called. -/
theorem event_waits (policy : InformationResult) {e : HostEvent δ} (waits : e.commits = false) (host : PluginHost δ) :
    (host.event policy e).driverCalls = host.driverCalls := by
  obtain ⟨i, change, -, does⟩ := event_local policy waits
  rw [does]
  rfl

/-- A listing in the middle of which a stranger sends something else than a request, and then no HTTP at all. -/
def intruded : List (HostEvent Nat) := [
  .callback 0 .onMessageBegin, .callback 1 .onMessageBegin, .callback 0 (.onUrl (bytes "/Plugin.Activate")),
  .registerVolume busyDriver, .callback 1 (.onUrl (bytes "/VolumeDriver.List")),
  .callback 0 (.onUrlComplete (.other 1)), .callback 1 (.onUrlComplete .httpPost), .malformed 0,
  .callback 1 .onHeadersComplete, .callback 1 .onMessageComplete]

/-- A plugin to which two clients are connected. -/
def twoClientsHost : PluginHost Nat := start (fun _ => ⟨3, fun _ => .accepts 11, []⟩) 0

theorem strangers_unnoticed_intruded :
    (intruded.foldl (event .ignored) twoClientsHost).plugin =
        ((withoutStrangers (· == 0) intruded).foldl (event .ignored) twoClientsHost).plugin ∧
      (intruded.foldl (event .ignored) twoClientsHost).drivers =
        ((withoutStrangers (· == 0) intruded).foldl (event .ignored) twoClientsHost).drivers ∧
      (intruded.foldl (event .ignored) twoClientsHost).driverCalls =
        ((withoutStrangers (· == 0) intruded).foldl (event .ignored) twoClientsHost).driverCalls ∧
      ∀ i, (i == 0) = false → (intruded.foldl (event .ignored) twoClientsHost).connections i =
        ((withoutStrangers (· == 0) intruded).foldl (event .ignored) twoClientsHost).connections i := by
  refine strangers_unnoticed .ignored (· == 0) fun before e after parts hidden => ?_
  have member : e ∈ intruded := by
    rw [parts]
    exact List.mem_append_right before List.mem_cons_self
  have waits : e.commits = false := by
    simp only [intruded, List.mem_cons, List.not_mem_nil, or_false] at member
    rcases member with rfl | rfl | rfl | rfl | rfl | rfl | rfl | rfl | rfl | rfl <;> first | rfl | cases hidden
  rw [List.foldl_concat]
  exact event_waits .ignored waits _

end PluginHost

end DockerPlugin

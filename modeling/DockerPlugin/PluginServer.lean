import DockerPlugin.AnsweredClients
import DockerPlugin.Isolation
import DockerPlugin.ReceivedData
import DockerPlugin.ServerLifetime

namespace DockerPlugin
open Octets PluginConnection

/-- The HTTP parser, which is not part of the repository: from where it is in a text, the callbacks that it makes on the
next piece as long as nothing stops it, whether it finds no error of its own there, and where it is then. -/
structure Llhttp where
  State : Type
  init : State
  execute : State → Bytes → List Callback × Bool × State

namespace PluginConnection
variable {δ : Type}

/-- What the methods return to the parser. -/
def returns : Callback → Int
  | .onUrlComplete method => if method ≠ .httpPost then 1 else 0
  | _ => 0

theorem getSettings_returns (callback : Callback) (c : Connection (PluginConnection δ)) :
    (getSettings (pluginHttpConnection δ) callback c).1 = returns callback := by
  have complete : ∀ c' : Connection (PluginConnection δ), (onMessageComplete c').1 = 0 := by
    intro c'
    unfold onMessageComplete
    split <;> rfl
  cases callback with
  | onMessageBegin | onUrl | onHeaderField | onHeaderValue | onHeadersComplete | onHeaderFieldComplete
  | onHeaderValueComplete => rfl
  | onUrlComplete method =>
    simp only [getSettings, pluginHttpConnection, onUrl, returns]
    split <;> rfl
  | onBody span =>
    simp only [getSettings]
    split <;> rfl
  | onMessageComplete =>
    simp only [getSettings, pluginHttpConnection]
    split
    · exact complete c
    · exact complete (c.mapHttp .clearBuffer)

/-- A read leaves a connection open if it was, and if nothing stopped the parser. -/
theorem onRead_opened (policy : InformationResult) (callbacks : List Callback) (c : Connection (PluginConnection δ)) :
    0 ≤ (onRead policy (pluginHttpConnection δ) callbacks c).http.uds.mSocket ↔ 0 ≤ c.http.uds.mSocket ∧
      callbacks.all (fun callback => !stopsAt policy callback (returns callback)) = true := by
  induction callbacks generalizing c with
  | nil => simp [onRead]
  | cons callback callbacks ih =>
    have result := getSettings_returns callback c
    have socket := PluginHost.getSettings_mSocket callback c
    rw [onRead, List.all_cons]
    rcases made : getSettings (pluginHttpConnection δ) callback c with ⟨res, next⟩
    rw [made] at result socket
    obtain rfl : res = returns callback := result
    dsimp only at socket ⊢
    cases stops : stopsAt policy callback (returns callback) with
    | true => simp [Connection.mapHttp, HttpConnection.close, UdsConnection.close]
    | false =>
      simp only [Bool.false_eq_true, if_false, Bool.not_false, Bool.true_and]
      rw [ih, socket]

end PluginConnection

namespace PluginHost
variable {δ : Type} (policy : InformationResult)

theorem callbacks_opened (callbacks : List Callback) (host : PluginHost δ) (n : Nat) :
    0 ≤ (((callbacks.map (.callback n)).foldl (event policy) host).connections n).1.uds.mSocket ↔
      0 ≤ (host.connections n).1.uds.mSocket ∧
        callbacks.all (fun callback => !stopsAt policy callback (returns callback)) = true := by
  by_cases opened : 0 ≤ (host.connections n).1.uds.mSocket
  · have whole : (callbacks.map (.callback n)).foldl (event policy) host =
        host.putBack n (onRead policy (pluginHttpConnection δ) callbacks (host.connection n)) :=
      read_callbacks policy callbacks opened
    have own : (host.putBack n (onRead policy (pluginHttpConnection δ) callbacks (host.connection n))).connections n =
        _ := Function.update_self ..
    rw [whole, own]
    exact onRead_opened policy callbacks (host.connection n)
  · have still : (callbacks.map (.callback n)).foldl (event policy) host = host :=
      run_closed policy callbacks (not_le.mp opened)
    rw [still]
    exact iff_of_false opened fun both => opened both.1

theorem received_stranger {strangers : Nat → Bool} {n : Nat} (stranger : strangers n = true)
    (events : List (HostEvent δ)) : received n (withoutStrangers strangers events) = [] := by
  refine List.filterMap_eq_nil_iff.mpr fun e member => ?_
  have seen := (List.mem_filter.mp member).2
  cases e with
  | registerVolume | registerNetwork | registerIpam | malformed => rfl
  | callback m callback =>
    refine if_neg fun same => ?_
    simp [HostEvent.connection?, same, stranger] at seen

theorem received_known {strangers : Nat → Bool} {n : Nat} (known : strangers n = false) (events : List (HostEvent δ)) :
    received n (withoutStrangers strangers events) = received n events := by
  rw [received, withoutStrangers, List.filterMap_filter]
  refine List.filterMap_congr fun e _ => ?_
  cases e with
  | registerVolume | registerNetwork | registerIpam | malformed => simp
  | callback m callback =>
    by_cases same : m = n <;> simp [HostEvent.connection?, same, known]

end PluginHost

namespace Llhttp
variable (ll : Llhttp) (policy : InformationResult)

/-- Whether a piece is read to its end: nothing stops the parser in it. -/
def goesOn (state : ll.State) (data : Bytes) : Bool :=
  (ll.execute state data).2.1 &&
    (ll.execute state data).1.all fun callback => !stopsAt policy callback (returns callback)

/-- `plugin_http_connection` as far as a server sees it. -/
def connections : ConnectionClass ll.State where
  createConnection _ := some ll.init
  onRead data state := (if ll.goesOn policy state data then 0 else 1, (ll.execute state data).2.2)

/-- The callbacks that the parser makes on a text in pieces. -/
def feed : ll.State → List Bytes → List Callback
  | _, [] => []
  | state, data :: later => (ll.execute state data).1 ++ feed (ll.execute state data).2.2 later

/-- A text in which the parser finds no error. -/
def Valid : ll.State → List Bytes → Prop
  | _, [] => True
  | state, data :: later => (ll.execute state data).2.1 = true ∧ Valid (ll.execute state data).2.2 later

variable {ll policy}

theorem feed_concat (state : ll.State) (texts : List Bytes) (data : Bytes) :
    ll.feed state (texts ++ [data]) =
      ll.feed state texts ++ (ll.execute (UdsServer.fed (ll.connections policy) state texts) data).1 := by
  induction texts generalizing state with
  | nil => exact List.append_nil _
  | cons text texts ih =>
    rw [List.cons_append, feed, feed, ih, List.append_assoc]
    rfl

theorem valid_concat {state : ll.State} {texts : List Bytes} {data : Bytes}
    (valid : ll.Valid state (texts ++ [data])) :
    ll.Valid state texts ∧ (ll.execute (UdsServer.fed (ll.connections policy) state texts) data).2.1 = true := by
  induction texts generalizing state with
  | nil => exact ⟨trivial, valid.1⟩
  | cons text texts ih =>
    obtain ⟨first, last⟩ := ih valid.2
    exact ⟨⟨valid.1, first⟩, last⟩

theorem stays_concat {state : ll.State} {texts : List Bytes} {data : Bytes} :
    UdsServer.Stays (ll.connections policy) state (texts ++ [data]) ↔
      UdsServer.Stays (ll.connections policy) state texts ∧
        ll.goesOn policy (UdsServer.fed (ll.connections policy) state texts) data = true := by
  induction texts generalizing state with
  | nil =>
    have closes : (if ll.goesOn policy state data then 0 else 1) = 0 ↔ ll.goesOn policy state data = true := by
      cases ll.goesOn policy state data <;> simp
    constructor
    · exact fun stays => ⟨trivial, closes.mp stays.1⟩
    · exact fun whole => ⟨closes.mpr whole.2, trivial⟩
  | cons text texts ih =>
    have later := @ih (ll.execute state text).2.2
    constructor
    · exact fun stays => ⟨⟨stays.1, (later.mp stays.2).1⟩, (later.mp stays.2).2⟩
    · exact fun whole => ⟨whole.1.1, later.mpr ⟨whole.1.2, whole.2⟩⟩

/-- A connection that stays has been given no error. -/
theorem valid_of_stays {state : ll.State} {texts : List Bytes}
    (stays : UdsServer.Stays (ll.connections policy) state texts) : ll.Valid state texts := by
  induction texts generalizing state with
  | nil => trivial
  | cons data later ih =>
    have whole : ll.goesOn policy state data = true := by
      have first : UdsServer.Stays (ll.connections policy) state ([] ++ [data]) := ⟨stays.1, trivial⟩
      exact (stays_concat.mp first).2
    exact ⟨((Bool.and_eq_true _ _).mp whole).1, ih stays.2⟩

end Llhttp

/-- A plugin with its server, the parsers of its connections, and all that has happened to it. -/
structure PluginServer (ll : Llhttp) (δ : Type) where
  server : UdsServer ll.State
  parsers : Nat → ll.State
  host : PluginHost δ
  events : List (HostEvent δ) := []

/-- What a program does with a plugin. -/
inductive PluginUse (δ : Type)
  | registerVolume (drv : Volume.Driver δ)
  | registerNetwork (drv : Network.Driver δ)
  | registerIpam (drv : Ipam.Driver δ)
  | run (r : Round)

namespace PluginUse
variable {δ : Type}

def round? : PluginUse δ → Option Round
  | run r => some r
  | _ => none

end PluginUse

namespace PluginServer
variable {ll : Llhttp} {δ : Type} (policy : InformationResult)

/-- A plugin with a server to which no client has come. -/
def start (server : UdsServer ll.State) (uds : Nat → UdsConnection) (drivers : δ) : PluginServer ll δ where
  server := server
  parsers _ := ll.init
  host := PluginHost.start uds drivers

def happen (p : PluginServer ll δ) (events : List (HostEvent δ)) : PluginServer ll δ :=
  { p with host := events.foldl (PluginHost.event policy) p.host, events := p.events ++ events }

/-- What the parser makes of a piece, as events of its connection. -/
def eventsOf (m : Nat) (made : List Callback × Bool × ll.State) : List (HostEvent δ) :=
  made.1.map (.callback m) ++ if made.2.1 then [] else [.malformed m]

/-- `on_read` with what `recv` has given for a connection, if it has given anything. -/
def read (p : PluginServer ll δ) (entry : Nat × RecvResult) : PluginServer ll δ :=
  match entry.2.data? with
  | none => p
  | some data =>
    let made := ll.execute (p.parsers entry.1) data
    { p.happen policy (eventsOf entry.1 made) with parsers := Function.update p.parsers entry.1 made.2.2 }

/-- `plugin::run`, and the registrations between its calls. -/
def step (p : PluginServer ll δ) : PluginUse δ → PluginServer ll δ
  | .registerVolume drv => p.happen policy [.registerVolume drv]
  | .registerNetwork drv => p.happen policy [.registerNetwork drv]
  | .registerIpam drv => p.happen policy [.registerIpam drv]
  | .run r =>
    let server := (p.server.run (ll.connections policy) r).2
    let log := UdsServer.readLog r.recvs (server.process.history.drop p.server.process.history.length)
    { log.foldl (read policy) p with server }

/-- Everything that a program can do with a plugin that was constructed, whatever its surroundings give. -/
inductive Life (ll : Llhttp) (l : Int) (uds : Nat → UdsConnection) (drivers : δ) :
    List (PluginUse δ) → PluginServer ll δ → Prop
  | start {driverName : Bytes} {server : UdsServer ll.State} : 0 ≤ l →
      UdsServer.construct driverName (.ok l) none = (server, none) → Life ll l uds drivers [] (start server uds drivers)
  | next {uses : List (PluginUse δ)} {p : PluginServer ll δ} {use : PluginUse δ} : Life ll l uds drivers uses p →
      (∀ r, use = .run r → p.server.Permits r) → Life ll l uds drivers (uses ++ [use]) (p.step policy use)

/-- How a plugin stands to what its connections have received. -/
structure Hears (uds : Nat → UdsConnection) (drivers : δ) (log : List (Nat × RecvResult)) (p : PluginServer ll δ) :
    Prop where
  host : p.host = p.events.foldl (PluginHost.event policy) (PluginHost.start uds drivers)
  parsers : ∀ n, p.parsers n = UdsServer.fed (ll.connections policy) ll.init (UdsServer.pieces n log)
  callbacks : ∀ n, PluginHost.received n p.events = ll.feed ll.init (UdsServer.pieces n log)
  valid : ∀ n, ll.Valid ll.init (UdsServer.pieces n log) → .malformed n ∉ p.events
  opened : ∀ n, 0 ≤ (p.host.connections n).1.uds.mSocket ↔
    0 ≤ (uds n).mSocket ∧ UdsServer.Stays (ll.connections policy) ll.init (UdsServer.pieces n log)

variable {policy} {uds : Nat → UdsConnection} {drivers : δ} {log : List (Nat × RecvResult)} {p : PluginServer ll δ}

theorem Hears.congr (hears : Hears policy uds drivers log p) {other : List (Nat × RecvResult)}
    (same : ∀ n, UdsServer.pieces n other = UdsServer.pieces n log) : Hears policy uds drivers other p where
  host := hears.host
  parsers n := by rw [same, hears.parsers]
  callbacks n := by rw [same, hears.callbacks]
  valid n accepted := hears.valid n (same n ▸ accepted)
  opened n := by rw [same, hears.opened]

/-- Registrations are not heard by a connection. -/
theorem Hears.register (hears : Hears policy uds drivers log p) {e : HostEvent δ} (nobody : e.connection? = none) :
    Hears policy uds drivers log (p.happen policy [e]) where
  host := by
    rw [happen, hears.host, ← List.foldl_append]
  parsers := hears.parsers
  callbacks n := by
    have silent : PluginHost.received n [e] = [] := by
      cases e with
      | registerVolume | registerNetwork | registerIpam => rfl
      | callback | malformed => cases nobody
    rw [happen, PluginHost.received_append, silent, List.append_nil]
    exact hears.callbacks n
  valid n accepted member := by
    rcases List.mem_append.mp member with old | new
    · exact hears.valid n accepted old
    · rw [← List.mem_singleton.mp new] at nobody
      cases nobody
  opened n := by
    cases e with
    | registerVolume | registerNetwork | registerIpam => exact hears.opened n
    | callback | malformed => cases nobody

theorem received_eventsOf (n m : Nat) (made : List Callback × Bool × ll.State) :
    PluginHost.received n (eventsOf (δ := δ) m made) = if m = n then made.1 else [] := by
  have silent : PluginHost.received n (if made.2.1 then [] else [.malformed (δ := δ) m]) = [] := by split <;> rfl
  rw [eventsOf, PluginHost.received_append, PluginHost.received_map, silent, List.append_nil]

theorem malformed_eventsOf {n m : Nat} {made : List Callback × Bool × ll.State}
    (member : .malformed n ∈ eventsOf (δ := δ) m made) : m = n ∧ made.2.1 = false := by
  rcases List.mem_append.mp member with inside | error
  · obtain ⟨callback, -, same⟩ := List.mem_map.mp inside
    cases same
  · split at error
    · cases error
    · next invalid =>
      exact ⟨(HostEvent.malformed.inj (List.mem_singleton.mp error)).symm, Bool.eq_false_iff.mpr invalid⟩

theorem eventsOf_elsewhere {n m : Nat} (apart : m ≠ n) (made : List Callback × Bool × ll.State) :
    ∀ e ∈ eventsOf (δ := δ) m made, e.connection? ≠ some n := by
  intro e member same
  rcases List.mem_append.mp member with inside | error
  · obtain ⟨callback, -, rfl⟩ := List.mem_map.mp inside
    exact apart (Option.some.inj same)
  · split at error
    · cases error
    · rw [List.mem_singleton.mp error] at same
      exact apart (Option.some.inj same)

/-- The plugin closes a connection where its server does. -/
theorem eventsOf_opened (host : PluginHost δ) (n : Nat) (state : ll.State) (data : Bytes) :
    0 ≤ (((eventsOf n (ll.execute state data)).foldl (PluginHost.event policy) host).connections n).1.uds.mSocket ↔
      0 ≤ (host.connections n).1.uds.mSocket ∧ ll.goesOn policy state data = true := by
  have calls := PluginHost.callbacks_opened policy (ll.execute state data).1 host n
  rw [eventsOf, List.foldl_append, Llhttp.goesOn, Bool.and_eq_true]
  cases valid : (ll.execute state data).2.1 with
  | true =>
    simp only [if_true, List.foldl_nil, true_and]
    exact calls
  | false =>
    simp [PluginHost.event, PluginHost.onConnection, HttpConnection.close, UdsConnection.close]

/-- A read is heard by its connection and by no other. -/
theorem Hears.read (hears : Hears policy uds drivers log p) (entry : Nat × RecvResult) :
    Hears policy uds drivers (log ++ [entry]) (p.read policy entry) := by
  obtain ⟨m, res⟩ := entry
  cases given : res.data? with
  | none =>
    have nothing : p.read policy (m, res) = p := by simp only [PluginServer.read, given]
    rw [nothing]
    exact hears.congr fun n => by
      rw [UdsServer.pieces_concat, given]
      split <;> exact List.append_nil _
  | some data =>
    have next : p.read policy (m, res) = { p.happen policy (eventsOf m (ll.execute (p.parsers m) data)) with
        parsers := Function.update p.parsers m (ll.execute (p.parsers m) data).2.2 } := by
      simp only [PluginServer.read, given]
    have own : UdsServer.pieces m (log ++ [(m, res)]) = UdsServer.pieces m log ++ [data] := by
      rw [UdsServer.pieces_concat, if_pos rfl, given]
      rfl
    have others : ∀ {n}, m ≠ n → UdsServer.pieces n (log ++ [(m, res)]) = UdsServer.pieces n log := fun apart => by
      rw [UdsServer.pieces_concat, if_neg apart, List.append_nil]
    have state := hears.parsers m
    rw [next]
    refine ⟨?_, fun n => ?_, fun n => ?_, fun n accepted member => ?_, fun n => ?_⟩
    · rw [happen, hears.host, ← List.foldl_append]
    · by_cases here : m = n
      · subst here
        rw [own, UdsServer.fed_append, ← state]
        exact Function.update_self ..
      · rw [others here]
        exact (Function.update_of_ne (Ne.symm here) _ _).trans (hears.parsers n)
    · rw [happen, PluginHost.received_append, received_eventsOf, hears.callbacks]
      by_cases here : m = n
      · subst here
        rw [own, Llhttp.feed_concat, ← state, if_pos rfl]
      · rw [others here, if_neg here, List.append_nil]
    · rcases List.mem_append.mp member with old | new
      · by_cases here : m = n
        · subst here
          rw [own] at accepted
          exact hears.valid m (@Llhttp.valid_concat ll policy _ _ _ accepted).1 old
        · rw [others here] at accepted
          exact hears.valid n accepted old
      · obtain ⟨rfl, invalid⟩ := malformed_eventsOf new
        rw [own] at accepted
        have fine := (@Llhttp.valid_concat ll policy _ _ _ accepted).2
        rw [← state, invalid] at fine
        cases fine
    · by_cases here : m = n
      · subst here
        rw [own, Llhttp.stays_concat, ← state, ← and_assoc, ← hears.opened]
        exact eventsOf_opened p.host m (p.parsers m) data
      · rw [others here, ← hears.opened]
        show 0 ≤ (((eventsOf m _).foldl (PluginHost.event policy) p.host).connections n).1.uds.mSocket ↔ _
        rw [PluginHost.events_elsewhere policy (eventsOf_elsewhere here _)]

theorem Hears.reads (hears : Hears policy uds drivers log p) (more : List (Nat × RecvResult)) :
    Hears policy uds drivers (log ++ more) (more.foldl (PluginServer.read policy) p) := by
  induction more generalizing log p with
  | nil =>
    rw [List.append_nil]
    exact hears
  | cons entry more ih =>
    have rest := ih (hears.read entry)
    rw [List.append_assoc] at rest
    exact rest

/-- What the sockets have given a plugin in all its calls of `run`. -/
def heard (ll : Llhttp) (policy : InformationResult) (l : Int) (uses : List (PluginUse δ)) : List (Nat × RecvResult) :=
  UdsServer.received (ll.connections policy) l (uses.filterMap PluginUse.round?)

theorem Life.hears {l : Int} {uses : List (PluginUse δ)} (life : Life policy ll l uds drivers uses p) :
    UdsServer.Runs (ll.connections policy) l (uses.filterMap PluginUse.round?) p.server ∧
      Hears policy uds drivers (heard ll policy l uses) p := by
  induction life with
  | start nonneg success =>
    refine ⟨.bound nonneg success, rfl, fun n => rfl, fun n => rfl, fun n valid member => ?_, fun n => ?_⟩
    · exact absurd member List.not_mem_nil
    · exact ⟨fun opened => ⟨opened, trivial⟩, And.left⟩
  | @next uses p use before permits ih =>
    obtain ⟨runs, hears⟩ := ih
    have registers : ∀ e : HostEvent δ, e.connection? = none → use.round? = none →
        UdsServer.Runs (ll.connections policy) l ((uses ++ [use]).filterMap PluginUse.round?)
            (p.happen policy [e]).server ∧
          Hears policy uds drivers (heard ll policy l (uses ++ [use])) (p.happen policy [e]) := by
      intro e nobody idle
      have rounds : (uses ++ [use]).filterMap PluginUse.round? = uses.filterMap PluginUse.round? := by
        simp [List.filterMap_append, idle]
      rw [heard, rounds]
      exact ⟨runs, hears.register nobody⟩
    cases use with
    | registerVolume drv => exact registers (.registerVolume drv) rfl rfl
    | registerNetwork drv => exact registers (.registerNetwork drv) rfl rfl
    | registerIpam drv => exact registers (.registerIpam drv) rfl rfl
    | run r =>
      have rounds : (uses ++ [PluginUse.run r]).filterMap PluginUse.round? =
          uses.filterMap PluginUse.round? ++ [r] := by
        simp [List.filterMap_append, PluginUse.round?]
      have log : heard ll policy l (uses ++ [PluginUse.run r]) = heard ll policy l uses ++ UdsServer.readLog r.recvs
          ((p.server.run (ll.connections policy) r).2.process.history.drop p.server.process.history.length) := by
        rw [heard, heard, rounds, UdsServer.received, List.foldl_concat, UdsServer.receive, runs.fed.1]
        rfl
      rw [log, rounds]
      obtain ⟨host, parsers, callbacks, valid, opened⟩ := hears.reads (UdsServer.readLog r.recvs
        ((p.server.run (ll.connections policy) r).2.process.history.drop p.server.process.history.length))
      exact ⟨.next runs (permits r rfl), host, parsers, callbacks, valid, opened⟩

/-- The server's table and the plugin agree on who is connected: where the server keeps a connection, the plugin can
still answer, its parser is where the bytes of its socket have taken it, and it was called for just what they say. -/
theorem tables_agree {l : Int} {uses : List (PluginUse δ)} (life : Life policy ll l uds drivers uses p)
    (opened : ∀ n, 0 ≤ (uds n).mSocket) {con : SocketObject ll.State} (member : con ∈ p.server.mConnections) :
    con.self = p.parsers con.serial ∧
      p.parsers con.serial =
        UdsServer.fed (ll.connections policy) ll.init (UdsServer.pieces con.serial (heard ll policy l uses)) ∧
      0 ≤ (p.host.connections con.serial).1.uds.mSocket ∧
      PluginHost.received con.serial p.events =
        ll.feed ll.init (UdsServer.pieces con.serial (heard ll policy l uses)) ∧
      .malformed con.serial ∉ p.events := by
  obtain ⟨runs, hears⟩ := life.hears
  obtain ⟨self, made, state, stays⟩ := runs.fed.2.members con member
  obtain rfl := Option.some.inj made
  refine ⟨state.trans (hears.parsers con.serial).symm, hears.parsers con.serial, ?_, hears.callbacks con.serial, ?_⟩
  · exact (hears.opened con.serial).mpr ⟨opened con.serial, stays⟩
  · exact hears.valid con.serial (Llhttp.valid_of_stays stays)

section
variable {l : Int} {uses : List (PluginUse δ)} (life : Life policy ll l uds drivers uses p) {strangers : Nat → Bool}
  (harmless : ∀ before e after, p.events = before ++ e :: after → e.connection?.any strangers = true →
    ((before ++ [e]).foldl (PluginHost.event policy) (PluginHost.start uds drivers)).driverCalls =
      (before.foldl (PluginHost.event policy) (PluginHost.start uds drivers)).driverCalls)
  {streams : Nat → List Delivery} (posts : ∀ n, ∀ d ∈ streams n, d.method = .httpPost)
  (understood : ∀ n, strangers n = false → ll.Valid ll.init (UdsServer.pieces n (heard ll policy l uses)) ∧
    ll.feed ll.init (UdsServer.pieces n (heard ll policy l uses)) <+: (streams n).flatMap Delivery.callbacks)

include life harmless in
theorem Life.sight : p.host.sight strangers =
    ((PluginHost.withoutStrangers strangers p.events).foldl (PluginHost.event policy)
      (PluginHost.start uds drivers)).sight strangers := by
  rw [life.hears.2.host]
  exact (PluginHost.observation δ policy strangers).view_purged (PluginHost.unnoticed_of_harmless harmless)

include life understood in
theorem Life.intact (n : Nat) : .malformed n ∉ PluginHost.withoutStrangers strangers p.events := by
  intro member
  obtain ⟨inside, seen⟩ := List.mem_filter.mp member
  have known : strangers n = false := by simpa [HostEvent.connection?] using seen
  exact life.hears.2.valid n (understood n known).1 inside

include life in
theorem Life.delivered_known {n : Nat} (known : strangers n = false) :
    PluginHost.received n (PluginHost.withoutStrangers strangers p.events) =
      ll.feed ll.init (UdsServer.pieces n (heard ll policy l uses)) := by
  rw [PluginHost.received_known known, life.hears.2.callbacks]

include life understood in
theorem Life.delivered (n : Nat) : PluginHost.received n (PluginHost.withoutStrangers strangers p.events) <+:
    (streams n).flatMap Delivery.callbacks := by
  cases known : strangers n with
  | true =>
    rw [PluginHost.received_stranger known]
    exact List.nil_prefix
  | false =>
    rw [life.delivered_known known]
    exact (understood n known).2

/-- The requests of the connections that are no strangers, and the registrations, in the order in which they are
complete. -/
def requests (strangers : Nat → Bool) (streams : Nat → List Delivery) (p : PluginServer ll δ) : List (PluginStep δ) :=
  (PluginHost.served streams (PluginHost.withoutStrangers strangers p.events)).1

include life harmless posts understood

/-- From the bytes on the sockets to the drivers: whatever the connections send, in whatever pieces and in whatever
order, those of them on which the parser finds requests are answered, and the drivers are called, as if those requests
had come one after the other and nothing from anyone else, as long as no driver is called on account of the others. -/
theorem serves_in_turn (opened : ∀ n, 0 ≤ (uds n).mSocket) :
    let alone := (PluginHost.start uds drivers).run policy (p.requests strangers streams)
    p.host.plugin = alone.plugin ∧ p.host.drivers = alone.drivers ∧ p.host.driverCalls = alone.driverCalls ∧
      ∀ n, strangers n = false → p.host.written n = alone.written n := by
  obtain ⟨plugin, state, calls, connections⟩ := PluginHost.sight_eq_iff.mp (life.sight harmless)
  obtain ⟨plugin', state', calls', written⟩ := PluginHost.alike_served policy drivers opened posts
    (life.intact understood) (life.delivered understood)
  refine ⟨plugin.trans plugin', state.trans state', calls.trans (congrArg ofDrivers calls'), fun n known => ?_⟩
  have same := congrArg (fun c : HttpConnection × Bytes => c.1.uds.written) (connections n known)
  exact same.trans (written n)

/-- What the socket of such a connection has accepted, if no send failed, is read as one response for each of its
requests that are complete, in their order, and each is what the plugin and its drivers make of the request when those
before it are served. Once all of its stream has come, none of its requests is left. -/
theorem each_request_answered (opened : ∀ n, 0 ≤ (uds n).mSocket) (answers : ∀ e ∈ p.events, e.registered.Answers)
    {n : Nat} (known : strangers n = false) (healthy : (uds n).Healthy) (unused : (uds n).log = []) :
    PluginHost.requestsOf n (p.requests strangers streams) <+: streams n ∧
      (ll.feed ll.init (UdsServer.pieces n (heard ll policy l uses)) = (streams n).flatMap Delivery.callbacks →
        PluginHost.requestsOf n (p.requests strangers streams) = streams n) ∧
      ∃ responses, Http.readResponses (p.host.connections n).1.uds.accepted.length
          (p.host.connections n).1.uds.accepted = some responses ∧
        responses.length = (PluginHost.requestsOf n (p.requests strangers streams)).length ∧
        List.Forall₂ (fun (reply : Reply) response => reply.prepared.ReadAs response)
          (PluginHost.repliesTo policy n (PluginHost.start uds drivers) (p.requests strangers streams)) responses := by
  have serial := @PluginHost.serial _ policy uds drivers streams _ opened posts (life.intact understood)
    (life.delivered understood)
  have parts := PluginHost.requestsOf_served streams (PluginHost.withoutStrangers strangers p.events) n
  refine ⟨⟨_, parts⟩, fun whole => ?_, ?_⟩
  · rw [← life.delivered_known known] at whole
    rw [serial.finished whole, List.append_nil] at parts
    exact parts
  have registered : ∀ s ∈ p.requests strangers streams, (latest [s]).Answers := by
    intro s member
    obtain ⟨e, inside, same⟩ := PluginHost.served_registered member
    rw [same]
    exact answers e (List.mem_filter.mp inside).1
  obtain ⟨written, allowed, count⟩ := @PluginHost.run_replies _ policy (p.requests strangers streams)
    serial.posts registered (PluginHost.start uds drivers) (fun m => HttpConnection.create_idle (uds m))
    Plugin.answers_empty n
  have wrote : PluginHost.Wrote (uds n) (p.host.connections n).1.uds := by
    rw [life.hears.2.host]
    exact PluginHost.events_wrote policy p.events ⟨[], rfl, fun _ => rfl⟩
  obtain ⟨-, -, -, connections⟩ := PluginHost.sight_eq_iff.mp (life.sight harmless)
  obtain ⟨-, -, -, same⟩ := PluginHost.alike_served policy drivers opened posts (life.intact understood)
    (life.delivered understood)
  have text : (p.host.connections n).1.uds.accepted = (PluginHost.repliesTo policy n (PluginHost.start uds drivers)
      (p.requests strangers streams)).flatMap Reply.wire := by
    have nothing : (PluginHost.start uds drivers).written n = [] := by
      show Channel.buffers (uds n).log = []
      rw [unused]
      rfl
    rw [wrote.accepted healthy unused, connections n known]
    exact (same n).trans (written.trans (by rw [nothing, List.nil_append]))
  obtain ⟨responses, read, heard⟩ := Reply.read_wires allowed
  rw [text]
  exact ⟨responses, read, by rw [← count, heard.length_eq], heard⟩

end

/-- An activation as Docker sends it, and what the parser makes of it. -/
def activation : Bytes := bytes "POST /Plugin.Activate HTTP/1.1\r\n\r\n"

def activationRead : Delivery := ⟨.httpPost, [bytes "/Plugin.Activate"], [], [], []⟩

/-- A parser for these and nothing else. -/
def activationParser : Llhttp where
  State := Unit
  init := ()
  execute _ data := if data = activation then (activationRead.callbacks, true, ()) else ([.onMessageBegin], false, ())

/-- Two clients, the second of which sends no HTTP, while a driver is registered. -/
def activations : List (PluginUse Nat) := [
  .run ⟨.leaves fun _ => true, 5, fun _ => .received activation⟩, .registerVolume busyDriver,
  .run ⟨.leaves fun _ => true, 6, fun i => if i = 0 then .received (bytes "hello") else .received activation⟩]

def activated : PluginServer activationParser Nat :=
  activations.foldl (step .ignored)
    (start (UdsServer.construct (bytes "p") (.ok 3) none).1 (fun _ => ⟨3, fun _ => .accepts 12, []⟩) 0)

theorem activated_life :
    Life .ignored activationParser 3 (fun _ => ⟨3, fun _ => .accepts 12, []⟩) 0 activations activated := by
  have bound : UdsServer.construct (κ := Unit) (bytes "p") (.ok 3) none =
      ((UdsServer.construct (bytes "p") (.ok 3) none).1, none) := rfl
  refine .next (.next (.next (.start (by decide) bound) fun r same => Or.inr ?_) fun r same => by cases same)
    fun r same => Or.inr ?_
  · obtain rfl := PluginUse.run.inj same
    exact ⟨by decide, rfl⟩
  · obtain rfl := PluginUse.run.inj same
    exact ⟨by decide, rfl⟩

theorem activated_events : activated.events = activationRead.callbacks.map (.callback 0) ++
    .registerVolume busyDriver :: .callback 1 .onMessageBegin :: .malformed 1 ::
      activationRead.callbacks.map (.callback 0) := rfl

theorem activated_heard : heard activationParser .ignored 3 activations =
    [(0, .received activation), (1, .received (bytes "hello")), (0, .received activation)] := rfl

def twoActivations : Nat → List Delivery
  | 0 => [activationRead, activationRead]
  | _ => []

theorem tables_agree_activations : () = activated.parsers 0 ∧
    activated.parsers 0 = UdsServer.fed (activationParser.connections .ignored) activationParser.init
      (UdsServer.pieces 0 (heard activationParser .ignored 3 activations)) ∧
    0 ≤ (activated.host.connections 0).1.uds.mSocket ∧
    PluginHost.received 0 activated.events =
      activationParser.feed () (UdsServer.pieces 0 (heard activationParser .ignored 3 activations)) ∧
    .malformed 0 ∉ activated.events := by
  have member : (⟨0, 5, ()⟩ : SocketObject Unit) ∈ activated.server.mConnections := List.mem_singleton.mpr rfl
  have agree := tables_agree activated_life (fun _ => by decide) member
  dsimp only at agree
  exact agree

theorem activated_harmless (before : List (HostEvent Nat)) (e : HostEvent Nat) (after : List (HostEvent Nat))
    (parts : activated.events = before ++ e :: after) (hidden : e.connection?.any (· == 1) = true) :
    ((before ++ [e]).foldl (PluginHost.event .ignored)
        (PluginHost.start (fun _ => ⟨3, fun _ => .accepts 12, []⟩) 0)).driverCalls =
      (before.foldl (PluginHost.event .ignored)
        (PluginHost.start (fun _ => ⟨3, fun _ => .accepts 12, []⟩) 0)).driverCalls := by
  have member : e ∈ activated.events := by
    rw [parts]
    exact List.mem_append_right before List.mem_cons_self
  have waits : e.commits = false := by
    rw [activated_events] at member
    simp only [List.mem_append, List.mem_cons, List.mem_map] at member
    rcases member with ⟨callback, -, rfl⟩ | rfl | rfl | rfl | ⟨callback, -, rfl⟩ <;> first | rfl | cases hidden
  rw [List.foldl_concat]
  exact PluginHost.event_waits .ignored waits _

theorem twoActivations_posts (n : Nat) : ∀ d ∈ twoActivations n, d.method = .httpPost := by
  intro d member
  rcases n with _ | n
  · simp only [twoActivations, List.mem_cons, List.not_mem_nil, or_false, or_self] at member
    rw [member]
    rfl
  · exact absurd member List.not_mem_nil

theorem twoActivations_understood (n : Nat) (known : (n == 1) = false) :
    activationParser.Valid () (UdsServer.pieces n (heard activationParser .ignored 3 activations)) ∧
      activationParser.feed () (UdsServer.pieces n (heard activationParser .ignored 3 activations)) <+:
        (twoActivations n).flatMap Delivery.callbacks := by
  rw [activated_heard]
  rcases n with _ | _ | n
  · exact ⟨⟨rfl, rfl, trivial⟩, [], rfl⟩
  · cases known
  · exact ⟨trivial, [], rfl⟩

theorem serves_in_turn_activations :
    let alone := (PluginHost.start (fun _ => ⟨3, fun _ => .accepts 12, []⟩) 0).run .ignored
      (activated.requests (· == 1) twoActivations)
    activated.host.plugin = alone.plugin ∧ activated.host.drivers = alone.drivers ∧
      activated.host.driverCalls = alone.driverCalls ∧
      ∀ n, (n == 1) = false → activated.host.written n = alone.written n :=
  serves_in_turn activated_life activated_harmless twoActivations_posts twoActivations_understood fun _ => by decide

theorem busyDriver_answers : (({} : Plugin Nat).registerVolume busyDriver).Answers := by
  intro h fn found
  cases h <;> cases found <;> intro req n e thrown <;> cases thrown <;> constructor <;> decide

theorem each_request_answered_activations : ∃ responses,
    Http.readResponses (activated.host.connections 0).1.uds.accepted.length
        (activated.host.connections 0).1.uds.accepted = some responses ∧ responses.length = 2 := by
  have answers : ∀ e ∈ activated.events, e.registered.Answers := by
    intro e member
    rw [activated_events] at member
    simp only [List.mem_append, List.mem_cons, List.mem_map] at member
    rcases member with ⟨callback, -, rfl⟩ | rfl | rfl | rfl | ⟨callback, -, rfl⟩ <;>
      first | exact busyDriver_answers | exact Plugin.answers_empty
  obtain ⟨-, whole, responses, read, count, -⟩ := each_request_answered activated_life activated_harmless
    twoActivations_posts twoActivations_understood (fun _ => by decide) answers (show (0 == 1) = false from rfl)
    ⟨by decide, by simp⟩ rfl
  refine ⟨responses, read, ?_⟩
  rw [count, whole (by rw [activated_heard]; rfl)]
  rfl

end PluginServer

end DockerPlugin

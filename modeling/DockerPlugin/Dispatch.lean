import DockerPlugin.DriverRequests
import Mathlib.Data.List.Induction

namespace DockerPlugin
open Octets Picojson PluginConnection

inductive DriverKind
  | volume
  | network
  | ipam
  deriving DecidableEq, Repr

namespace DriverKind

/-- The name under which `plugin_activate` announces a driver. -/
def name : DriverKind → Bytes
  | volume => bytes "VolumeDriver"
  | network => bytes "NetworkDriver"
  | ipam => bytes "IpamDriver"

end DriverKind

namespace Handler

/-- Which driver has the method, if it is one of a driver. -/
def kind : Handler → Option DriverKind
  | pluginActivate => none
  | volumeCreate | volumeRemove | volumeMount | volumePath | volumeUnmount | volumeGet | volumeList
  | volumeCapabilities => some .volume
  | networkCapabilities | networkCreateNetwork | networkAllocateNetwork | networkDeleteNetwork | networkFreeNetwork
  | networkCreateEndpoint | networkDeleteEndpoint | networkEndpointInfo | networkJoin | networkLeave
  | networkDiscoverNew | networkDiscoverDelete | networkProgramExternalConnectivity
  | networkRevokeExternalConnectivity => some .network
  | ipamCapabilities | ipamDefaultAddressSpaces | ipamRequestPool | ipamReleasePool | ipamRequestAddress
  | ipamReleaseAddress => some .ipam

/-- The URL of a method. -/
def endpoint : Handler → Bytes
  | pluginActivate => bytes "/Plugin.Activate"
  | volumeCreate => bytes "/VolumeDriver.Create"
  | volumeRemove => bytes "/VolumeDriver.Remove"
  | volumeMount => bytes "/VolumeDriver.Mount"
  | volumePath => bytes "/VolumeDriver.Path"
  | volumeUnmount => bytes "/VolumeDriver.Unmount"
  | volumeGet => bytes "/VolumeDriver.Get"
  | volumeList => bytes "/VolumeDriver.List"
  | volumeCapabilities => bytes "/VolumeDriver.Capabilities"
  | networkCapabilities => bytes "/NetworkDriver.GetCapabilities"
  | networkCreateNetwork => bytes "/NetworkDriver.CreateNetwork"
  | networkAllocateNetwork => bytes "/NetworkDriver.AllocateNetwork"
  | networkDeleteNetwork => bytes "/NetworkDriver.DeleteNetwork"
  | networkFreeNetwork => bytes "/NetworkDriver.FreeNetwork"
  | networkCreateEndpoint => bytes "/NetworkDriver.CreateEndpoint"
  | networkDeleteEndpoint => bytes "/NetworkDriver.DeleteEndpoint"
  | networkEndpointInfo => bytes "/NetworkDriver.EndpointOperInfo"
  | networkJoin => bytes "/NetworkDriver.Join"
  | networkLeave => bytes "/NetworkDriver.Leave"
  | networkDiscoverNew => bytes "/NetworkDriver.DiscoverNew"
  | networkDiscoverDelete => bytes "/NetworkDriver.DiscoverDelete"
  | networkProgramExternalConnectivity => bytes "/NetworkDriver.ProgramExternalConnectivity"
  | networkRevokeExternalConnectivity => bytes "/NetworkDriver.RevokeExternalConnectivity"
  | ipamCapabilities => bytes "/IpamDriver.GetCapabilities"
  | ipamDefaultAddressSpaces => bytes "/IpamDriver.GetDefaultAddressSpaces"
  | ipamRequestPool => bytes "/IpamDriver.RequestPool"
  | ipamReleasePool => bytes "/IpamDriver.ReleasePool"
  | ipamRequestAddress => bytes "/IpamDriver.RequestAddress"
  | ipamReleaseAddress => bytes "/IpamDriver.ReleaseAddress"

/-- A method of a driver is at a URL that begins with the name of the driver. -/
theorem endpoint_prefix {h : Handler} {k : DriverKind} (own : h.kind = some k) :
    bytes "/" ++ k.name ++ bytes "." <+: h.endpoint := by
  cases h <;> cases own <;> decide

end Handler

theorem ite_some {P : Prop} [Decidable P] {here h : Handler} {rest : Option Handler}
    (found : (if P then some here else rest) = some h) : (P ∧ here = h) ∨ rest = some h := by
  split at found
  · rename_i holds
    exact Or.inl ⟨holds, Option.some.inj found⟩
  · exact Or.inr found

/-- The comparisons of `on_message_complete` are with one URL for each method. -/
theorem handlerOf_iff {url : Bytes} {h : Handler} : handlerOf url = some h ↔ url = h.endpoint := by
  constructor
  · intro found
    unfold handlerOf at found
    iterate 29
      obtain ⟨here, rfl⟩ | found := ite_some found
      · exact here
    cases found
  · rintro rfl
    cases h <;> decide

namespace Plugin
variable {δ : Type}

/-- Whether there is a driver of a kind. -/
def registered (p : Plugin δ) : DriverKind → Bool
  | .volume => p.mVolumeDriver.isSome
  | .network => p.mNetworkDriver.isSome
  | .ipam => p.mIpamDriver.isSome

/-- A driver is announced exactly if it is there. -/
theorem mem_implements (p : Plugin δ) (k : DriverKind) :
    k.name ∈ p.pluginActivate.implements.entries ↔ p.registered k = true := by
  obtain ⟨volume, network, ipam⟩ := p
  cases volume <;> cases network <;> cases ipam <;> cases k <;>
    simp only [pluginActivate, registered, Option.isSome_none, Option.isSome_some, Bool.false_eq_true, if_true,
      if_false, iff_true, iff_false] <;> decide

theorem method_isSome (p : Plugin δ) {h : Handler} {k : DriverKind} (own : h.kind = some k) :
    (p.method h).isSome = p.registered k := by
  cases h <;> cases own <;> exact Option.isSome_map

end Plugin

/-- What happens to a plugin: a driver is registered, or a message arrives on one of its connections. -/
inductive PluginStep (δ : Type)
  | registerVolume (drv : Volume.Driver δ)
  | registerNetwork (drv : Network.Driver δ)
  | registerIpam (drv : Ipam.Driver δ)
  | request (connection : Nat) (d : Delivery)

namespace PluginStep
variable {δ : Type}

def volume? : PluginStep δ → Option (Volume.Driver δ)
  | registerVolume drv => some drv
  | _ => none

def network? : PluginStep δ → Option (Network.Driver δ)
  | registerNetwork drv => some drv
  | _ => none

def ipam? : PluginStep δ → Option (Ipam.Driver δ)
  | registerIpam drv => some drv
  | _ => none

end PluginStep

/-- The drivers that were registered last. -/
def latest {δ : Type} (steps : List (PluginStep δ)) : Plugin δ where
  mVolumeDriver := (steps.filterMap PluginStep.volume?).getLast?
  mNetworkDriver := (steps.filterMap PluginStep.network?).getLast?
  mIpamDriver := (steps.filterMap PluginStep.ipam?).getLast?

/-- A plugin with its connections, each with its base part and its `m_url`, and with the state of the
drivers and the handlers that were run. -/
structure PluginHost (δ : Type) where
  plugin : Plugin δ := {}
  drivers : δ
  calls : List HandlerCall := []
  connections : Nat → HttpConnection × Bytes

namespace PluginHost
variable {δ : Type}

/-- A plugin without drivers, and connections that were just constructed. -/
def start (uds : Nat → UdsConnection) (drivers : δ) : PluginHost δ where
  drivers
  connections i := (.create (uds i), [])

/-- A connection sees the plugin through its pointer. -/
def connection (host : PluginHost δ) (i : Nat) : Connection (PluginConnection δ) where
  http := (host.connections i).1
  self := {
    mPlugin := host.plugin, mUrl := (host.connections i).2, drivers := host.drivers, calls := host.calls }

def step (policy : InformationResult) (host : PluginHost δ) : PluginStep δ → PluginHost δ
  | .registerVolume drv => { host with plugin := host.plugin.registerVolume drv }
  | .registerNetwork drv => { host with plugin := host.plugin.registerNetwork drv }
  | .registerIpam drv => { host with plugin := host.plugin.registerIpam drv }
  | .request i d =>
    let c := serve policy [d] (host.connection i)
    { host with
      drivers := c.self.drivers, calls := c.self.calls
      connections := Function.update host.connections i (c.http, c.self.mUrl) }

def run (policy : InformationResult) (host : PluginHost δ) (steps : List (PluginStep δ)) : PluginHost δ :=
  steps.foldl (step policy) host

/-- The methods of drivers that were run, with their requests. -/
def driverCalls (host : PluginHost δ) : List HandlerCall := host.calls.filter fun call => call.1.kind.isSome

/-- The names that the plugin announces. -/
def implements (host : PluginHost δ) : List Bytes := host.plugin.pluginActivate.implements.entries

def written (host : PluginHost δ) (i : Nat) : Bytes := (host.connections i).1.uds.written

/-- Between two steps the plugin has the drivers registered last, and no connection is in a response. -/
theorem run_latest (policy : InformationResult) (uds : Nat → UdsConnection) (drivers : δ)
    {steps : List (PluginStep δ)} (posts : ∀ i d, .request i d ∈ steps → d.method = .httpPost) :
    ((start uds drivers).run policy steps).plugin = latest steps ∧
      ∀ i, (((start uds drivers).run policy steps).connections i).1.Idle := by
  induction steps using List.reverseRecOn with
  | nil => exact ⟨rfl, fun i => HttpConnection.create_idle (uds i)⟩
  | append_singleton steps last ih =>
    obtain ⟨plugin, idle⟩ := ih fun i d member => posts i d (List.mem_append_left _ member)
    have next : (start uds drivers).run policy (steps ++ [last]) =
        ((start uds drivers).run policy steps).step policy last := List.foldl_concat ..
    rw [next]
    cases last with
    | registerVolume drv | registerNetwork drv | registerIpam drv =>
      refine ⟨?_, idle⟩
      simp [step, plugin, latest, Plugin.registerVolume, Plugin.registerNetwork, Plugin.registerIpam,
        PluginStep.volume?, PluginStep.network?, PluginStep.ipam?]
    | request i d =>
      refine ⟨?_, fun j => ?_⟩
      · simp [step, plugin, latest, PluginStep.volume?, PluginStep.network?, PluginStep.ipam?]
      · by_cases same : j = i
        · subst same
          have post := posts j d (List.mem_append_right _ List.mem_cons_self)
          have served := (@serve_posts δ policy [d] (by simpa using post)
            (((start uds drivers).run policy steps).connection j) (idle j)).1
          simpa [step] using served
        · simpa [step, same] using idle j

/-- One response to a request on a connection. -/
def Replied (before after : PluginHost δ) (i : Nat) (reply : Reply) : Prop :=
  ∃ text, reply.GivenBy text ∧ after.written i = before.written i ++ text

/-- What a request comes to, by what the plugin announces in the same state. -/
structure Dispatched (latest : Plugin δ) (before after : PluginHost δ) (i : Nat) (url body : Bytes) : Prop where
  runs : after.driverCalls ≠ before.driverCalls ↔
    ∃ h k, url = Handler.endpoint h ∧ h.kind = some k ∧ k.name ∈ before.implements ∧
      ∃ req, fromJson h.request body = .ok req
  once : ∀ h k req, url = Handler.endpoint h → h.kind = some k → k.name ∈ before.implements →
    fromJson h.request body = .ok req → ∃ fn, latest.method h = some fn ∧
      after.driverCalls = before.driverCalls ++ [⟨h, req⟩] ∧ after.drivers = (fn req before.drivers).2
  quiet : after.driverCalls = before.driverCalls → after.drivers = before.drivers
  unknown : (∀ h, url ≠ Handler.endpoint h) → Replied before after i ⟨404, false, bytes "Not found"⟩
  unregistered : ∀ h k, url = Handler.endpoint h → h.kind = some k → k.name ∉ before.implements →
    Replied before after i ⟨404, true, bytes "Not found"⟩
  rejected : ∀ h k e, url = Handler.endpoint h → h.kind = some k → k.name ∈ before.implements →
    fromJson h.request body = .error e → ∃ status what, (status = 400 ∨ status = 500) ∧
      Replied before after i ⟨status, true, toJson .error (⟨0, what⟩ : ErrorResponse)⟩
  activated : url = Handler.endpoint .pluginActivate →
    Replied before after i ⟨200, true, toJson .activate before.plugin.pluginActivate⟩

/-- The state after a message, in terms of the answer of the plugin. -/
theorem step_request (policy : InformationResult) {host : PluginHost δ} {i : Nat} (idle : (host.connections i).1.Idle)
    {d : Delivery} (post : d.method = .httpPost) :
    (host.step policy (.request i d)).drivers = (host.plugin.answer d.message.url d.message.seenBody host.drivers).drivers ∧
      (host.step policy (.request i d)).calls =
        host.calls ++ (host.plugin.answer d.message.url d.message.seenBody host.drivers).calls ∧
      (host.step policy (.request i d)).written i = host.written i ++
        (host.plugin.answer d.message.url d.message.seenBody host.drivers).reply.wire := by
  have served := serve_cons policy post (c := host.connection i) idle []
  have same : serve policy [d] (host.connection i) = answered (host.connection i) d.message.url
      (host.plugin.answer d.message.url d.message.seenBody host.drivers) := served
  refine ⟨?_, ?_, ?_⟩
  · rw [step, same]
    rfl
  · rw [step, same]
    rfl
  · rw [step, same]
    simp [written, answered, Reply.wire, connection]

theorem driverCalls_append {host next : PluginHost δ} {calls : List HandlerCall} (more : next.calls = host.calls ++ calls) :
    next.driverCalls = host.driverCalls ++ calls.filter fun call => call.1.kind.isSome := by
  rw [driverCalls, more, List.filter_append]
  rfl

/-- Whatever cannot be decoded is answered with one of two codes. -/
theorem rejected_answer {t : RequestType} {body : Bytes} {e : Exception} (refused : fromJson t body = .error e)
    (response : ResponseType) : ∃ status what, (status = 400 ∨ status = 500) ∧
      answer response (.error e) = (status, toJson .error (⟨0, what⟩ : ErrorResponse)) := by
  rcases fromJson_error_cases refused with ⟨what, rfl⟩ | ⟨what, rfl⟩
  · exact ⟨400, what, Or.inl rfl, rfl⟩
  · exact ⟨500, what, Or.inr rfl, rfl⟩

theorem endpoint_injective {g h : Handler} (same : g.endpoint = h.endpoint) : g = h := by
  have found := (handlerOf_iff (h := g)).mpr rfl
  rw [same, (handlerOf_iff (h := h)).mpr rfl] at found
  exact (Option.some.inj found).symm

theorem answer_located (p : Plugin δ) (h : Handler) (body : Bytes) (drivers : δ) :
    p.answer h.endpoint body drivers =
      match p.method h with
      | none => ⟨⟨404, true, bytes "Not found"⟩, [], drivers⟩
      | some fn =>
        match fromJson h.request body with
        | .error e =>
          let (status, text) := PluginConnection.answer h.response (.error e)
          ⟨⟨status, true, text⟩, [], drivers⟩
        | .ok req =>
          let (status, text) := PluginConnection.answer h.response (fn req drivers).1
          ⟨⟨status, true, text⟩, [⟨h, req⟩], (fn req drivers).2⟩ := by
  have found : PluginConnection.handlerOf h.endpoint = some h := handlerOf_iff.mpr rfl
  unfold Plugin.answer
  split
  · rename_i missed
    rw [found] at missed
    cases missed
  · rename_i other same
    rw [found] at same
    obtain rfl := Option.some.inj same
    rfl

namespace Dispatched
variable {latest : Plugin δ} {before after : PluginHost δ} {i : Nat} {url body : Bytes}

theorem unlocated (nowhere : ∀ h, url ≠ Handler.endpoint h) (quiet : after.driverCalls = before.driverCalls)
    (drivers : after.drivers = before.drivers)
    (written : Replied before after i ⟨404, false, bytes "Not found"⟩) : Dispatched latest before after i url body where
  runs := by
    refine iff_of_false (fun more => more quiet) ?_
    rintro ⟨h, k, here, -⟩
    exact nowhere h here
  once h _ _ here := absurd here (nowhere h)
  quiet _ := drivers
  unknown _ := written
  unregistered h _ here := absurd here (nowhere h)
  rejected h _ _ here := absurd here (nowhere h)
  activated here := absurd here (nowhere _)

/-- A handler that runs no method of a driver. -/
theorem driverless {h : Handler} (own : h.kind = none) (quiet : after.driverCalls = before.driverCalls)
    (drivers : after.drivers = before.drivers)
    (written : Replied before after i ⟨200, true, toJson .activate before.plugin.pluginActivate⟩) :
    Dispatched latest before after i h.endpoint body := by
  have other : ∀ g k, h.endpoint = Handler.endpoint g → g.kind ≠ some k := by
    intro g k there its
    obtain rfl := endpoint_injective there
    cases own.symm.trans its
  refine ⟨iff_of_false (fun more => more quiet) ?_, ?_, fun _ => drivers, ?_, ?_, ?_, fun _ => written⟩
  · rintro ⟨g, k, there, its, -⟩
    exact other g k there its
  · exact fun g k _ there its => absurd its (other g k there)
  · exact fun nowhere => absurd rfl (nowhere h)
  · exact fun g k there its => absurd its (other g k there)
  · exact fun g k _ there its => absurd its (other g k there)

/-- A handler that is there is the only one of its URL, so what has to be said of it is all. -/
theorem located {h : Handler} {k : DriverKind} (own : h.kind = some k)
    (runs : after.driverCalls ≠ before.driverCalls ↔
      k.name ∈ before.implements ∧ ∃ req, fromJson h.request body = .ok req)
    (once : k.name ∈ before.implements → ∀ req, fromJson h.request body = .ok req → ∃ fn, latest.method h = some fn ∧
      after.driverCalls = before.driverCalls ++ [⟨h, req⟩] ∧ after.drivers = (fn req before.drivers).2)
    (quiet : after.driverCalls = before.driverCalls → after.drivers = before.drivers)
    (unregistered : k.name ∉ before.implements → Replied before after i ⟨404, true, bytes "Not found"⟩)
    (rejected : k.name ∈ before.implements → ∀ e, fromJson h.request body = .error e →
      ∃ status what, (status = 400 ∨ status = 500) ∧
        Replied before after i ⟨status, true, toJson .error (⟨0, what⟩ : ErrorResponse)⟩) :
    Dispatched latest before after i h.endpoint body := by
  refine ⟨runs.trans ⟨?_, ?_⟩, ?_, quiet, ?_, ?_, ?_, ?_⟩
  · rintro ⟨announced, decoded⟩
    exact ⟨h, k, rfl, own, announced, decoded⟩
  · rintro ⟨g, k', there, its, announced, decoded⟩
    obtain rfl := endpoint_injective there
    obtain rfl := Option.some.inj (own.symm.trans its)
    exact ⟨announced, decoded⟩
  · intro g k' req there its announced decoded
    obtain rfl := endpoint_injective there
    obtain rfl := Option.some.inj (own.symm.trans its)
    exact once announced req decoded
  · exact fun nowhere => absurd rfl (nowhere h)
  · intro g k' there its out
    obtain rfl := endpoint_injective there
    obtain rfl := Option.some.inj (own.symm.trans its)
    exact unregistered out
  · intro g k' e there its announced failed
    obtain rfl := endpoint_injective there
    obtain rfl := Option.some.inj (own.symm.trans its)
    exact rejected announced e failed
  · intro there
    obtain rfl := endpoint_injective there
    cases own

/-- Bodies out of which the method that is there gets the same request come to the same. -/
theorem of_body {other : Bytes} (dispatched : Dispatched latest before after i url other)
    (same : ∀ h k, url = Handler.endpoint h → h.kind = some k → k.name ∈ before.implements →
      ∀ req, fromJson h.request other = .ok req ↔ fromJson h.request body = .ok req) :
    Dispatched latest before after i url body where
  runs := by
    refine dispatched.runs.trans ⟨?_, ?_⟩ <;> rintro ⟨h, k, here, own, announced, req, decoded⟩
    · exact ⟨h, k, here, own, announced, req, (same h k here own announced req).mp decoded⟩
    · exact ⟨h, k, here, own, announced, req, (same h k here own announced req).mpr decoded⟩
  once h k req here own announced decoded :=
    dispatched.once h k req here own announced ((same h k here own announced req).mpr decoded)
  quiet := dispatched.quiet
  unknown := dispatched.unknown
  unregistered := dispatched.unregistered
  rejected h k e here own announced refused := by
    cases decoded : fromJson h.request other with
    | error failure => exact dispatched.rejected h k failure here own announced decoded
    | ok req => cases refused.symm.trans ((same h k here own announced req).mp decoded)
  activated := dispatched.activated

end Dispatched

/-- A request as the plugin gets to see it. -/
theorem dispatched_seen (policy : InformationResult) {host : PluginHost δ} {i : Nat} (idle : (host.connections i).1.Idle)
    {d : Delivery} (post : d.method = .httpPost) :
    Dispatched host.plugin host (host.step policy (.request i d)) i d.message.url d.message.seenBody := by
  obtain ⟨drivers, calls, written⟩ := step_request policy idle post
  have driverCalls := driverCalls_append calls
  cases found : handlerOf d.message.url with
  | none =>
    have nowhere : ∀ h, d.message.url ≠ Handler.endpoint h := fun h here => by
      rw [handlerOf_iff.mpr here] at found
      cases found
    simp only [Plugin.answer, found, List.filter_nil, List.append_nil] at drivers driverCalls written
    exact .unlocated nowhere driverCalls drivers ⟨_, Reply.wire_gives .notFound, written⟩
  | some h =>
    rw [handlerOf_iff.mp found] at drivers driverCalls written ⊢
    rw [answer_located] at drivers driverCalls written
    cases own : h.kind with
    | none =>
      obtain rfl : h = .pluginActivate := by cases h <;> first | rfl | cases own
      exact .driverless rfl (driverCalls.trans (List.append_nil _)) drivers ⟨_, Reply.wire_gives .ok, written⟩
    | some kind =>
      have announced : kind.name ∈ host.implements ↔ (host.plugin.method h).isSome = true := by
        rw [host.plugin.method_isSome own]
        exact host.plugin.mem_implements kind
      cases method : host.plugin.method h with
      | none =>
        rw [method] at announced
        have out : kind.name ∉ host.implements := fun there => Bool.noConfusion (announced.mp there)
        simp only [method, List.filter_nil, List.append_nil] at drivers driverCalls written
        refine .located own (iff_of_false (fun more => more driverCalls) fun both => out both.1) ?_ (fun _ => drivers)
          (fun _ => ⟨_, Reply.wire_gives .notFound, written⟩) fun there => absurd there out
        exact fun there => absurd there out
      | some fn =>
        rw [method] at announced
        have implemented : kind.name ∈ host.implements := announced.mpr rfl
        cases decoded : fromJson h.request d.message.seenBody with
        | error e =>
          simp only [method, decoded, List.filter_nil, List.append_nil] at drivers driverCalls written
          refine .located own (iff_of_false (fun more => more driverCalls) ?_) ?_ (fun _ => drivers)
            (fun out => absurd implemented out) fun _ _ _ => ?_
          · rintro ⟨-, req, accepted⟩
            cases decoded.symm.trans accepted
          · intro _ req accepted
            cases decoded.symm.trans accepted
          · obtain ⟨status, what, code, answer⟩ := rejected_answer decoded h.response
            rw [answer] at written
            have allows : AllowsContent status.toInt := by
              rcases code with rfl | rfl
              · exact .badRequest
              · exact .serverError
            exact ⟨status, what, code, _, Reply.wire_gives allows, written⟩
        | ok req =>
          simp only [method, decoded, List.filter_cons, own, Option.isSome_some, if_true, List.filter_nil]
            at drivers driverCalls written
          have grown : (host.step policy (.request i d)).driverCalls ≠ host.driverCalls := by
            rw [driverCalls]
            simp
          refine .located own (iff_of_true grown ⟨implemented, req, decoded⟩) (fun _ req' accepted => ?_)
            (fun same => absurd same grown) (fun out => absurd implemented out) fun _ e failed => ?_
          · obtain rfl := Except.ok.inj (decoded.symm.trans accepted)
            exact ⟨fn, method, driverCalls, drivers⟩
          · cases decoded.symm.trans failed

/-- A method that leaves its name behind. -/
def marking {Request Response : Type} (h : Handler) : DriverMethod (List Handler) Request Response :=
  fun _ ran => (.error (.stdException []), ran ++ [h])

/-- Drivers every method of which does so. -/
def markingPlugin : Plugin (List Handler) where
  mVolumeDriver := some {
    create := marking .volumeCreate
    list := marking .volumeList
    get := marking .volumeGet
    remove := marking .volumeRemove
    path := marking .volumePath
    mount := marking .volumeMount
    unmount := marking .volumeUnmount
    capabilities := marking .volumeCapabilities }
  mNetworkDriver := some {
    capabilities := marking .networkCapabilities
    createNetwork := marking .networkCreateNetwork
    allocateNetwork := marking .networkAllocateNetwork
    deleteNetwork := marking .networkDeleteNetwork
    freeNetwork := marking .networkFreeNetwork
    createEndpoint := marking .networkCreateEndpoint
    deleteEndpoint := marking .networkDeleteEndpoint
    endpointInfo := marking .networkEndpointInfo
    join := marking .networkJoin
    leave := marking .networkLeave
    discoverNew := marking .networkDiscoverNew
    discoverDelete := marking .networkDiscoverDelete
    programExternalConnectivity := marking .networkProgramExternalConnectivity
    revokeExternalConnectivity := marking .networkRevokeExternalConnectivity }
  mIpamDriver := some {
    capabilities := marking .ipamCapabilities
    defaultAddressSpaces := marking .ipamDefaultAddressSpaces
    requestPool := marking .ipamRequestPool
    releasePool := marking .ipamReleasePool
    requestAddress := marking .ipamRequestAddress
    releaseAddress := marking .ipamReleaseAddress }

theorem markingPlugin_method {h : Handler} (driven : h.kind ≠ none) : markingPlugin.method h = some (marking h) := by
  cases h <;> first | rfl | exact absurd rfl driven

/-- No trailer field keeps the body of a message from the method at its URL, unless there is no such
method, it reads no body, or it would refuse this one. -/
def BodyCounts (p : Plugin δ) (m : Message) : Prop :=
  m.trailers = [] ∨ ∀ h fn, m.url = Handler.endpoint h → p.method h = some fn → h.request ≠ .empty →
    ∀ req, fromJson h.request m.body ≠ .ok req

theorem seenBody_trailed {m : Message} (trailed : m.trailers ≠ []) : m.seenBody = [] := by
  simpa [Message.seenBody] using fun none => absurd none trailed

/-- A driver is announced exactly if its methods are there. -/
theorem announced_iff (host : PluginHost δ) {h : Handler} {k : DriverKind} (own : h.kind = some k) :
    k.name ∈ host.implements ↔ ∃ fn, host.plugin.method h = some fn := by
  rw [← Option.isSome_iff_exists, host.plugin.method_isSome own]
  exact host.plugin.mem_implements k

theorem dispatched_iff (policy : InformationResult) {host : PluginHost δ} {i : Nat} (idle : (host.connections i).1.Idle)
    {d : Delivery} (post : d.method = .httpPost) :
    Dispatched host.plugin host (host.step policy (.request i d)) i d.message.url d.message.body ↔
      BodyCounts host.plugin d.message := by
  have seen := dispatched_seen policy idle post
  by_cases trailed : d.message.trailers = []
  · have whole : d.message.seenBody = d.message.body := by simp [Message.seenBody, trailed]
    rw [whole] at seen
    exact iff_of_true seen (.inl trailed)
  rw [seenBody_trailed trailed] at seen
  constructor
  · refine fun dispatched => .inr fun h fn here method reads req accepted => ?_
    cases own : h.kind with
    | none =>
      obtain rfl : h = .pluginActivate := by cases h <;> first | rfl | cases own
      exact reads rfl
    | some k =>
      have announced := (host.announced_iff own).mpr ⟨fn, method⟩
      have grown := dispatched.runs.mpr ⟨h, k, here, own, announced, req, accepted⟩
      obtain ⟨g, _, there, -, -, other, decoded⟩ := seen.runs.mp grown
      obtain rfl := endpoint_injective (there.symm.trans here)
      exact fromJson_nil reads other decoded
  · rintro (none | refuses)
    · exact absurd none trailed
    · refine seen.of_body fun h k here own announced req => ?_
      by_cases reads : h.request = .empty
      · rw [fromJson_unread reads]
      · obtain ⟨fn, method⟩ := (host.announced_iff own).mp announced
        exact iff_of_false (fromJson_nil reads req) (refuses h fn here method reads req)

/-- Dispatch agrees with activation, whatever was registered and requested before, exactly if the body
that the method would get counts. There is one URL for each method of the three drivers, at the name of
its driver, and the method that is run there is that one. -/
theorem dispatch_iff (policy : InformationResult) (uds : Nat → UdsConnection) (drivers : δ)
    {steps : List (PluginStep δ)} (posts : ∀ i d, .request i d ∈ steps → d.method = .httpPost) (i : Nat) {d : Delivery}
    (post : d.method = .httpPost) :
    (Dispatched (latest steps) ((start uds drivers).run policy steps)
        (((start uds drivers).run policy steps).step policy (.request i d)) i d.message.url d.message.body ↔
      BodyCounts (latest steps) d.message) ∧
      (∀ g h : Handler, g.endpoint = h.endpoint → g = h) ∧
      (∀ (h : Handler) (k : DriverKind), h.kind = some k → bytes "/" ++ k.name ++ bytes "." <+: h.endpoint) ∧
      ∀ h : Handler, h.kind ≠ none → markingPlugin.method h = some (marking h) := by
  obtain ⟨plugin, idle⟩ := run_latest policy uds drivers posts
  refine ⟨?_, fun _ _ => endpoint_injective, fun _ _ => Handler.endpoint_prefix, fun _ => markingPlugin_method⟩
  rw [← plugin]
  exact dispatched_iff policy (idle i) post

/-- A request before and after its driver is registered. -/
def lateRegistration : List (PluginStep Nat) :=
  [.request 0 ⟨.httpPost, [bytes "/VolumeDriver.List"], [], [], []⟩, .registerVolume busyDriver]

/-- A volume that is to be created, with a trailer field behind the body. -/
def trailedVolume : Delivery :=
  ⟨.httpPost, [bytes "/VolumeDriver.Create"], [], [namedVolume], [([bytes "Checksum"], [bytes "7"])]⟩

theorem dispatch_iff_late :
    Dispatched (latest lateRegistration)
      ((start (fun _ => ⟨3, fun _ => .accepts 7, []⟩) 0).run .ignored lateRegistration)
      (((start (fun _ => ⟨3, fun _ => .accepts 7, []⟩) 0).run .ignored lateRegistration).step .ignored
        (.request 0 { trailedVolume with trailers := [] })) 0 (bytes "/VolumeDriver.Create") namedVolume := by
  have posts : ∀ i d, .request i d ∈ lateRegistration → d.method = .httpPost := by
    intro i d member
    obtain ⟨-, rfl⟩ : i = 0 ∧ d = ⟨.httpPost, [bytes "/VolumeDriver.List"], [], [], []⟩ := by
      simpa [lateRegistration] using member
    rfl
  exact (dispatch_iff .ignored (fun _ => ⟨3, fun _ => .accepts 7, []⟩) 0 posts 0
    (d := { trailedVolume with trailers := [] }) rfl).1.mpr (.inl rfl)

/-- With the trailer field the method gets an empty body, and is not run. -/
theorem trailed_volume_refused :
    ¬ Dispatched (latest [.registerVolume busyDriver])
      ((start (fun _ => ⟨3, fun _ => .accepts 7, []⟩) 0).run .ignored [.registerVolume busyDriver])
      (((start (fun _ => ⟨3, fun _ => .accepts 7, []⟩) 0).run .ignored [.registerVolume busyDriver]).step .ignored
        (.request 0 trailedVolume)) 0 (bytes "/VolumeDriver.Create") namedVolume := by
  intro dispatched
  exact dispatched.runs.mpr ⟨.volumeCreate, .volume, rfl, rfl, by decide, _, namedVolume_decoded⟩ rfl

end PluginHost

end DockerPlugin

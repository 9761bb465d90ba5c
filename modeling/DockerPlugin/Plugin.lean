import DockerPlugin.FromJson
import DockerPlugin.ToJson
import DockerPlugin.HttpCallbacks

namespace DockerPlugin
open Octets

/-- A virtual method of a driver: it may change the state that the drivers share, and return
or throw. -/
abbrev DriverMethod (δ Request Response : Type) := Request → δ → Except Exception Response × δ

structure Volume.Driver (δ : Type) where
  create : DriverMethod δ CreateRequest ErrorResponse
  list : DriverMethod δ EmptyType ListResponse
  get : DriverMethod δ GetRequest GetResponse
  remove : DriverMethod δ RemoveRequest ErrorResponse
  path : DriverMethod δ PathRequest PathResponse
  mount : DriverMethod δ MountRequest MountResponse
  unmount : DriverMethod δ UnmountRequest ErrorResponse
  capabilities : DriverMethod δ EmptyType CapabilitiesResponse

structure Network.Driver (δ : Type) where
  capabilities : DriverMethod δ EmptyType CapabilitiesResponse
  createNetwork : DriverMethod δ CreateNetworkRequest ErrorResponse
  allocateNetwork : DriverMethod δ AllocateNetworkRequest AllocateNetworkResponse
  deleteNetwork : DriverMethod δ DeleteNetworkRequest ErrorResponse
  freeNetwork : DriverMethod δ FreeNetworkRequest ErrorResponse
  createEndpoint : DriverMethod δ CreateEndpointRequest CreateEndpointResponse
  deleteEndpoint : DriverMethod δ DeleteEndpointRequest ErrorResponse
  endpointInfo : DriverMethod δ InfoRequest InfoResponse
  join : DriverMethod δ JoinRequest JoinResponse
  leave : DriverMethod δ LeaveRequest ErrorResponse
  discoverNew : DriverMethod δ DiscoveryNotification ErrorResponse
  discoverDelete : DriverMethod δ DiscoveryNotification ErrorResponse
  programExternalConnectivity : DriverMethod δ ProgramExternalConnectivityRequest ErrorResponse
  revokeExternalConnectivity : DriverMethod δ RevokeExternalConnectivityRequest ErrorResponse

structure Ipam.Driver (δ : Type) where
  capabilities : DriverMethod δ EmptyType CapabilitiesResponse
  defaultAddressSpaces : DriverMethod δ EmptyType AddressSpacesResponse
  requestPool : DriverMethod δ RequestPoolRequest RequestPoolResponse
  releasePool : DriverMethod δ ReleasePoolRequest ErrorResponse
  requestAddress : DriverMethod δ RequestAddressRequest RequestAddressResponse
  releaseAddress : DriverMethod δ ReleaseAddressRequest ErrorResponse

/-- The three drivers of a plugin, each of which may be missing. -/
structure Plugin (δ : Type) where
  mVolumeDriver : Option (Volume.Driver δ) := none
  mNetworkDriver : Option (Network.Driver δ) := none
  mIpamDriver : Option (Ipam.Driver δ) := none

namespace Plugin
variable {δ : Type}

def registerVolume (p : Plugin δ) (drv : Volume.Driver δ) : Plugin δ := { p with mVolumeDriver := some drv }

def registerNetwork (p : Plugin δ) (drv : Network.Driver δ) : Plugin δ := { p with mNetworkDriver := some drv }

def registerIpam (p : Plugin δ) (drv : Ipam.Driver δ) : Plugin δ := { p with mIpamDriver := some drv }

def pluginActivate (p : Plugin δ) : ActivateResponse :=
  let resp : ActivateResponse := {}
  let resp :=
    if p.mVolumeDriver.isSome then { resp with implements := resp.implements.insert (bytes "VolumeDriver") } else resp
  let resp :=
    if p.mNetworkDriver.isSome then { resp with implements := resp.implements.insert (bytes "NetworkDriver") } else resp
  if p.mIpamDriver.isSome then { resp with implements := resp.implements.insert (bytes "IpamDriver") } else resp

end Plugin

/-- The methods that requests are handed to. -/
inductive Handler
  | pluginActivate
  | volumeCreate
  | volumeRemove
  | volumeMount
  | volumePath
  | volumeUnmount
  | volumeGet
  | volumeList
  | volumeCapabilities
  | networkCapabilities
  | networkCreateNetwork
  | networkAllocateNetwork
  | networkDeleteNetwork
  | networkFreeNetwork
  | networkCreateEndpoint
  | networkDeleteEndpoint
  | networkEndpointInfo
  | networkJoin
  | networkLeave
  | networkDiscoverNew
  | networkDiscoverDelete
  | networkProgramExternalConnectivity
  | networkRevokeExternalConnectivity
  | ipamCapabilities
  | ipamDefaultAddressSpaces
  | ipamRequestPool
  | ipamReleasePool
  | ipamRequestAddress
  | ipamReleaseAddress
  deriving DecidableEq

namespace Handler

/-- `TRequest` of the method. -/
def request : Handler → RequestType
  | pluginActivate => .empty
  | volumeCreate => .volumeCreate
  | volumeRemove => .volumeRemove
  | volumeMount => .volumeMount
  | volumePath => .volumePath
  | volumeUnmount => .volumeUnmount
  | volumeGet => .volumeGet
  | volumeList => .empty
  | volumeCapabilities => .empty
  | networkCapabilities => .empty
  | networkCreateNetwork => .networkCreateNetwork
  | networkAllocateNetwork => .networkAllocateNetwork
  | networkDeleteNetwork => .networkDeleteNetwork
  | networkFreeNetwork => .networkFreeNetwork
  | networkCreateEndpoint => .networkCreateEndpoint
  | networkDeleteEndpoint => .networkDeleteEndpoint
  | networkEndpointInfo => .networkInfo
  | networkJoin => .networkJoin
  | networkLeave => .networkLeave
  | networkDiscoverNew => .networkDiscovery
  | networkDiscoverDelete => .networkDiscovery
  | networkProgramExternalConnectivity => .networkProgramExternalConnectivity
  | networkRevokeExternalConnectivity => .networkRevokeExternalConnectivity
  | ipamCapabilities => .empty
  | ipamDefaultAddressSpaces => .empty
  | ipamRequestPool => .ipamRequestPool
  | ipamReleasePool => .ipamReleasePool
  | ipamRequestAddress => .ipamRequestAddress
  | ipamReleaseAddress => .ipamReleaseAddress

/-- `TResponse` of the method. -/
def response : Handler → ResponseType
  | pluginActivate => .activate
  | volumeMount => .volumeMount
  | volumePath => .volumePath
  | volumeGet => .volumeGet
  | volumeList => .volumeList
  | volumeCapabilities => .volumeCapabilities
  | networkCapabilities => .networkCapabilities
  | networkAllocateNetwork => .networkAllocateNetwork
  | networkCreateEndpoint => .networkCreateEndpoint
  | networkEndpointInfo => .networkInfo
  | networkJoin => .networkJoin
  | ipamCapabilities => .ipamCapabilities
  | ipamDefaultAddressSpaces => .ipamAddressSpaces
  | ipamRequestPool => .ipamRequestPool
  | ipamRequestAddress => .ipamRequestAddress
  | volumeCreate | volumeRemove | volumeUnmount | networkCreateNetwork | networkDeleteNetwork | networkFreeNetwork
  | networkDeleteEndpoint | networkLeave | networkDiscoverNew | networkDiscoverDelete
  | networkProgramExternalConnectivity | networkRevokeExternalConnectivity | ipamReleasePool
  | ipamReleaseAddress => .error

end Handler

/-- `obj->*fn`, where the object that has the method is there. -/
def Plugin.method {δ : Type} (p : Plugin δ) : (h : Handler) →
    Option (DriverMethod δ h.request.Decoded h.response.Encoded)
  | .pluginActivate => some fun _ drivers => (.ok p.pluginActivate, drivers)
  | .volumeCreate => p.mVolumeDriver.map (·.create)
  | .volumeRemove => p.mVolumeDriver.map (·.remove)
  | .volumeMount => p.mVolumeDriver.map (·.mount)
  | .volumePath => p.mVolumeDriver.map (·.path)
  | .volumeUnmount => p.mVolumeDriver.map (·.unmount)
  | .volumeGet => p.mVolumeDriver.map (·.get)
  | .volumeList => p.mVolumeDriver.map (·.list)
  | .volumeCapabilities => p.mVolumeDriver.map (·.capabilities)
  | .networkCapabilities => p.mNetworkDriver.map (·.capabilities)
  | .networkCreateNetwork => p.mNetworkDriver.map (·.createNetwork)
  | .networkAllocateNetwork => p.mNetworkDriver.map (·.allocateNetwork)
  | .networkDeleteNetwork => p.mNetworkDriver.map (·.deleteNetwork)
  | .networkFreeNetwork => p.mNetworkDriver.map (·.freeNetwork)
  | .networkCreateEndpoint => p.mNetworkDriver.map (·.createEndpoint)
  | .networkDeleteEndpoint => p.mNetworkDriver.map (·.deleteEndpoint)
  | .networkEndpointInfo => p.mNetworkDriver.map (·.endpointInfo)
  | .networkJoin => p.mNetworkDriver.map (·.join)
  | .networkLeave => p.mNetworkDriver.map (·.leave)
  | .networkDiscoverNew => p.mNetworkDriver.map (·.discoverNew)
  | .networkDiscoverDelete => p.mNetworkDriver.map (·.discoverDelete)
  | .networkProgramExternalConnectivity => p.mNetworkDriver.map (·.programExternalConnectivity)
  | .networkRevokeExternalConnectivity => p.mNetworkDriver.map (·.revokeExternalConnectivity)
  | .ipamCapabilities => p.mIpamDriver.map (·.capabilities)
  | .ipamDefaultAddressSpaces => p.mIpamDriver.map (·.defaultAddressSpaces)
  | .ipamRequestPool => p.mIpamDriver.map (·.requestPool)
  | .ipamReleasePool => p.mIpamDriver.map (·.releasePool)
  | .ipamRequestAddress => p.mIpamDriver.map (·.requestAddress)
  | .ipamReleaseAddress => p.mIpamDriver.map (·.releaseAddress)

/-- A handler that was run, with the request it got. -/
abbrev HandlerCall := Σ h : Handler, h.request.Decoded

/-- The members of `plugin_http_connection`, with the state of the drivers and a record of the
handlers that were run on account of the connection. -/
structure PluginConnection (δ : Type) where
  mPlugin : Plugin δ
  mUrl : Bytes := []
  drivers : δ
  calls : List HandlerCall := []

namespace PluginConnection
variable {δ : Type}

/-- Decoding of the body and the call of the handler, with what comes out of either. -/
def callHandler (self : PluginConnection δ) (h : Handler) (fn : DriverMethod δ h.request.Decoded h.response.Encoded)
    (body : Bytes) : Except Exception h.response.Encoded × PluginConnection δ :=
  match fromJson h.request body with
  | .error e => (.error e, self)
  | .ok req =>
    let (res, drivers) := fn req self.drivers
    (res, { self with drivers, calls := self.calls ++ [⟨h, req⟩] })

/-- The status and the text that the `try` block and its handlers choose. -/
def answer (t : ResponseType) : Except Exception t.Encoded → Int32 × Bytes
  | .ok res => (200, toJson t res)
  | .error (.errorResponse e) => (e.status, toJson .error e)
  | .error (.invalidArgument what) => (400, toJson .error (⟨0, what⟩ : ErrorResponse))
  | .error (.stdException what) => (500, toJson .error (⟨0, what⟩ : ErrorResponse))

def invokePluginHandler (h : Handler) (c : Connection (PluginConnection δ)) : Connection (PluginConnection δ) :=
  let c := c.mapHttp (·.setResponseHeader (bytes "content-type") (bytes "application/vnd.docker.plugins.v1.1+json"))
  match c.self.mPlugin.method h with
  | none => c.mapHttp fun http => (http.responseStatus 404).endWith (bytes "Not found")
  | some fn =>
    let (outcome, self) := c.self.callHandler h fn c.http.body
    let (status, response) := answer h.response outcome
    { http := (c.http.responseStatus status).endWith response, self }

def onMessageBegin (c : Connection (PluginConnection δ)) : Int × Connection (PluginConnection δ) :=
  (0, c.mapHttp fun http => http.bufferHeaders.bufferBody)

def onUrl (method : LlhttpMethod) (url : Bytes) (c : Connection (PluginConnection δ)) :
    Int × Connection (PluginConnection δ) :=
  if method ≠ .httpPost then
    (1, c.mapHttp fun http => (http.responseStatus 405).endWith (bytes "Method not allowed"))
  else (0, { c with self := { c.self with mUrl := url } })

/-- The comparisons of `on_message_complete`. -/
def handlerOf (url : Bytes) : Option Handler :=
  if url = bytes "/Plugin.Activate" then some .pluginActivate
  else if url = bytes "/VolumeDriver.Create" then some .volumeCreate
  else if url = bytes "/VolumeDriver.Remove" then some .volumeRemove
  else if url = bytes "/VolumeDriver.Mount" then some .volumeMount
  else if url = bytes "/VolumeDriver.Path" then some .volumePath
  else if url = bytes "/VolumeDriver.Unmount" then some .volumeUnmount
  else if url = bytes "/VolumeDriver.Get" then some .volumeGet
  else if url = bytes "/VolumeDriver.List" then some .volumeList
  else if url = bytes "/VolumeDriver.Capabilities" then some .volumeCapabilities
  else if url = bytes "/NetworkDriver.GetCapabilities" then some .networkCapabilities
  else if url = bytes "/NetworkDriver.CreateNetwork" then some .networkCreateNetwork
  else if url = bytes "/NetworkDriver.AllocateNetwork" then some .networkAllocateNetwork
  else if url = bytes "/NetworkDriver.DeleteNetwork" then some .networkDeleteNetwork
  else if url = bytes "/NetworkDriver.FreeNetwork" then some .networkFreeNetwork
  else if url = bytes "/NetworkDriver.CreateEndpoint" then some .networkCreateEndpoint
  else if url = bytes "/NetworkDriver.DeleteEndpoint" then some .networkDeleteEndpoint
  else if url = bytes "/NetworkDriver.EndpointOperInfo" then some .networkEndpointInfo
  else if url = bytes "/NetworkDriver.Join" then some .networkJoin
  else if url = bytes "/NetworkDriver.Leave" then some .networkLeave
  else if url = bytes "/NetworkDriver.DiscoverNew" then some .networkDiscoverNew
  else if url = bytes "/NetworkDriver.DiscoverDelete" then some .networkDiscoverDelete
  else if url = bytes "/NetworkDriver.ProgramExternalConnectivity" then some .networkProgramExternalConnectivity
  else if url = bytes "/NetworkDriver.RevokeExternalConnectivity" then some .networkRevokeExternalConnectivity
  else if url = bytes "/IpamDriver.GetCapabilities" then some .ipamCapabilities
  else if url = bytes "/IpamDriver.GetDefaultAddressSpaces" then some .ipamDefaultAddressSpaces
  else if url = bytes "/IpamDriver.RequestPool" then some .ipamRequestPool
  else if url = bytes "/IpamDriver.ReleasePool" then some .ipamReleasePool
  else if url = bytes "/IpamDriver.RequestAddress" then some .ipamRequestAddress
  else if url = bytes "/IpamDriver.ReleaseAddress" then some .ipamReleaseAddress
  else none

def onMessageComplete (c : Connection (PluginConnection δ)) : Int × Connection (PluginConnection δ) :=
  match handlerOf c.self.mUrl with
  | some h => (0, invokePluginHandler h c)
  | none => (0, c.mapHttp fun http => (http.responseStatus 404).endWith (bytes "Not found"))

end PluginConnection

/-- What `plugin_http_connection` overrides. -/
def pluginHttpConnection (δ : Type) : Virtuals (PluginConnection δ) where
  onMessageBegin := PluginConnection.onMessageBegin
  onUrl := PluginConnection.onUrl
  onMessageComplete := PluginConnection.onMessageComplete

end DockerPlugin

import DockerPlugin.Api
import DockerPlugin.Library.Calendar

namespace DockerPlugin
open Octets Picojson

/-- `convert_map(map)`. -/
def encodeMap (map : UnorderedMap) : Value :=
  .object (map.entries.foldl (fun (obj : Object) e => obj.insert e.1 (.string e.2)) [])

/-- A number below one hundred in two digits. -/
def twoDigits (n : Nat) : Bytes := (if n < 10 then bytes "0" else []) ++ decimal n

/-- `strftime` with `%FT%TZ`. -/
def timeText (time : Calendar.Time) : Bytes :=
  signedDecimal time.date.year ++ bytes "-" ++ twoDigits time.date.month ++ bytes "-" ++ twoDigits time.date.day ++
    bytes "T" ++ twoDigits time.hour ++ bytes ":" ++ twoDigits time.minute ++ bytes ":" ++ twoDigits time.second ++ bytes "Z"

/-- `to_time_t` rounds towards zero. -/
def toTimeT (tp : Int) : Int := tp.tdiv 1000000000

/-- `convert_time`. A year of more than four digits does not fit the buffer. -/
def convertTime (tp : Int) : Bytes :=
  let text := timeText (Calendar.ofSeconds (toTimeT tp))
  if text.length ≤ 20 then text else []

/-- `to_json_raw`. -/
def toJsonRaw (e : Volume.VolumeInfo) : Value :=
  let obj : Object := []
  let obj := obj.insert (bytes "Name") (.string e.name)
  let obj := obj.insert (bytes "Mountpoint") (.string e.mountpoint)
  let obj := obj.insert (bytes "CreatedAt") (.string (convertTime e.createdAt))
  let obj := obj.insert (bytes "Status") (encodeMap e.status)
  .object obj

def serializeEndpointInterface (ei : Network.EndpointInterface) : Value :=
  let obj : Object := []
  let obj := obj.insert (bytes "Address") (.string ei.ipv4Address)
  let obj := obj.insert (bytes "AddressIPv6") (.string ei.ipv6Address)
  let obj := obj.insert (bytes "MacAddress") (.string ei.macAddress)
  .object obj

/-- The body of the loop over the static routes. -/
def serializeRoute (r : Network.StaticRoute) : Value :=
  let route : Object := []
  let route := route.insert (bytes "Destination") (.string r.destination)
  let route := route.insert (bytes "RouteType") (.int64 r.routeType.toInt64)
  let route := route.insert (bytes "NextHop") (.string r.nextHop)
  .object route

/-- The response types that `to_json` is specialised for and handlers return. -/
inductive ResponseType
  | activate
  | error
  | volumeMount
  | volumePath
  | volumeGet
  | volumeList
  | volumeCapabilities
  | networkCapabilities
  | networkAllocateNetwork
  | networkCreateEndpoint
  | networkInfo
  | networkJoin
  | ipamCapabilities
  | ipamAddressSpaces
  | ipamRequestPool
  | ipamRequestAddress
  deriving DecidableEq

namespace ResponseType

def Encoded : ResponseType → Type
  | activate => ActivateResponse
  | error => ErrorResponse
  | volumeMount => Volume.MountResponse
  | volumePath => Volume.PathResponse
  | volumeGet => Volume.GetResponse
  | volumeList => Volume.ListResponse
  | volumeCapabilities => Volume.CapabilitiesResponse
  | networkCapabilities => Network.CapabilitiesResponse
  | networkAllocateNetwork => Network.AllocateNetworkResponse
  | networkCreateEndpoint => Network.CreateEndpointResponse
  | networkInfo => Network.InfoResponse
  | networkJoin => Network.JoinResponse
  | ipamCapabilities => Ipam.CapabilitiesResponse
  | ipamAddressSpaces => Ipam.AddressSpacesResponse
  | ipamRequestPool => Ipam.RequestPoolResponse
  | ipamRequestAddress => Ipam.RequestAddressResponse

end ResponseType

/-- The object that each `to_json` builds. -/
def toObject : (t : ResponseType) → t.Encoded → Object
  | .activate, (e : ActivateResponse) =>
    let obj : Object := []
    let impls := e.implements.entries.map Value.string
    obj.insert (bytes "Implements") (.array impls)
  | .error, (e : ErrorResponse) =>
    let obj : Object := []
    obj.insert (bytes "Err") (.string e.error)
  | .volumeMount, (e : Volume.MountResponse) =>
    let obj : Object := []
    obj.insert (bytes "Mountpoint") (.string e.mountpoint)
  | .volumePath, (e : Volume.PathResponse) =>
    let obj : Object := []
    obj.insert (bytes "Mountpoint") (.string e.mountpoint)
  | .volumeGet, (e : Volume.GetResponse) =>
    let obj : Object := []
    obj.insert (bytes "Volume") (toJsonRaw e.volume)
  | .volumeList, (e : Volume.ListResponse) =>
    let arr := e.volumes.entries.map toJsonRaw
    let obj : Object := []
    obj.insert (bytes "Volumes") (.array arr)
  | .volumeCapabilities, (e : Volume.CapabilitiesResponse) =>
    let caps : Object := []
    let caps := caps.insert (bytes "Scope") (.string e.capabilities.scope)
    let obj : Object := []
    obj.insert (bytes "Capabilities") (.object caps)
  | .networkCapabilities, (e : Network.CapabilitiesResponse) =>
    let obj : Object := []
    let obj := obj.insert (bytes "Scope") (.string e.scope)
    obj.insert (bytes "ConnectivityScope") (.string e.connectivityScope)
  | .networkAllocateNetwork, (e : Network.AllocateNetworkResponse) =>
    let obj : Object := []
    obj.insert (bytes "Options") (encodeMap e.options)
  | .networkCreateEndpoint, (e : Network.CreateEndpointResponse) =>
    let obj : Object := []
    if !e.interface.empty then obj.insert (bytes "Interface") (serializeEndpointInterface e.interface) else obj
  | .networkInfo, (e : Network.InfoResponse) =>
    let obj : Object := []
    obj.insert (bytes "Value") (encodeMap e.value)
  | .networkJoin, (e : Network.JoinResponse) =>
    let obj : Object := []
    let ifname : Object := []
    let ifname := ifname.insert (bytes "SrcName") (.string e.interfaceName.srcName)
    let ifname := ifname.insert (bytes "DstPrefix") (.string e.interfaceName.dstPrefix)
    let obj := obj.insert (bytes "InterfaceName") (.object ifname)
    let obj := obj.insert (bytes "Gateway") (.string e.gatewayIpv4)
    let obj := obj.insert (bytes "GatewayIPv6") (.string e.gatewayIpv6)
    let obj := obj.insert (bytes "DisableGatewayService") (.boolean e.disableGatewayService)
    let routes := e.staticRoutes.map serializeRoute
    obj.insert (bytes "StaticRoutes") (.array routes)
  | .ipamCapabilities, (e : Ipam.CapabilitiesResponse) =>
    let obj : Object := []
    obj.insert (bytes "RequiresMACAddress") (.boolean e.requiresMacAddress)
  | .ipamAddressSpaces, (e : Ipam.AddressSpacesResponse) =>
    let obj : Object := []
    let obj := obj.insert (bytes "LocalDefaultAddressSpace") (.string e.localDefaultAddressSpace)
    obj.insert (bytes "GlobalDefaultAddressSpace") (.string e.localDefaultAddressSpace)
  | .ipamRequestPool, (e : Ipam.RequestPoolResponse) =>
    let obj : Object := []
    let obj := obj.insert (bytes "PoolID") (.string e.poolId)
    let obj := obj.insert (bytes "Pool") (.string e.pool)
    obj.insert (bytes "Data") (encodeMap e.data)
  | .ipamRequestAddress, (e : Ipam.RequestAddressResponse) =>
    let obj : Object := []
    let obj := obj.insert (bytes "Address") (.string e.address)
    obj.insert (bytes "Data") (encodeMap e.data)

/-- `to_json<T>(e)`. -/
def toJson (t : ResponseType) (e : t.Encoded) : Bytes := serialize (.object (toObject t e))

end DockerPlugin

import DockerPlugin.Api
import DockerPlugin.PicojsonParser

namespace DockerPlugin
open Octets Picojson

namespace Picojson

/-- The `runtime_error` of a failed `PICOJSON_ASSERT` in `get<ctype>()`. -/
def typeMismatch (ctype : Bytes) : Exception :=
  .stdException (bytes "\"type mismatch! call is<type>() before get<type>()\" && is<" ++ ctype ++ bytes ">()")

namespace Value

/-- `is<picojson::object>()`. -/
def isObject : Value → Bool
  | object _ => true
  | _ => false

/-- `get<picojson::object>()`. -/
def getObject : Value → Except Exception Object
  | object o => .ok o
  | _ => .error (typeMismatch (bytes "object"))

end Value

namespace Object

/-- A member that is read if it is there and is a string. -/
def readString (obj : Object) (key : Bytes) (field : Bytes := []) : Bytes :=
  match obj.find? key with
  | some (.string s) => s
  | _ => field

/-- A member that is read if it is there and is a boolean. -/
def readBool (obj : Object) (key : Bytes) (field : Bool := false) : Bool :=
  match obj.find? key with
  | some (.boolean b) => b
  | _ => field

end Object

end Picojson

/-- `convert_map(map, val)`: the entries of a value are taken over. -/
def decodeMap (map : UnorderedMap) (val : Value) : Except Exception UnorderedMap := do
  if val.isObject then return map
  let obj ← val.getObject
  return obj.foldl (fun map e =>
    match e.2 with
    | .string s => map.emplace e.1 s
    | _ => map) map

/-- `if (obj.count(key) != 0) convert_map(map, obj.at(key))`. -/
def readMap (obj : Object) (key : Bytes) (map : UnorderedMap := .empty) : Except Exception UnorderedMap :=
  match obj.find? key with
  | some val => decodeMap map val
  | none => return map

def parseObject (str : Bytes) : Except Exception Object :=
  match parse str with
  | .ok (.object o) => .ok o
  | .ok _ => .error (.invalidArgument (bytes "not a json object"))
  | .error err => .error (.invalidArgument err)
  | .overflow => .error (.stdException [])

namespace Network

/-- A round of `parse_ipam_data`. -/
def parseIpamEntry (res : List IpamData) (e : Value) : Except Exception (List IpamData) :=
  match e with
  | .object obj => do
    let data : IpamData := {
      addressSpace := Object.readString obj (bytes "AddressSpace")
      pool := Object.readString obj (bytes "Pool")
      gateway := Object.readString obj (bytes "Gateway")
      auxAddresses := ← readMap obj (bytes "AuxAddresses") }
    if !data.addressSpace.isEmpty || !data.pool.isEmpty || !data.gateway.isEmpty || !data.auxAddresses.entries.isEmpty then
      return res ++ [data]
    return res
  | _ => return res

def parseIpamData (val : Value) : Except Exception (List IpamData) :=
  match val with
  | .array arr => arr.foldlM parseIpamEntry []
  | _ => return []

/-- `if (obj.count(key) != 0) data = parse_ipam_data(obj.at(key))`. -/
def readIpamData (obj : Object) (key : Bytes) (data : List IpamData) : Except Exception (List IpamData) :=
  match obj.find? key with
  | some val => parseIpamData val
  | none => return data

/-- The data of a discovery, read if they are an object and the type is known. -/
def readNodeInfo (obj : Object) (key : Bytes) (discoveryType : DiscoveryType) (field : NodeInfo := {}) : NodeInfo :=
  match obj.find? key with
  | some (.object data) =>
    if discoveryType = .node then
      { address := Object.readString data (bytes "Address") field.address
        self := Object.readBool data (bytes "self") field.self }
    else field
  | _ => field

/-- An integer that is read if it is there, narrowed to the enumeration. -/
def readDiscoveryType (obj : Object) (key : Bytes) (field : DiscoveryType := 0) : DiscoveryType :=
  match obj.find? key with
  | some (.int64 i) => i.toInt32
  | _ => field

def parseEndpointInterface (val : Value) : EndpointInterface :=
  match val with
  | .object obj =>
    { ipv4Address := Object.readString obj (bytes "Address")
      ipv6Address := Object.readString obj (bytes "AddressIPv6")
      macAddress := Object.readString obj (bytes "MacAddress") }
  | _ => {}

/-- `if (obj.count(key) != 0) field = parse_endpoint_interface(obj.at(key))`. -/
def readEndpointInterface (obj : Object) (key : Bytes) (field : EndpointInterface := {}) : EndpointInterface :=
  match obj.find? key with
  | some val => parseEndpointInterface val
  | none => field

end Network

/-- The request types that `from_json` is specialised for. -/
inductive RequestType
  | empty
  | volumeCreate
  | volumeRemove
  | volumeMount
  | volumeUnmount
  | volumePath
  | volumeGet
  | networkCreateNetwork
  | networkAllocateNetwork
  | networkDeleteNetwork
  | networkFreeNetwork
  | networkCreateEndpoint
  | networkDeleteEndpoint
  | networkInfo
  | networkJoin
  | networkLeave
  | networkDiscovery
  | networkProgramExternalConnectivity
  | networkRevokeExternalConnectivity
  | ipamRequestPool
  | ipamReleasePool
  | ipamRequestAddress
  | ipamReleaseAddress
  deriving DecidableEq

namespace RequestType

def Decoded : RequestType → Type
  | empty => EmptyType
  | volumeCreate => Volume.CreateRequest
  | volumeRemove => Volume.RemoveRequest
  | volumeMount => Volume.MountRequest
  | volumeUnmount => Volume.UnmountRequest
  | volumePath => Volume.PathRequest
  | volumeGet => Volume.GetRequest
  | networkCreateNetwork => Network.CreateNetworkRequest
  | networkAllocateNetwork => Network.AllocateNetworkRequest
  | networkDeleteNetwork => Network.DeleteNetworkRequest
  | networkFreeNetwork => Network.FreeNetworkRequest
  | networkCreateEndpoint => Network.CreateEndpointRequest
  | networkDeleteEndpoint => Network.DeleteEndpointRequest
  | networkInfo => Network.InfoRequest
  | networkJoin => Network.JoinRequest
  | networkLeave => Network.LeaveRequest
  | networkDiscovery => Network.DiscoveryNotification
  | networkProgramExternalConnectivity => Network.ProgramExternalConnectivityRequest
  | networkRevokeExternalConnectivity => Network.RevokeExternalConnectivityRequest
  | ipamRequestPool => Ipam.RequestPoolRequest
  | ipamReleasePool => Ipam.ReleasePoolRequest
  | ipamRequestAddress => Ipam.RequestAddressRequest
  | ipamReleaseAddress => Ipam.ReleaseAddressRequest

end RequestType

/-- The body of each `from_json` behind `parse_object`, which only the empty type does without. -/
def fromObject : (t : RequestType) → Object → Except Exception t.Decoded
  | .empty, _ => return ({} : EmptyType)
  | .volumeCreate, obj => do
    let res : Volume.CreateRequest := { name := obj.readString (bytes "Name") }
    let options ← readMap obj (bytes "Opts") res.options
    return ({ res with options } : Volume.CreateRequest)
  | .volumeRemove, obj => return ({ name := obj.readString (bytes "Name") } : Volume.RemoveRequest)
  | .volumeMount, obj =>
    return ({ name := obj.readString (bytes "Name"), id := obj.readString (bytes "ID") } : Volume.MountRequest)
  | .volumeUnmount, obj =>
    return ({ name := obj.readString (bytes "Name"), id := obj.readString (bytes "ID") } : Volume.UnmountRequest)
  | .volumePath, obj => return ({ name := obj.readString (bytes "Name") } : Volume.PathRequest)
  | .volumeGet, obj => return ({ name := obj.readString (bytes "Name") } : Volume.GetRequest)
  | .networkCreateNetwork, obj => do
    let res : Network.CreateNetworkRequest := { networkId := obj.readString (bytes "NetworkID") }
    let options ← readMap obj (bytes "Options") res.options
    let ipv4Data ← Network.readIpamData obj (bytes "IPv4Data") res.ipv4Data
    let ipv4Data ← Network.readIpamData obj (bytes "IPv4Data") ipv4Data
    return ({ res with options, ipv4Data } : Network.CreateNetworkRequest)
  | .networkAllocateNetwork, obj => do
    let res : Network.AllocateNetworkRequest := { networkId := obj.readString (bytes "NetworkID") }
    let options ← readMap obj (bytes "Options") res.options
    let ipv4Data ← Network.readIpamData obj (bytes "IPv4Data") res.ipv4Data
    let ipv4Data ← Network.readIpamData obj (bytes "IPv4Data") ipv4Data
    return ({ res with options, ipv4Data } : Network.AllocateNetworkRequest)
  | .networkDeleteNetwork, obj =>
    return ({ networkId := obj.readString (bytes "NetworkID") } : Network.DeleteNetworkRequest)
  | .networkFreeNetwork, obj =>
    return ({ networkId := obj.readString (bytes "NetworkID") } : Network.FreeNetworkRequest)
  | .networkCreateEndpoint, obj => do
    let res : Network.CreateEndpointRequest := {
      networkId := obj.readString (bytes "NetworkID")
      endpointId := obj.readString (bytes "EndpointID") }
    let interface := Network.readEndpointInterface obj (bytes "Interface") res.interface
    let options ← readMap obj (bytes "Options") res.options
    return ({ res with interface, options } : Network.CreateEndpointRequest)
  | .networkDeleteEndpoint, obj =>
    return ({
      networkId := obj.readString (bytes "NetworkID")
      endpointId := obj.readString (bytes "EndpointID") } : Network.DeleteEndpointRequest)
  | .networkInfo, obj =>
    return ({
      networkId := obj.readString (bytes "NetworkID")
      endpointId := obj.readString (bytes "EndpointID") } : Network.InfoRequest)
  | .networkJoin, obj => do
    let res : Network.JoinRequest := {
      networkId := obj.readString (bytes "NetworkID")
      endpointId := obj.readString (bytes "EndpointID")
      sandboxKey := obj.readString (bytes "SandboxKey") }
    let options ← readMap obj (bytes "Options") res.options
    return ({ res with options } : Network.JoinRequest)
  | .networkLeave, obj =>
    return ({
      networkId := obj.readString (bytes "NetworkID")
      endpointId := obj.readString (bytes "EndpointID") } : Network.LeaveRequest)
  | .networkDiscovery, obj =>
    let res : Network.DiscoveryNotification := { discoveryType := Network.readDiscoveryType obj (bytes "DiscoveryType") }
    let nodeInfo := Network.readNodeInfo obj (bytes "DiscoveryData") res.discoveryType res.nodeInfo
    return ({ res with nodeInfo } : Network.DiscoveryNotification)
  | .networkProgramExternalConnectivity, obj => do
    let res : Network.ProgramExternalConnectivityRequest := {
      networkId := obj.readString (bytes "NetworkID")
      endpointId := obj.readString (bytes "EndpointID") }
    let options ← readMap obj (bytes "Options") res.options
    return ({ res with options } : Network.ProgramExternalConnectivityRequest)
  | .networkRevokeExternalConnectivity, obj =>
    return ({
      networkId := obj.readString (bytes "NetworkID")
      endpointId := obj.readString (bytes "EndpointID") } : Network.RevokeExternalConnectivityRequest)
  | .ipamRequestPool, obj => do
    let res : Ipam.RequestPoolRequest := {
      addressSpace := obj.readString (bytes "AddressSpace")
      pool := obj.readString (bytes "Pool")
      subPool := obj.readString (bytes "SubPool") }
    let options ← readMap obj (bytes "Options") res.options
    return ({ res with options, ipv6 := obj.readBool (bytes "V6") } : Ipam.RequestPoolRequest)
  | .ipamReleasePool, obj => return ({ poolId := obj.readString (bytes "PoolID") } : Ipam.ReleasePoolRequest)
  | .ipamRequestAddress, obj => do
    let res : Ipam.RequestAddressRequest := {
      poolId := obj.readString (bytes "PoolID")
      address := obj.readString (bytes "Address") }
    let options ← readMap obj (bytes "Options") res.options
    return ({ res with options } : Ipam.RequestAddressRequest)
  | .ipamReleaseAddress, obj =>
    return ({
      poolId := obj.readString (bytes "PoolID")
      address := obj.readString (bytes "Address") } : Ipam.ReleaseAddressRequest)

/-- `from_json<T>(str)`. -/
def fromJson (t : RequestType) (str : Bytes) : Except Exception t.Decoded :=
  if t = .empty then fromObject t [] else parseObject str >>= fromObject t

end DockerPlugin

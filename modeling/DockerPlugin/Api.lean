import DockerPlugin.Library.OrderedSet
import DockerPlugin.Picojson

namespace DockerPlugin
open Octets

instance : StrictWeak Picojson.stringLess :=
  .ofKey (List.map UInt8.toNat) fun a b => lexicographicalCompare_key UInt8.toNat (fun _ _ => decide_eq_true_iff) a b

/-- `std::unordered_map<std::string, std::string>`: its entries in the order in which they are
visited, whatever that is, no key twice. -/
structure UnorderedMap where
  entries : List (Bytes × Bytes)
  unique : (entries.map Prod.fst).Nodup
  deriving DecidableEq

namespace UnorderedMap

def empty : UnorderedMap := ⟨[], .nil⟩

/-- `map.emplace(key, value)`: an entry that is there already stays as it is. -/
def emplace (map : UnorderedMap) (key value : Bytes) : UnorderedMap :=
  if member : key ∈ map.entries.map Prod.fst then map
  else
    { entries := map.entries ++ [(key, value)]
      unique := by
        rw [List.map_append, List.map_cons, List.map_nil, List.nodup_append]
        refine ⟨map.unique, by simp, ?_⟩
        rintro a inside b single rfl
        exact member (by rwa [List.mem_singleton.mp single] at inside) }

/-- `operator==`: the same entries, in any order. -/
def Same (a b : UnorderedMap) : Prop := a.entries.Perm b.entries

instance (a b : UnorderedMap) : Decidable (a.Same b) := inferInstanceAs (Decidable (a.entries.Perm b.entries))

end UnorderedMap

structure ActivateResponse where
  implements : OrderedSet Bytes Picojson.stringLess := .empty

structure EmptyType where

/-- The status is not exposed in the response, but becomes the http status. -/
structure ErrorResponse where
  status : Int32 := 0
  error : Bytes := []
  deriving DecidableEq

namespace Volume

/-- The creation time is counted in the nanoseconds of `system_clock`. -/
structure VolumeInfo where
  name : Bytes := []
  mountpoint : Bytes := []
  createdAt : Int := 0
  status : UnorderedMap := .empty

/-- `operator<` of `volume_info`. -/
def VolumeInfo.less (lhs rhs : VolumeInfo) : Bool := Picojson.stringLess lhs.name rhs.name

instance : StrictWeak VolumeInfo.less where
  asymm before := @StrictWeak.asymm _ Picojson.stringLess _ _ _ before
  negTrans ab bc := @StrictWeak.negTrans _ Picojson.stringLess _ _ _ _ ab bc

structure CreateRequest where
  name : Bytes := []
  options : UnorderedMap := .empty

structure RemoveRequest where
  name : Bytes := []

structure MountRequest where
  name : Bytes := []
  id : Bytes := []

structure MountResponse where
  mountpoint : Bytes := []

structure UnmountRequest where
  name : Bytes := []
  id : Bytes := []

structure PathRequest where
  name : Bytes := []

structure PathResponse where
  mountpoint : Bytes := []

structure GetRequest where
  name : Bytes := []

structure GetResponse where
  volume : VolumeInfo := {}

structure ListResponse where
  volumes : OrderedSet VolumeInfo VolumeInfo.less := .empty

structure Capabilities where
  scope : Bytes := []

structure CapabilitiesResponse where
  capabilities : Capabilities := {}

end Volume

namespace Network

structure CapabilitiesResponse where
  scope : Bytes := []
  connectivityScope : Bytes := []

structure IpamData where
  addressSpace : Bytes := []
  pool : Bytes := []
  gateway : Bytes := []
  auxAddresses : UnorderedMap := .empty

structure CreateNetworkRequest where
  networkId : Bytes := []
  options : UnorderedMap := .empty
  ipv4Data : List IpamData := []
  ipv6Data : List IpamData := []

structure AllocateNetworkRequest where
  networkId : Bytes := []
  options : UnorderedMap := .empty
  ipv4Data : List IpamData := []
  ipv6Data : List IpamData := []

structure AllocateNetworkResponse where
  options : UnorderedMap := .empty

structure DeleteNetworkRequest where
  networkId : Bytes := []

structure FreeNetworkRequest where
  networkId : Bytes := []

structure EndpointInterface where
  ipv4Address : Bytes := []
  ipv6Address : Bytes := []
  macAddress : Bytes := []

def EndpointInterface.empty (i : EndpointInterface) : Bool :=
  i.ipv4Address.isEmpty && i.ipv6Address.isEmpty && i.macAddress.isEmpty

structure CreateEndpointRequest where
  networkId : Bytes := []
  endpointId : Bytes := []
  interface : EndpointInterface := {}
  options : UnorderedMap := .empty

structure CreateEndpointResponse where
  interface : EndpointInterface := {}

structure DeleteEndpointRequest where
  networkId : Bytes := []
  endpointId : Bytes := []

structure InfoRequest where
  networkId : Bytes := []
  endpointId : Bytes := []

structure InfoResponse where
  value : UnorderedMap := .empty

structure JoinRequest where
  networkId : Bytes := []
  endpointId : Bytes := []
  sandboxKey : Bytes := []
  options : UnorderedMap := .empty

structure StaticRoute where
  destination : Bytes := []
  routeType : Int32 := 0
  nextHop : Bytes := []
  deriving DecidableEq

structure InterfaceName where
  srcName : Bytes := []
  dstPrefix : Bytes := []

structure JoinResponse where
  interfaceName : InterfaceName := {}
  gatewayIpv4 : Bytes := []
  gatewayIpv6 : Bytes := []
  staticRoutes : List StaticRoute := []
  disableGatewayService : Bool := false

structure LeaveRequest where
  networkId : Bytes := []
  endpointId : Bytes := []

/-- `discovery_notification::type`, an enumeration over `int` with one named value. -/
abbrev DiscoveryType := Int32

def DiscoveryType.node : DiscoveryType := 1

structure NodeInfo where
  address : Bytes := []
  self : Bool := false

structure DiscoveryNotification where
  discoveryType : DiscoveryType := 0
  nodeInfo : NodeInfo := {}

structure ProgramExternalConnectivityRequest where
  networkId : Bytes := []
  endpointId : Bytes := []
  options : UnorderedMap := .empty

structure RevokeExternalConnectivityRequest where
  networkId : Bytes := []
  endpointId : Bytes := []

end Network

namespace Ipam

structure CapabilitiesResponse where
  requiresMacAddress : Bool := false

structure AddressSpacesResponse where
  localDefaultAddressSpace : Bytes := []
  globalDefaultAddressSpace : Bytes := []

structure RequestPoolRequest where
  addressSpace : Bytes := []
  pool : Bytes := []
  subPool : Bytes := []
  options : UnorderedMap := .empty
  ipv6 : Bool := false

structure RequestPoolResponse where
  poolId : Bytes := []
  pool : Bytes := []
  data : UnorderedMap := .empty

structure ReleasePoolRequest where
  poolId : Bytes := []

structure RequestAddressRequest where
  poolId : Bytes := []
  address : Bytes := []
  options : UnorderedMap := .empty

structure RequestAddressResponse where
  address : Bytes := []
  data : UnorderedMap := .empty

structure ReleaseAddressRequest where
  poolId : Bytes := []
  address : Bytes := []

end Ipam

/-- What the code and the drivers throw. Every exception of the standard library but
`std::invalid_argument` and its kin ends up in one handler. -/
inductive Exception
  | errorResponse (e : ErrorResponse)
  | invalidArgument (what : Bytes)
  | stdException (what : Bytes)
  deriving DecidableEq

end DockerPlugin

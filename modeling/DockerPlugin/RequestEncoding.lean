import DockerPlugin.DriverRequests
import DockerPlugin.ResponseEncoding
import DockerPlugin.PicojsonGrammar

namespace DockerPlugin
open Octets Picojson

namespace Network

/-- Address data as an engine writes them. -/
def writeIpamData (d : IpamData) : Value :=
  .object (Object.ofMembers [(bytes "AddressSpace", .string d.addressSpace), (bytes "Pool", .string d.pool),
    (bytes "Gateway", .string d.gateway), (bytes "AuxAddresses", encodeMap d.auxAddresses)] [])

def writeNodeInfo (n : NodeInfo) : Value :=
  .object (Object.ofMembers [(bytes "Address", .string n.address), (bytes "self", .boolean n.self)] [])

end Network

namespace RequestType

/-- The address data of the second family, where a request type has some. -/
def ipv6Data : (t : RequestType) → t.Decoded → List Network.IpamData
  | networkCreateNetwork, (r : Network.CreateNetworkRequest) => r.ipv6Data
  | networkAllocateNetwork, (r : Network.AllocateNetworkRequest) => r.ipv6Data
  | _, _ => []

/-- The members of a request as an engine writes them, every field under the name that the plugin interface has
for it. -/
def write : (t : RequestType) → t.Decoded → List (Bytes × Value)
  | empty, _ => []
  | volumeCreate, (r : Volume.CreateRequest) => [(bytes "Name", .string r.name), (bytes "Opts", encodeMap r.options)]
  | volumeRemove, (r : Volume.RemoveRequest) => [(bytes "Name", .string r.name)]
  | volumeMount, (r : Volume.MountRequest) => [(bytes "Name", .string r.name), (bytes "ID", .string r.id)]
  | volumeUnmount, (r : Volume.UnmountRequest) => [(bytes "Name", .string r.name), (bytes "ID", .string r.id)]
  | volumePath, (r : Volume.PathRequest) => [(bytes "Name", .string r.name)]
  | volumeGet, (r : Volume.GetRequest) => [(bytes "Name", .string r.name)]
  | networkCreateNetwork, (r : Network.CreateNetworkRequest) => [
    (bytes "NetworkID", .string r.networkId), (bytes "Options", encodeMap r.options),
    (bytes "IPv4Data", .array (r.ipv4Data.map Network.writeIpamData)),
    (bytes "IPv6Data", .array (r.ipv6Data.map Network.writeIpamData))]
  | networkAllocateNetwork, (r : Network.AllocateNetworkRequest) => [
    (bytes "NetworkID", .string r.networkId), (bytes "Options", encodeMap r.options),
    (bytes "IPv4Data", .array (r.ipv4Data.map Network.writeIpamData)),
    (bytes "IPv6Data", .array (r.ipv6Data.map Network.writeIpamData))]
  | networkDeleteNetwork, (r : Network.DeleteNetworkRequest) => [(bytes "NetworkID", .string r.networkId)]
  | networkFreeNetwork, (r : Network.FreeNetworkRequest) => [(bytes "NetworkID", .string r.networkId)]
  | networkCreateEndpoint, (r : Network.CreateEndpointRequest) => [
    (bytes "NetworkID", .string r.networkId), (bytes "EndpointID", .string r.endpointId),
    (bytes "Interface", serializeEndpointInterface r.interface), (bytes "Options", encodeMap r.options)]
  | networkDeleteEndpoint, (r : Network.DeleteEndpointRequest) => [
    (bytes "NetworkID", .string r.networkId), (bytes "EndpointID", .string r.endpointId)]
  | networkInfo, (r : Network.InfoRequest) => [
    (bytes "NetworkID", .string r.networkId), (bytes "EndpointID", .string r.endpointId)]
  | networkJoin, (r : Network.JoinRequest) => [
    (bytes "NetworkID", .string r.networkId), (bytes "EndpointID", .string r.endpointId),
    (bytes "SandboxKey", .string r.sandboxKey), (bytes "Options", encodeMap r.options)]
  | networkLeave, (r : Network.LeaveRequest) => [
    (bytes "NetworkID", .string r.networkId), (bytes "EndpointID", .string r.endpointId)]
  | networkDiscovery, (r : Network.DiscoveryNotification) => [
    (bytes "DiscoveryType", .int64 r.discoveryType.toInt64), (bytes "DiscoveryData", Network.writeNodeInfo r.nodeInfo)]
  | networkProgramExternalConnectivity, (r : Network.ProgramExternalConnectivityRequest) => [
    (bytes "NetworkID", .string r.networkId), (bytes "EndpointID", .string r.endpointId),
    (bytes "Options", encodeMap r.options)]
  | networkRevokeExternalConnectivity, (r : Network.RevokeExternalConnectivityRequest) => [
    (bytes "NetworkID", .string r.networkId), (bytes "EndpointID", .string r.endpointId)]
  | ipamRequestPool, (r : Ipam.RequestPoolRequest) => [
    (bytes "AddressSpace", .string r.addressSpace), (bytes "Pool", .string r.pool),
    (bytes "SubPool", .string r.subPool), (bytes "Options", encodeMap r.options), (bytes "V6", .boolean r.ipv6)]
  | ipamReleasePool, (r : Ipam.ReleasePoolRequest) => [(bytes "PoolID", .string r.poolId)]
  | ipamRequestAddress, (r : Ipam.RequestAddressRequest) => [
    (bytes "PoolID", .string r.poolId), (bytes "Address", .string r.address), (bytes "Options", encodeMap r.options)]
  | ipamReleaseAddress, (r : Ipam.ReleaseAddressRequest) => [
    (bytes "PoolID", .string r.poolId), (bytes "Address", .string r.address)]

def text (t : RequestType) (r : t.Decoded) : Bytes := serialize (.object (Object.ofMembers (t.write r) []))

end RequestType

namespace Network

def IpamData.blank (d : IpamData) : Bool := d.addressSpace.isEmpty && d.pool.isEmpty && d.gateway.isEmpty

/-- What arrives of address data: those with something in them, without their maps of addresses. -/
def arriving (data : List IpamData) : List IpamData :=
  (data.filter fun d => !d.blank).map fun d => { d with auxAddresses := .empty }

end Network

namespace RequestType

/-- What arrives of a request. -/
def arriving : (t : RequestType) → t.Decoded → t.Decoded
  | volumeCreate, (r : Volume.CreateRequest) => ({ r with options := .empty } : Volume.CreateRequest)
  | networkCreateNetwork, (r : Network.CreateNetworkRequest) =>
    ({ r with options := .empty, ipv4Data := Network.arriving r.ipv4Data, ipv6Data := [] } :
      Network.CreateNetworkRequest)
  | networkAllocateNetwork, (r : Network.AllocateNetworkRequest) =>
    ({ r with options := .empty, ipv4Data := Network.arriving r.ipv4Data, ipv6Data := [] } :
      Network.AllocateNetworkRequest)
  | networkCreateEndpoint, (r : Network.CreateEndpointRequest) =>
    ({ r with options := .empty } : Network.CreateEndpointRequest)
  | networkJoin, (r : Network.JoinRequest) => ({ r with options := .empty } : Network.JoinRequest)
  | networkDiscovery, (r : Network.DiscoveryNotification) =>
    ({ r with nodeInfo := if r.discoveryType = .node then r.nodeInfo else {} } : Network.DiscoveryNotification)
  | networkProgramExternalConnectivity, (r : Network.ProgramExternalConnectivityRequest) =>
    ({ r with options := .empty } : Network.ProgramExternalConnectivityRequest)
  | ipamRequestPool, (r : Ipam.RequestPoolRequest) => ({ r with options := .empty } : Ipam.RequestPoolRequest)
  | ipamRequestAddress, (r : Ipam.RequestAddressRequest) => ({ r with options := .empty } : Ipam.RequestAddressRequest)
  | _, r => r

/-- A notification of another type tells nothing of a node. -/
def NodeTold : (t : RequestType) → t.Decoded → Prop
  | networkDiscovery, (r : Network.DiscoveryNotification) => r.discoveryType = .node ∨ r.nodeInfo = {}
  | _, _ => True

/-- The requests that arrive as they were written. -/
structure Conveyable (t : RequestType) (r : t.Decoded) : Prop where
  options : t.options r = .empty
  ipv4Data : ∀ d ∈ t.ipv4Data r, d.blank = false ∧ d.auxAddresses = .empty
  ipv6Data : t.ipv6Data r = []
  node : t.NodeTold r

end RequestType

theorem Picojson.Object.AllPlain.ofMembers {depths : Nat} {ms : List (Bytes × Value)} {o : Object}
    (plain : Object.AllPlain depths o) (values : ∀ m ∈ ms, Plain depths m.2) : Object.AllPlain depths (Object.ofMembers ms o) := by
  induction ms generalizing o with
  | nil => exact plain
  | cons m ms ih =>
    obtain ⟨first, others⟩ := List.forall_mem_cons.mp values
    exact ih (plain.insert first) others

theorem writeIpamData_plain (depths : Nat) (d : Network.IpamData) : Plain (depths + 1) (Network.writeIpamData d) :=
  (Object.AllPlain.ofMembers (.nil _) (by simp [Plain.string, encodeMap_plain])).object

theorem writeNodeInfo_plain (depths : Nat) (n : Network.NodeInfo) : Plain (depths + 1) (Network.writeNodeInfo n) :=
  (Object.AllPlain.ofMembers (.nil _) (by simp [Plain.string, Plain.boolean])).object

theorem write_plain (depths : Nat) (t : RequestType) (r : t.Decoded) :
    ∀ m ∈ t.write r, Plain (depths + 2) m.2 := by
  have pools : ∀ data : List Network.IpamData, Plain (depths + 2) (.array (data.map Network.writeIpamData)) := by
    refine fun data => .array fun v member => ?_
    obtain ⟨d, -, rfl⟩ := List.mem_map.mp member
    exact writeIpamData_plain depths d
  cases t <;>
    simp [RequestType.write, Plain.string, Plain.boolean, Plain.int64, encodeMap_plain, pools, writeNodeInfo_plain,
      serializeEndpointInterface_plain]

theorem parse_text (t : RequestType) (r : t.Decoded) :
    parse (t.text r) = .ok (.object (Object.ofMembers (t.write r) [])) :=
  parse_serialize (Object.AllPlain.ofMembers (.nil _) (write_plain 98 t r)).object

theorem encodeMap_isObject (map : UnorderedMap) : (encodeMap map).isObject = true := by
  obtain ⟨o, encoded, -⟩ := encodeMap_entries map
  rw [encoded]
  rfl

theorem decodeMap_encodeMap (map : UnorderedMap) : decodeMap .empty (encodeMap map) = .ok .empty := by
  simp only [decodeMap, encodeMap_isObject]
  rfl

namespace Network

theorem bareEntry_write (d : IpamData) :
    bareEntry (writeIpamData d) = if d.blank then none else some { d with auxAddresses := .empty } := by
  simp (disch := decide) only [writeIpamData, Object.ofMembers, List.foldl_cons, List.foldl_nil, bareEntry,
    Object.readString, Object.find?_insert_same, Object.find?_insert_other]
  rfl

theorem filterMap_bareEntry (data : List IpamData) : (data.map writeIpamData).filterMap bareEntry = arriving data := by
  induction data with
  | nil => rfl
  | cons d data ih =>
    rw [List.map_cons, List.filterMap_cons, bareEntry_write, arriving, List.filter_cons]
    cases d.blank with
    | true => simpa [arriving] using ih
    | false => simpa [arriving] using ih

theorem parseIpamData_written (data : List IpamData) :
    parseIpamData (.array (data.map writeIpamData)) = .ok (arriving data) := by
  have typed : IpamMapsAreObjects (data.map writeIpamData) := by
    intro entry member v present
    obtain ⟨d, -, entryOf⟩ := List.mem_map.mp member
    obtain rfl := Value.object.inj entryOf
    simp only [Object.ofMembers, List.foldl_cons, List.foldl_nil, Object.find?_insert_same,
      Option.some.injEq] at present
    rw [← present]
    exact encodeMap_isObject _
  rw [parseIpamData, parseIpamData_ok typed, filterMap_bareEntry]
  rfl

end Network

theorem parseEndpointInterface_serialize (ei : Network.EndpointInterface) :
    Network.parseEndpointInterface (serializeEndpointInterface ei) = ei := by
  simp (disch := decide) only [Network.parseEndpointInterface, serializeEndpointInterface, Object.readString,
    Object.find?_insert_same, Object.find?_insert_other]

theorem fromObject_write (t : RequestType) (r : t.Decoded) :
    fromObject t (Object.ofMembers (t.write r) []) = .ok (t.arriving r) := by
  cases t with
  | empty => rfl
  | networkCreateNetwork | networkAllocateNetwork =>
    simp (disch := decide) only [RequestType.write, Object.ofMembers, List.foldl_cons, List.foldl_nil, fromObject,
      Object.readString, readMap, Network.readIpamData, Object.find?_insert_same, Object.find?_insert_other,
      decodeMap_encodeMap, Network.parseIpamData_written]
    rfl
  | networkCreateEndpoint =>
    simp (disch := decide) only [RequestType.write, Object.ofMembers, List.foldl_cons, List.foldl_nil, fromObject,
      Object.readString, readMap, Network.readEndpointInterface, Object.find?_insert_same, Object.find?_insert_other,
      decodeMap_encodeMap, parseEndpointInterface_serialize]
    rfl
  | networkDiscovery =>
    simp (disch := decide) only [RequestType.write, Object.ofMembers, List.foldl_cons, List.foldl_nil, fromObject,
      Network.readDiscoveryType, Network.readNodeInfo, Network.writeNodeInfo, Object.readString, Object.readBool,
      Object.find?_insert_same, Object.find?_insert_other, Int32.toInt32_toInt64]
    rfl
  | _ =>
    simp (disch := decide) only [RequestType.write, Object.ofMembers, List.foldl_cons, List.foldl_nil, fromObject,
      Object.readString, Object.readBool, readMap, Object.find?_insert_same, Object.find?_insert_other,
      decodeMap_encodeMap]
    rfl

theorem fromJson_text (t : RequestType) (r : t.Decoded) : fromJson t (t.text r) = .ok (t.arriving r) := by
  rw [fromJson_parsed (parse_text t r), fromObject_write]

namespace Network

theorem arriving_found {data : List IpamData} {d : IpamData} (member : d ∈ arriving data) :
    d.blank = false ∧ d.auxAddresses = .empty := by
  obtain ⟨e, kept, rfl⟩ := List.mem_map.mp member
  have filled : e.blank = false := by simpa only [Bool.not_eq_true_eq_eq_false] using (List.mem_filter.mp kept).2
  exact ⟨filled, rfl⟩

theorem arriving_self {data : List IpamData} (found : ∀ d ∈ data, d.blank = false ∧ d.auxAddresses = .empty) :
    arriving data = data := by
  have all : (data.filter fun d => !d.blank) = data := List.filter_eq_self.mpr fun d member => by simp [found d member]
  rw [arriving, all]
  refine (List.map_congr_left fun d member => ?_).trans (List.map_id data)
  obtain ⟨addressSpace, pool, gateway, auxAddresses⟩ := d
  obtain rfl : auxAddresses = .empty := (found _ member).2
  rfl

end Network

namespace RequestType

theorem arriving_conveyable (t : RequestType) (r : t.Decoded) : t.Conveyable (t.arriving r) := by
  have nothing : ∀ d ∈ ([] : List Network.IpamData), d.blank = false ∧ d.auxAddresses = .empty := List.forall_mem_nil _
  cases t with
  | networkCreateNetwork | networkAllocateNetwork => exact ⟨rfl, fun d => Network.arriving_found, rfl, trivial⟩
  | networkDiscovery =>
    refine ⟨rfl, nothing, rfl, ?_⟩
    by_cases node : r.discoveryType = .node
    · exact .inl node
    · exact .inr (if_neg node)
  | _ => exact ⟨rfl, nothing, rfl, trivial⟩

theorem Conveyable.arriving_self {t : RequestType} {r : t.Decoded} (conveyable : t.Conveyable r) :
    t.arriving r = r := by
  cases t with
  | volumeCreate =>
    obtain ⟨name, options⟩ := r
    obtain rfl : options = .empty := conveyable.options
    rfl
  | networkCreateNetwork =>
    obtain ⟨networkId, options, ipv4Data, ipv6Data⟩ := r
    obtain rfl : options = .empty := conveyable.options
    obtain rfl : ipv6Data = [] := conveyable.ipv6Data
    have same : Network.arriving ipv4Data = ipv4Data := Network.arriving_self conveyable.ipv4Data
    exact congrArg (Network.CreateNetworkRequest.mk networkId .empty · []) same
  | networkAllocateNetwork =>
    obtain ⟨networkId, options, ipv4Data, ipv6Data⟩ := r
    obtain rfl : options = .empty := conveyable.options
    obtain rfl : ipv6Data = [] := conveyable.ipv6Data
    have same : Network.arriving ipv4Data = ipv4Data := Network.arriving_self conveyable.ipv4Data
    exact congrArg (Network.AllocateNetworkRequest.mk networkId .empty · []) same
  | networkCreateEndpoint =>
    obtain ⟨networkId, endpointId, interface, options⟩ := r
    obtain rfl : options = .empty := conveyable.options
    rfl
  | networkJoin =>
    obtain ⟨networkId, endpointId, sandboxKey, options⟩ := r
    obtain rfl : options = .empty := conveyable.options
    rfl
  | networkProgramExternalConnectivity | ipamRequestAddress =>
    obtain ⟨first, second, options⟩ := r
    obtain rfl : options = .empty := conveyable.options
    rfl
  | networkDiscovery =>
    obtain ⟨discoveryType, nodeInfo⟩ := r
    have same : (if discoveryType = .node then nodeInfo else {}) = nodeInfo := by
      split
      · rfl
      · next other => exact (conveyable.node.resolve_left other).symm
    exact congrArg (Network.DiscoveryNotification.mk discoveryType) same
  | ipamRequestPool =>
    obtain ⟨addressSpace, pool, subPool, options, ipv6⟩ := r
    obtain rfl : options = .empty := conveyable.options
    rfl
  | _ => rfl

end RequestType

/-- A request is always understood. It arrives as it was written exactly if its maps are empty, none of its
address data are blank or of the second family, and it tells of a node only under the type of a node. -/
theorem request_arrives (t : RequestType) (r : t.Decoded) :
    fromJson t (t.text r) = .ok (t.arriving r) ∧ (fromJson t (t.text r) = .ok r ↔ t.Conveyable r) := by
  refine ⟨fromJson_text t r, ?_⟩
  rw [fromJson_text, Except.ok.injEq]
  exact ⟨fun same => same ▸ t.arriving_conveyable r, RequestType.Conveyable.arriving_self⟩

end DockerPlugin

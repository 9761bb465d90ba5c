import DockerPlugin.CreationTimes
import DockerPlugin.ObjectLaws
import DockerPlugin.PicojsonRoundTrip
import DockerPlugin.FromJson

namespace DockerPlugin
open Octets Picojson

namespace Picojson

/-- The members of a value that is an object. -/
def Value.members : Value → Object
  | .object o => o
  | _ => []

/-- The text of a value that is a string. -/
def Value.text? : Value → Option Bytes
  | .string s => some s
  | _ => none

namespace Object

def readInt (obj : Object) (key : Bytes) : Int32 :=
  match obj.find? key with
  | some (.int64 i) => i.toInt32
  | _ => 0

def readArray (obj : Object) (key : Bytes) : List Value :=
  match obj.find? key with
  | some (.array a) => a
  | _ => []

def readMembers (obj : Object) (key : Bytes) : Object :=
  match obj.find? key with
  | some v => v.members
  | none => []

theorem find?_insert_same (key : Bytes) (val : Value) (o : Object) : (o.insert key val).find? key = some val := by
  rw [find?_insert, if_pos rfl]

theorem find?_insert_other {key other : Bytes} (apart : key ≠ other) (val : Value) (o : Object) :
    (o.insert key val).find? other = o.find? other := by
  rw [find?_insert, if_neg apart]

/-- Members in order, each of them plain. -/
structure AllPlain (depths : Nat) (o : Object) : Prop where
  sorted : o.Sorted
  members : ∀ m ∈ o, Plain depths m.2

theorem AllPlain.nil (depths : Nat) : AllPlain depths [] := ⟨List.Pairwise.nil, by simp⟩

theorem AllPlain.insert {depths : Nat} {o : Object} (plain : AllPlain depths o) {key : Bytes} {val : Value}
    (value : Plain depths val) : AllPlain depths (o.insert key val) := by
  refine ⟨insert_sorted plain.sorted key val, fun m member => ?_⟩
  rcases mem_insert member with rfl | old
  · exact value
  · exact plain.members m old

theorem AllPlain.object {depths : Nat} {o : Object} (plain : AllPlain (depths + 1) o) : Plain (depths + 1) (.object o) :=
  .object plain.sorted plain.members

end Object

end Picojson

/-- The map of the entries that an object has as strings. -/
def UnorderedMap.ofObject (o : Object) : UnorderedMap :=
  o.stringEntries.foldl (fun map e => map.emplace e.1 e.2) .empty

theorem foldl_emplace_entries {es : List (Bytes × Bytes)} {map : UnorderedMap}
    (unique : (map.entries.map Prod.fst ++ es.map Prod.fst).Nodup) :
    (es.foldl (fun map e => map.emplace e.1 e.2) map).entries = map.entries ++ es := by
  induction es generalizing map with
  | nil => simp
  | cons e rest ih =>
    have new : e.1 ∉ map.entries.map Prod.fst := fun old =>
      (List.nodup_append.mp unique).2.2 e.1 old e.1 (by simp) rfl
    have placed : (map.emplace e.1 e.2).entries = map.entries ++ [e] := by
      rw [UnorderedMap.emplace, dif_neg new]
    rw [List.foldl_cons, ih (by simpa [placed] using unique), placed, List.append_assoc, List.singleton_append]

/-- A map comes out of its object as it went in. -/
theorem ofObject_encodeMap (map : UnorderedMap) : (UnorderedMap.ofObject (encodeMap map).members).Same map := by
  obtain ⟨o, encoded, -, -, same⟩ := encodeMap_entries map
  have unique : ((Object.stringEntries o).map Prod.fst).Nodup := ((same.map Prod.fst).nodup_iff).mpr map.unique
  have read : (UnorderedMap.ofObject o).entries = Object.stringEntries o := foldl_emplace_entries unique
  rw [encoded]
  show (UnorderedMap.ofObject o).entries.Perm map.entries
  rw [read]
  exact same

theorem encodeMap_plain (depths : Nat) (map : UnorderedMap) : Plain (depths + 1) (encodeMap map) := by
  obtain ⟨o, encoded, sorted, all, -⟩ := encodeMap_entries map
  rw [encoded]
  refine .object sorted fun m member => ?_
  obtain ⟨e, -, rfl⟩ := List.mem_map.mp (all.subset member)
  exact .string _ _

namespace Volume

/-- A volume read from its object, a creation time in the nanoseconds of its second. -/
def readVolumeInfo (val : Value) : VolumeInfo where
  name := val.members.readString (bytes "Name")
  mountpoint := val.members.readString (bytes "Mountpoint")
  createdAt := 1000000000 * ((readTime (val.members.readString (bytes "CreatedAt"))).map Calendar.toSeconds).getD 0
  status := .ofObject (val.members.readMembers (bytes "Status"))

/-- The same volume, at times that are compared where they are to be compared. -/
structure VolumeInfo.Same (timed : Int → Int → Prop) (a b : VolumeInfo) : Prop where
  name : a.name = b.name
  mountpoint : a.mountpoint = b.mountpoint
  createdAt : timed a.createdAt b.createdAt → wholeSeconds a.createdAt = wholeSeconds b.createdAt
  status : a.status.Same b.status

end Volume

namespace Network

def readEndpoint (obj : Object) : EndpointInterface where
  ipv4Address := obj.readString (bytes "Address")
  ipv6Address := obj.readString (bytes "AddressIPv6")
  macAddress := obj.readString (bytes "MacAddress")

def readRoute (val : Value) : StaticRoute where
  destination := val.members.readString (bytes "Destination")
  routeType := val.members.readInt (bytes "RouteType")
  nextHop := val.members.readString (bytes "NextHop")

end Network

namespace ResponseType

/-- A response with every field read from the member named after it. -/
def readBack : (t : ResponseType) → Object → t.Encoded
  | .activate, obj =>
    ({ implements := .ofList ((obj.readArray (bytes "Implements")).filterMap Value.text?) } : ActivateResponse)
  | .error, obj => ({ error := obj.readString (bytes "Err") } : ErrorResponse)
  | .volumeMount, obj => ({ mountpoint := obj.readString (bytes "Mountpoint") } : Volume.MountResponse)
  | .volumePath, obj => ({ mountpoint := obj.readString (bytes "Mountpoint") } : Volume.PathResponse)
  | .volumeGet, obj =>
    ({ volume := Volume.readVolumeInfo (.object (obj.readMembers (bytes "Volume"))) } : Volume.GetResponse)
  | .volumeList, obj =>
    ({ volumes := .ofList ((obj.readArray (bytes "Volumes")).map Volume.readVolumeInfo) } : Volume.ListResponse)
  | .volumeCapabilities, obj =>
    ({ capabilities := { scope := (obj.readMembers (bytes "Capabilities")).readString (bytes "Scope") } } :
      Volume.CapabilitiesResponse)
  | .networkCapabilities, obj =>
    ({ scope := obj.readString (bytes "Scope"), connectivityScope := obj.readString (bytes "ConnectivityScope") } :
      Network.CapabilitiesResponse)
  | .networkAllocateNetwork, obj =>
    ({ options := .ofObject (obj.readMembers (bytes "Options")) } : Network.AllocateNetworkResponse)
  | .networkCreateEndpoint, obj =>
    ({ interface := Network.readEndpoint (obj.readMembers (bytes "Interface")) } : Network.CreateEndpointResponse)
  | .networkInfo, obj => ({ value := .ofObject (obj.readMembers (bytes "Value")) } : Network.InfoResponse)
  | .networkJoin, obj =>
    ({ interfaceName := {
          srcName := (obj.readMembers (bytes "InterfaceName")).readString (bytes "SrcName")
          dstPrefix := (obj.readMembers (bytes "InterfaceName")).readString (bytes "DstPrefix") }
       gatewayIpv4 := obj.readString (bytes "Gateway")
       gatewayIpv6 := obj.readString (bytes "GatewayIPv6")
       staticRoutes := (obj.readArray (bytes "StaticRoutes")).map Network.readRoute
       disableGatewayService := obj.readBool (bytes "DisableGatewayService") } : Network.JoinResponse)
  | .ipamCapabilities, obj =>
    ({ requiresMacAddress := obj.readBool (bytes "RequiresMACAddress") } : Ipam.CapabilitiesResponse)
  | .ipamAddressSpaces, obj =>
    ({ localDefaultAddressSpace := obj.readString (bytes "LocalDefaultAddressSpace")
       globalDefaultAddressSpace := obj.readString (bytes "GlobalDefaultAddressSpace") } : Ipam.AddressSpacesResponse)
  | .ipamRequestPool, obj =>
    ({ poolId := obj.readString (bytes "PoolID")
       pool := obj.readString (bytes "Pool")
       data := .ofObject (obj.readMembers (bytes "Data")) } : Ipam.RequestPoolResponse)
  | .ipamRequestAddress, obj =>
    ({ address := obj.readString (bytes "Address")
       data := .ofObject (obj.readMembers (bytes "Data")) } : Ipam.RequestAddressResponse)

/-- The same response: maps have the same entries, and times are compared where they are to be
compared. -/
def Same (timed : Int → Int → Prop) : (t : ResponseType) → t.Encoded → t.Encoded → Prop
  | .volumeGet, (a : Volume.GetResponse), (b : Volume.GetResponse) => a.volume.Same timed b.volume
  | .volumeList, (a : Volume.ListResponse), (b : Volume.ListResponse) =>
    List.Forall₂ (Volume.VolumeInfo.Same timed) a.volumes.entries b.volumes.entries
  | .networkAllocateNetwork, (a : Network.AllocateNetworkResponse), (b : Network.AllocateNetworkResponse) =>
    a.options.Same b.options
  | .networkInfo, (a : Network.InfoResponse), (b : Network.InfoResponse) => a.value.Same b.value
  | .ipamRequestPool, (a : Ipam.RequestPoolResponse), (b : Ipam.RequestPoolResponse) =>
    a.poolId = b.poolId ∧ a.pool = b.pool ∧ a.data.Same b.data
  | .ipamRequestAddress, (a : Ipam.RequestAddressResponse), (b : Ipam.RequestAddressResponse) =>
    a.address = b.address ∧ a.data.Same b.data
  | _, a, b => a = b

/-- The same in what a body shows. The status of an error is not part of it, and the global address
space is left open. -/
def Shown (timed : Int → Int → Prop) : (t : ResponseType) → t.Encoded → t.Encoded → Prop
  | .error, (a : ErrorResponse), (b : ErrorResponse) => a.error = b.error
  | .ipamAddressSpaces, (a : Ipam.AddressSpacesResponse), (b : Ipam.AddressSpacesResponse) =>
    a.localDefaultAddressSpace = b.localDefaultAddressSpace
  | t, a, b => t.Same timed a b

end ResponseType

theorem toJsonRaw_plain (depths : Nat) (e : Volume.VolumeInfo) : Plain (depths + 1) (toJsonRaw e) :=
  ((((Object.AllPlain.nil _).insert (.string _ _)).insert (.string _ _)).insert (.string _ _)).insert
    (encodeMap_plain depths _) |>.object

theorem serializeRoute_plain (depths : Nat) (r : Network.StaticRoute) : Plain (depths + 1) (serializeRoute r) :=
  (((Object.AllPlain.nil _).insert (.string _ _)).insert (.int64 _ _)).insert (.string _ _) |>.object

theorem serializeEndpointInterface_plain (depths : Nat) (ei : Network.EndpointInterface) :
    Plain (depths + 1) (serializeEndpointInterface ei) :=
  (((Object.AllPlain.nil _).insert (.string _ _)).insert (.string _ _)).insert (.string _ _) |>.object

/-- A response is written without doubles, its members in order, three levels deep at most. -/
theorem toObject_plain (depths : Nat) (t : ResponseType) (e : t.Encoded) :
    Object.AllPlain (depths + 2) (toObject t e) := by
  have none := Object.AllPlain.nil (depths + 2)
  cases t with
  | activate =>
    refine none.insert (.array fun v member => ?_)
    obtain ⟨s, -, rfl⟩ := List.mem_map.mp member
    exact .string _ _
  | error => exact none.insert (.string _ _)
  | volumeMount => exact none.insert (.string _ _)
  | volumePath => exact none.insert (.string _ _)
  | volumeGet => exact none.insert (toJsonRaw_plain _ _)
  | volumeList =>
    refine none.insert (.array fun v member => ?_)
    obtain ⟨e, -, rfl⟩ := List.mem_map.mp member
    exact toJsonRaw_plain depths e
  | volumeCapabilities => exact none.insert (none.insert (.string _ _)).object
  | networkCapabilities => exact (none.insert (.string _ _)).insert (.string _ _)
  | networkAllocateNetwork => exact none.insert (encodeMap_plain _ _)
  | networkCreateEndpoint =>
    simp only [toObject]
    split
    · exact none.insert (serializeEndpointInterface_plain _ _)
    · exact none
  | networkInfo => exact none.insert (encodeMap_plain _ _)
  | networkJoin =>
    refine Object.AllPlain.insert ?_ (.array fun v member => ?_)
    · refine (((none.insert ?_).insert (.string _ _)).insert (.string _ _)).insert (.boolean _ _)
      exact ((none.insert (.string _ _)).insert (.string _ _)).object
    · obtain ⟨r, -, rfl⟩ := List.mem_map.mp member
      exact serializeRoute_plain depths r
  | ipamCapabilities => exact none.insert (.boolean _ _)
  | ipamAddressSpaces => exact (none.insert (.string _ _)).insert (.string _ _)
  | ipamRequestPool => exact ((none.insert (.string _ _)).insert (.string _ _)).insert (encodeMap_plain _ _)
  | ipamRequestAddress => exact (none.insert (.string _ _)).insert (encodeMap_plain _ _)

theorem parse_toJson (t : ResponseType) (e : t.Encoded) : parse (toJson t e) = .ok (.object (toObject t e)) :=
  parse_serialize (toObject_plain 98 t e).object

theorem readVolumeInfo_toJsonRaw (e : Volume.VolumeInfo) :
    (Volume.readVolumeInfo (toJsonRaw e)).Same (fun _ tp => WrittenYear tp) e where
  name := by
    simp (disch := decide) only [Volume.readVolumeInfo, toJsonRaw, Value.members, Object.readString,
      Object.find?_insert_same, Object.find?_insert_other]
  mountpoint := by
    simp (disch := decide) only [Volume.readVolumeInfo, toJsonRaw, Value.members, Object.readString,
      Object.find?_insert_same, Object.find?_insert_other]
  createdAt written := by
    obtain ⟨time, read, same⟩ := convertTime_read written
    simp (disch := decide) only [Volume.readVolumeInfo, toJsonRaw, Value.members, Object.readString,
      Object.find?_insert_same, Object.find?_insert_other, read, Option.map_some, Option.getD_some, same]
    exact Int.mul_ediv_cancel_left _ (by decide)
  status := by
    have read := ofObject_encodeMap e.status
    simpa (disch := decide) only [Volume.readVolumeInfo, toJsonRaw, Value.members, Object.readMembers,
      Object.find?_insert_same, Object.find?_insert_other] using read

theorem readRoute_serializeRoute (r : Network.StaticRoute) : Network.readRoute (serializeRoute r) = r := by
  simp (disch := decide) only [Network.readRoute, serializeRoute, Value.members, Object.readString, Object.readInt,
    Object.find?_insert_same, Object.find?_insert_other, Int32.toInt32_toInt64]

theorem readEndpoint_serialize (ei : Network.EndpointInterface) :
    Network.readEndpoint (serializeEndpointInterface ei).members = ei := by
  simp (disch := decide) only [Network.readEndpoint, serializeEndpointInterface, Value.members, Object.readString,
    Object.find?_insert_same, Object.find?_insert_other]

theorem readEndpoint_absent {ei : Network.EndpointInterface} (empty : ei.empty = true) : Network.readEndpoint [] = ei := by
  obtain ⟨a, b, c⟩ := ei
  simp only [Network.EndpointInterface.empty, Bool.and_eq_true, List.isEmpty_iff] at empty
  obtain ⟨⟨rfl, rfl⟩, rfl⟩ := empty
  rfl

theorem ofList_texts (set : OrderedSet Bytes stringLess) :
    OrderedSet.ofList ((set.entries.map Value.string).filterMap Value.text?) = set := by
  have texts : (set.entries.map Value.string).filterMap Value.text? = set.entries := by
    rw [List.filterMap_map]
    exact List.filterMap_some
  ext1
  rw [texts, OrderedSet.ofList_entries set.sorted]

/-- The volumes of a set stay in order when they are read back. -/
theorem ofList_volumes (set : OrderedSet Volume.VolumeInfo Volume.VolumeInfo.less) :
    List.Forall₂ (Volume.VolumeInfo.Same fun _ tp => WrittenYear tp)
      (@OrderedSet.ofList _ Volume.VolumeInfo.less _ ((set.entries.map toJsonRaw).map Volume.readVolumeInfo)).entries
      set.entries := by
  have inOrder : ((set.entries.map toJsonRaw).map Volume.readVolumeInfo).Pairwise fun a b =>
      Volume.VolumeInfo.less a b = true := by
    rw [List.map_map]
    refine List.Pairwise.map _ (fun a b before => ?_) set.sorted
    have first := (readVolumeInfo_toJsonRaw a).name
    have second := (readVolumeInfo_toJsonRaw b).name
    simpa only [Volume.VolumeInfo.less, Function.comp_apply, first, second] using before
  rw [OrderedSet.ofList_entries inOrder, List.map_map, List.forall₂_map_left_iff]
  exact List.forall₂_same.mpr fun e _ => readVolumeInfo_toJsonRaw e

theorem map_readRoute (routes : List Network.StaticRoute) :
    (routes.map serializeRoute).map Network.readRoute = routes := by
  rw [List.map_map]
  exact (List.map_congr_left fun r _ => readRoute_serializeRoute r).trans (List.map_id _)

open ResponseType in
/-- An interface is written unless it is empty, and an empty one is what is read where none is
written. -/
theorem createEndpoint_readBack (v : Network.CreateEndpointResponse) :
    readBack .networkCreateEndpoint (toObject .networkCreateEndpoint v) = v := by
  obtain ⟨ei⟩ := v
  simp only [readBack, toObject]
  split
  · simp only [Object.readMembers, Object.find?_insert_same, readEndpoint_serialize]
    rfl
  · rename_i absent
    rw [Bool.not_eq_true, Bool.not_eq_false'] at absent
    exact congrArg Network.CreateEndpointResponse.mk (readEndpoint_absent absent)

open ResponseType in
theorem join_readBack (v : Network.JoinResponse) : readBack .networkJoin (toObject .networkJoin v) = v := by
  simp (disch := decide) only [readBack, toObject, Object.readMembers, Object.readString, Object.readBool,
    Object.readArray, Value.members, Object.find?_insert_same, Object.find?_insert_other, map_readRoute]
  rfl

open ResponseType in
/-- What a response shows is read back from its object. -/
theorem readBack_toObject (t : ResponseType) (v : t.Encoded) :
    t.Shown (fun _ tp => WrittenYear tp) (t.readBack (toObject t v)) v := by
  cases t with
  | activate =>
    simp only [Shown, Same, readBack, toObject, Object.readArray, Object.find?_insert_same, ofList_texts]
    rfl
  | error => simp only [Shown, readBack, toObject, Object.readString, Object.find?_insert_same]
  | volumeMount =>
    simp only [Shown, Same, readBack, toObject, Object.readString, Object.find?_insert_same]
    rfl
  | volumePath =>
    simp only [Shown, Same, readBack, toObject, Object.readString, Object.find?_insert_same]
    rfl
  | volumeGet =>
    simp only [Shown, Same, readBack, toObject, Object.readMembers, Object.find?_insert_same]
    exact readVolumeInfo_toJsonRaw v.volume
  | volumeList =>
    simp only [Shown, Same, readBack, toObject, Object.readArray, Object.find?_insert_same]
    exact ofList_volumes v.volumes
  | volumeCapabilities =>
    simp only [Shown, Same, readBack, toObject, Object.readMembers, Object.readString, Value.members,
      Object.find?_insert_same]
    rfl
  | networkCapabilities =>
    simp (disch := decide) only [Shown, Same, readBack, toObject, Object.readString, Object.find?_insert_same,
      Object.find?_insert_other]
    rfl
  | networkAllocateNetwork =>
    simp only [Shown, Same, readBack, toObject, Object.readMembers, Object.find?_insert_same]
    exact ofObject_encodeMap v.options
  | networkCreateEndpoint => exact createEndpoint_readBack v
  | networkInfo =>
    simp only [Shown, Same, readBack, toObject, Object.readMembers, Object.find?_insert_same]
    exact ofObject_encodeMap v.value
  | networkJoin => exact join_readBack v
  | ipamCapabilities =>
    simp only [Shown, Same, readBack, toObject, Object.readBool, Object.find?_insert_same]
    rfl
  | ipamAddressSpaces =>
    simp (disch := decide) only [Shown, readBack, toObject, Object.readString, Object.find?_insert_same,
      Object.find?_insert_other]
  | ipamRequestPool =>
    simp (disch := decide) only [Shown, Same, readBack, toObject, Object.readMembers, Object.readString,
      Object.find?_insert_same, Object.find?_insert_other, true_and]
    exact ofObject_encodeMap v.data
  | ipamRequestAddress =>
    simp (disch := decide) only [Shown, Same, readBack, toObject, Object.readMembers, Object.readString,
      Object.find?_insert_same, Object.find?_insert_other, true_and]
    exact ofObject_encodeMap v.data

open ResponseType in
/-- Both address spaces are written from the local one. -/
theorem addressSpaces_kept_iff (v : Ipam.AddressSpacesResponse) :
    readBack .ipamAddressSpaces (toObject .ipamAddressSpaces v) = v ↔
      v.globalDefaultAddressSpace = v.localDefaultAddressSpace := by
  have read : readBack .ipamAddressSpaces (toObject .ipamAddressSpaces v) =
      Ipam.AddressSpacesResponse.mk v.localDefaultAddressSpace v.localDefaultAddressSpace := by
    simp (disch := decide) only [readBack, toObject, Object.readString, Object.find?_insert_same,
      Object.find?_insert_other]
    rfl
  rw [read]
  constructor
  · exact fun same => (congrArg Ipam.AddressSpacesResponse.globalDefaultAddressSpace same).symm
  · exact fun same => congrArg (Ipam.AddressSpacesResponse.mk _) same.symm

section Agreement

theorem UnorderedMap.Same.both {a b c : UnorderedMap} (ab : a.Same b) (ac : a.Same c) : b.Same c := ab.symm.trans ac

/-- Volumes that one volume agrees with agree with each other, at times written for both. -/
theorem Volume.VolumeInfo.Same.both {a b c : Volume.VolumeInfo} (ab : a.Same (fun _ tp => WrittenYear tp) b)
    (ac : a.Same (fun _ tp => WrittenYear tp) c) : b.Same (fun tp tp' => WrittenYear tp ∧ WrittenYear tp') c where
  name := ab.name.symm.trans ac.name
  mountpoint := ab.mountpoint.symm.trans ac.mountpoint
  createdAt written := (ab.createdAt written.1).symm.trans (ac.createdAt written.2)
  status := ab.status.both ac.status

theorem volumes_both {as bs cs : List Volume.VolumeInfo}
    (ab : List.Forall₂ (Volume.VolumeInfo.Same fun _ tp => WrittenYear tp) as bs)
    (ac : List.Forall₂ (Volume.VolumeInfo.Same fun _ tp => WrittenYear tp) as cs) :
    List.Forall₂ (Volume.VolumeInfo.Same fun tp tp' => WrittenYear tp ∧ WrittenYear tp') bs cs := by
  induction ab generalizing cs with
  | nil =>
    cases ac
    exact .nil
  | cons first _ ih =>
    cases ac with
    | cons second later => exact .cons (first.both second) (ih later)

theorem ResponseType.Shown.both {t : ResponseType} {a b c : t.Encoded} (ab : t.Shown (fun _ tp => WrittenYear tp) a b)
    (ac : t.Shown (fun _ tp => WrittenYear tp) a c) : t.Shown (fun tp tp' => WrittenYear tp ∧ WrittenYear tp') b c := by
  cases t with
  | volumeGet => exact Volume.VolumeInfo.Same.both ab ac
  | volumeList => exact volumes_both ab ac
  | networkAllocateNetwork => exact UnorderedMap.Same.both ab ac
  | networkInfo => exact UnorderedMap.Same.both ab ac
  | ipamRequestPool => exact ⟨ab.1.symm.trans ac.1, ab.2.1.symm.trans ac.2.1, ab.2.2.both ac.2.2⟩
  | ipamRequestAddress => exact ⟨ab.1.symm.trans ac.1, ab.2.both ac.2⟩
  | _ => exact ab.symm.trans ac

end Agreement

/-- Responses are encoded without loss, but for the status of an error: every field is read back
from the member named after it, and responses of one type with the same encoding are the same. -/
theorem encodings_read_back :
    (∀ (t : ResponseType) (v : t.Encoded), ∃ o, parse (toJson t v) = .ok (.object o) ∧
      t.Shown (fun _ tp => WrittenYear tp) (t.readBack o) v) ∧
    ∀ (t : ResponseType) (v w : t.Encoded), toJson t v = toJson t w →
      t.Shown (fun tp tp' => WrittenYear tp ∧ WrittenYear tp') v w := by
  refine ⟨fun t v => ⟨_, parse_toJson t v, readBack_toObject t v⟩, fun t v w same => ?_⟩
  have parsed : toObject t v = toObject t w := by
    have twice := parse_toJson t v
    rw [same, parse_toJson t w] at twice
    injection twice with values
    injection values with objects
    exact objects.symm
  have first := readBack_toObject t v
  rw [parsed] at first
  exact first.both (readBack_toObject t w)

/-- The status of an error is not read back from its encoding, which is that of any other status. -/
theorem error_status_not_encoded :
    toJson .error ⟨404, bytes "no such volume"⟩ = toJson .error ⟨500, bytes "no such volume"⟩ ∧
    ∀ o, parse (toJson .error ⟨404, bytes "no such volume"⟩) = .ok (.object o) →
      ¬ ResponseType.error.Same (fun _ tp => WrittenYear tp) (ResponseType.error.readBack o)
        ⟨404, bytes "no such volume"⟩ := by
  refine ⟨rfl, fun o _ same => ?_⟩
  have status : (0 : Int32) = 404 := congrArg ErrorResponse.status same
  exact absurd status (by decide)

end DockerPlugin

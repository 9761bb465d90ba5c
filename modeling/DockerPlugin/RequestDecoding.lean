import DockerPlugin.RequestShapes

namespace DockerPlugin
open Octets Picojson

/-- The exception that a wrong-typed map ends in. -/
def mapMismatch : Exception := typeMismatch (bytes "object")

theorem readMap_ok {o : Object} {key : Bytes} (typed : MapIsObject o key) (map : UnorderedMap) :
    readMap o key map = .ok map := by
  unfold readMap
  cases found : o.find? key with
  | none => rfl
  | some v =>
    simp only [decodeMap, typed v found, if_true]
    rfl

theorem readMap_error {o : Object} {key : Bytes} (mistyped : ¬ MapIsObject o key) (map : UnorderedMap) :
    readMap o key map = .error mapMismatch := by
  simp only [MapIsObject, not_forall, Bool.not_eq_true] at mistyped
  obtain ⟨v, found, wrong⟩ := mistyped
  rw [readMap, found]
  cases v with
  | object entry => cases wrong
  | _ => rfl

namespace Network

/-- What is left of an entry of address data without its map. -/
def bareEntry : Value → Option IpamData
  | .object entry =>
    let data : IpamData := {
      addressSpace := Object.readString entry (bytes "AddressSpace")
      pool := Object.readString entry (bytes "Pool")
      gateway := Object.readString entry (bytes "Gateway") }
    if data.addressSpace.isEmpty && data.pool.isEmpty && data.gateway.isEmpty then none else some data
  | _ => none

theorem parseIpamEntry_ok {e : Value} (typed : ∀ entry, e = .object entry → MapIsObject entry (bytes "AuxAddresses"))
    (res : List IpamData) : parseIpamEntry res e = .ok (res ++ (bareEntry e).toList) := by
  cases e with
  | object entry =>
    simp only [parseIpamEntry, readMap_ok (typed entry rfl), bareEntry, bind, Except.bind]
    cases Object.readString entry (bytes "AddressSpace") <;> cases Object.readString entry (bytes "Pool") <;>
      cases Object.readString entry (bytes "Gateway") <;> simp [UnorderedMap.empty, pure, Except.pure]
  | _ => simp [parseIpamEntry, bareEntry, pure, Except.pure]

theorem parseIpamData_ok {arr : List Value} (typed : IpamMapsAreObjects arr) (res : List IpamData) :
    arr.foldlM parseIpamEntry res = .ok (res ++ arr.filterMap bareEntry) := by
  induction arr generalizing res with
  | nil => simp [pure, Except.pure]
  | cons e arr ih =>
    have first := parseIpamEntry_ok (e := e) (fun entry same => typed entry (by simp [same])) res
    rw [List.foldlM_cons, first]
    show arr.foldlM parseIpamEntry _ = _
    rw [ih fun entry member => typed entry (List.mem_cons_of_mem e member), List.filterMap_cons]
    cases bareEntry e <;> simp

theorem parseIpamEntry_error {entry : Object} (mistyped : ¬ MapIsObject entry (bytes "AuxAddresses")) (res : List IpamData) :
    parseIpamEntry res (.object entry) = .error mapMismatch := by
  simp only [parseIpamEntry, readMap_error mistyped, bind, Except.bind]

theorem parseIpamData_error {arr : List Value} (mistyped : ¬ IpamMapsAreObjects arr) (res : List IpamData) :
    arr.foldlM parseIpamEntry res = .error mapMismatch := by
  induction arr generalizing res with
  | nil => exact absurd (fun entry member => absurd member List.not_mem_nil) mistyped
  | cons e arr ih =>
    rw [List.foldlM_cons]
    by_cases typed : ∀ entry, e = .object entry → MapIsObject entry (bytes "AuxAddresses")
    · rw [parseIpamEntry_ok typed]
      refine ih (fun rest => mistyped ?_) _
      intro entry member
      rcases List.mem_cons.mp member with same | later
      · exact typed entry same.symm
      · exact rest entry later
    · simp only [not_forall] at typed
      obtain ⟨entry, rfl, wrong⟩ := typed
      rw [parseIpamEntry_error wrong]
      rfl

/-- The address data that a request gets where all maps are objects. -/
def bareIpamData (o : Object) (key : Bytes) : List IpamData :=
  match o.find? key with
  | some (.array arr) => arr.filterMap bareEntry
  | _ => []

theorem readIpamData_ok {o : Object} {key : Bytes}
    (typed : ∀ arr, o.find? key = some (.array arr) → IpamMapsAreObjects arr) (data : List IpamData) :
    readIpamData o key data = .ok (if o.find? key = none then data else bareIpamData o key) := by
  unfold readIpamData bareIpamData
  cases found : o.find? key with
  | none => rfl
  | some v =>
    cases v with
    | array arr =>
      simp only [parseIpamData, parseIpamData_ok (typed arr found)]
      rfl
    | _ => rfl

theorem readIpamData_error {o : Object} {key : Bytes} {arr : List Value} (found : o.find? key = some (.array arr))
    (mistyped : ¬ IpamMapsAreObjects arr) (data : List IpamData) :
    readIpamData o key data = .error mapMismatch := by
  rw [readIpamData, found]
  exact parseIpamData_error mistyped []

theorem readIpamData_once {o : Object} {key : Bytes}
    (typed : ∀ arr, o.find? key = some (.array arr) → IpamMapsAreObjects arr) :
    readIpamData o key [] = .ok (bareIpamData o key) ∧
      readIpamData o key (bareIpamData o key) = .ok (bareIpamData o key) := by
  have none_bare : o.find? key = none → bareIpamData o key = [] := by
    intro found
    rw [bareIpamData, found]
  constructor
  · rw [readIpamData_ok typed]
    split
    · rename_i found
      rw [none_bare found]
    · rfl
  · rw [readIpamData_ok typed, ite_self]

end Network

namespace RequestType

/-- The map of a request, where its type has one. -/
def options : (t : RequestType) → t.Decoded → UnorderedMap
  | volumeCreate, (r : Volume.CreateRequest) => r.options
  | networkCreateNetwork, (r : Network.CreateNetworkRequest) => r.options
  | networkAllocateNetwork, (r : Network.AllocateNetworkRequest) => r.options
  | networkCreateEndpoint, (r : Network.CreateEndpointRequest) => r.options
  | networkJoin, (r : Network.JoinRequest) => r.options
  | networkProgramExternalConnectivity, (r : Network.ProgramExternalConnectivityRequest) => r.options
  | ipamRequestPool, (r : Ipam.RequestPoolRequest) => r.options
  | ipamRequestAddress, (r : Ipam.RequestAddressRequest) => r.options
  | _, _ => .empty

/-- The address data of a request, where its type has some. -/
def ipv4Data : (t : RequestType) → t.Decoded → List Network.IpamData
  | networkCreateNetwork, (r : Network.CreateNetworkRequest) => r.ipv4Data
  | networkAllocateNetwork, (r : Network.AllocateNetworkRequest) => r.ipv4Data
  | _, _ => []

end RequestType

/-- Two ways in which maps can have a wrong type: the map of the request itself, or else one in
the address data. -/
theorem RequestType.mistyped_cases {t : RequestType} {o : Object} (mistyped : ¬ t.MapsAreObjects o) :
    (∃ key, t.schema.lookup key = some .stringMap ∧ ¬ MapIsObject o key) ∨
      (∀ key, t.schema.lookup key = some .stringMap → MapIsObject o key) ∧
        ∃ key arr, t.schema.lookup key = some .ipamData ∧ o.find? key = some (.array arr) ∧ ¬ IpamMapsAreObjects arr := by
  by_cases direct : ∀ key, t.schema.lookup key = some .stringMap → MapIsObject o key
  · refine Or.inr ⟨direct, ?_⟩
    by_contra none
    refine mistyped ⟨direct, fun key arr known found => ?_⟩
    by_contra wrong
    exact none ⟨key, arr, known, found, wrong⟩
  · simp only [not_forall] at direct
    obtain ⟨key, known, wrong⟩ := direct
    exact Or.inl ⟨key, known, wrong⟩

/-- Where every map is an object, decoding succeeds, with empty maps. -/
theorem fromObject_ok {t : RequestType} {o : Object} (maps : t.MapsAreObjects o) :
    ∃ r, fromObject t o = .ok r ∧ t.options r = .empty ∧
      (t.schema.lookup (bytes "IPv4Data") = some .ipamData → t.ipv4Data r = Network.bareIpamData o (bytes "IPv4Data")) := by
  cases t with
  | volumeCreate =>
    simp only [fromObject, readMap_ok (maps.direct (bytes "Opts") (by decide))]
    exact ⟨_, rfl, rfl, fun known => absurd known (by decide)⟩
  | networkCreateNetwork | networkAllocateNetwork =>
    have data := Network.readIpamData_once (maps.nested (bytes "IPv4Data") · (by decide))
    simp only [fromObject, readMap_ok (maps.direct (bytes "Options") (by decide)), data.1, data.2, bind, Except.bind]
    exact ⟨_, rfl, rfl, fun _ => rfl⟩
  | networkCreateEndpoint | networkJoin | networkProgramExternalConnectivity | ipamRequestPool | ipamRequestAddress =>
    simp only [fromObject, readMap_ok (maps.direct (bytes "Options") (by decide))]
    exact ⟨_, rfl, rfl, fun known => absurd known (by decide)⟩
  | _ => exact ⟨_, rfl, rfl, fun known => absurd known (by decide)⟩

namespace RequestType

/-- The name of the member that is a map, in the types that have one. -/
def mapKey (t : RequestType) : Bytes := if t = volumeCreate then bytes "Opts" else bytes "Options"

theorem mem_schema {t : RequestType} {key : Bytes} {shape : Shape} (known : t.schema.lookup key = some shape) :
    (key, shape) ∈ t.schema := by
  obtain ⟨front, back, listed, -⟩ := List.lookup_eq_some_iff.mp known
  simp [listed]

theorem eq_mapKey {t : RequestType} {key : Bytes} (known : t.schema.lookup key = some .stringMap) : key = t.mapKey := by
  have member := mem_schema known
  cases t <;> simp [schema] at member <;> exact member

theorem eq_ipv4Data {t : RequestType} {key : Bytes} (known : t.schema.lookup key = some .ipamData) :
    (t = networkCreateNetwork ∨ t = networkAllocateNetwork) ∧ key = bytes "IPv4Data" := by
  have member := mem_schema known
  cases t <;> simp [schema] at member <;> simp [member]

end RequestType

/-- A map that is something else than an object makes decoding throw. -/
theorem fromObject_error {t : RequestType} {o : Object} (mistyped : ¬ t.MapsAreObjects o) :
    fromObject t o = .error mapMismatch := by
  obtain ⟨key, known, wrong⟩ | ⟨direct, key, arr, known, found, wrong⟩ := t.mistyped_cases mistyped
  · obtain rfl := RequestType.eq_mapKey known
    cases t with
    | volumeCreate =>
      have wrong : ¬ MapIsObject o (bytes "Opts") := wrong
      simp only [fromObject, readMap_error wrong]
      rfl
    | networkCreateNetwork | networkAllocateNetwork | networkCreateEndpoint | networkJoin
    | networkProgramExternalConnectivity | ipamRequestPool | ipamRequestAddress =>
      have wrong : ¬ MapIsObject o (bytes "Options") := wrong
      simp only [fromObject, readMap_error wrong]
      rfl
    | _ => exact absurd known (by decide)
  · obtain ⟨rfl | rfl, rfl⟩ := RequestType.eq_ipv4Data known <;>
      simp only [fromObject, readMap_ok (direct (bytes "Options") (by decide)),
        Network.readIpamData_error found wrong] <;> rfl

theorem fromObject_ok_iff {t : RequestType} {o : Object} : (∃ r, fromObject t o = .ok r) ↔ t.MapsAreObjects o := by
  constructor
  · rintro ⟨r, decoded⟩
    by_contra mistyped
    rw [fromObject_error mistyped] at decoded
    cases decoded
  · intro maps
    obtain ⟨r, decoded, -⟩ := fromObject_ok maps
    exact ⟨r, decoded⟩

section Prune
variable {t : RequestType} {o : Object} {key : Bytes}

theorem readString_prune (known : t.schema.lookup key = some .string) :
    Object.readString (t.schema.prune o) key = o.readString key :=
  Object.readString_filter (Schema.find?_prune_leaf known (fun _ => rfl) o)

theorem readBool_prune (known : t.schema.lookup key = some .boolean) :
    Object.readBool (t.schema.prune o) key = o.readBool key :=
  Object.readBool_filter (Schema.find?_prune_leaf known (fun _ => rfl) o)

theorem readDiscoveryType_prune (known : t.schema.lookup key = some .integer) :
    Network.readDiscoveryType (t.schema.prune o) key = Network.readDiscoveryType o key := by
  simp only [Network.readDiscoveryType, Schema.find?_prune_leaf known (fun _ => rfl) o]
  cases o.find? key with
  | none => rfl
  | some v => cases v <;> rfl

theorem readMap_prune (maps : t.MapsAreObjects o) (known : t.schema.lookup key = some .stringMap) (map : UnorderedMap) :
    readMap (t.schema.prune o) key map = readMap o key map := by
  rw [readMap_ok (mapIsObject_filter (Schema.find?_prune_leaf known (fun _ => rfl) o)),
    readMap_ok (maps.direct key known)]

theorem bareEntry_prune (entry : Object) :
    Network.bareEntry (.object (Schema.ipamEntry.dropMistyped entry)) = Network.bareEntry (.object entry) := by
  have kept : ∀ name, Schema.ipamEntry.lookup name = some .string →
      Object.readString (Schema.ipamEntry.dropMistyped entry) name = Object.readString entry name :=
    fun name known => Object.readString_filter (Schema.find?_dropMistyped known entry)
  simp only [Network.bareEntry, kept (bytes "AddressSpace") (by decide), kept (bytes "Pool") (by decide),
    kept (bytes "Gateway") (by decide)]

/-- Entries without their members of wrong types come to the same address data. -/
theorem bareIpamData_prune (known : t.schema.lookup key = some .ipamData) :
    Network.bareIpamData (t.schema.prune o) key = Network.bareIpamData o key := by
  rw [Network.bareIpamData, Schema.find?_prune known, Network.bareIpamData]
  cases o.find? key with
  | none => rfl
  | some v =>
    cases v with
    | array arr =>
      simp only [Option.filter, Shape.fits, if_true, Option.map_some, Shape.prune, List.filterMap_map]
      congr 1
      funext e
      cases e with
      | object entry => exact bareEntry_prune entry
      | _ => rfl
    | _ => rfl

/-- What is left once the members of wrong types are gone has no map of a wrong type. -/
theorem prune_mapsAreObjects (t : RequestType) (o : Object) : t.MapsAreObjects (t.schema.prune o) where
  direct key known := mapIsObject_filter (Schema.find?_prune_leaf known (fun _ => rfl) o)
  nested key arr known found := by
    rw [Schema.find?_prune known] at found
    obtain ⟨w, member, pruned⟩ := Option.map_eq_some_iff.mp found
    obtain ⟨-, fit⟩ := Option.filter_eq_some_iff.mp member
    cases w with
    | array entries =>
      obtain rfl : _ = arr := Value.array.inj pruned
      intro entry inside
      obtain ⟨e, -, same⟩ := List.mem_map.mp inside
      cases e with
      | object inner =>
        obtain rfl : Schema.ipamEntry.dropMistyped inner = entry := Value.object.inj same
        exact mapIsObject_filter (Schema.find?_dropMistyped (by decide) inner)
      | _ => cases same
    | _ => cases fit

theorem readEndpointInterface_prune (known : t.schema.lookup key = some .interface) :
    Network.readEndpointInterface (t.schema.prune o) key = Network.readEndpointInterface o key := by
  have kept : ∀ data name, Schema.interface.lookup name = some .string →
      Object.readString (Schema.interface.dropMistyped data) name = Object.readString data name :=
    fun data name inner => Object.readString_filter (Schema.find?_dropMistyped inner data)
  rw [Network.readEndpointInterface, Schema.find?_prune known, Network.readEndpointInterface]
  cases o.find? key with
  | none => rfl
  | some v =>
    cases v with
    | object data =>
      simp (disch := decide) only [Option.filter, Shape.fits, if_true, Option.map_some, Shape.prune,
        Network.parseEndpointInterface, kept]
    | _ => rfl

theorem readNodeInfo_prune (known : t.schema.lookup key = some .discoveryData) (discoveryType : Network.DiscoveryType) :
    Network.readNodeInfo (t.schema.prune o) key discoveryType = Network.readNodeInfo o key discoveryType := by
  have address : ∀ data, Object.readString (Schema.discoveryData.dropMistyped data) (bytes "Address") =
      Object.readString data (bytes "Address") :=
    fun data => Object.readString_filter (Schema.find?_dropMistyped (by decide) data)
  have self : ∀ data, Object.readBool (Schema.discoveryData.dropMistyped data) (bytes "self") =
      Object.readBool data (bytes "self") :=
    fun data => Object.readBool_filter (Schema.find?_dropMistyped (by decide) data)
  rw [Network.readNodeInfo, Schema.find?_prune known, Network.readNodeInfo]
  cases o.find? key with
  | none => rfl
  | some v =>
    cases v with
    | object data =>
      simp only [Option.filter, Shape.fits, if_true, Option.map_some, Shape.prune, address, self]
    | _ => rfl

end Prune

/-- Decoding without the members of wrong types gives the same request. -/
theorem fromObject_prune {t : RequestType} {o : Object} (maps : t.MapsAreObjects o) :
    fromObject t (t.schema.prune o) = fromObject t o := by
  have left := prune_mapsAreObjects t o
  cases t with
  | networkCreateNetwork | networkAllocateNetwork =>
    have data := Network.readIpamData_once (maps.nested (bytes "IPv4Data") · (by decide))
    have kept := Network.readIpamData_once (left.nested (bytes "IPv4Data") · (by decide))
    rw [bareIpamData_prune (by decide)] at kept
    simp (disch := decide) only [fromObject, readString_prune, readMap_prune maps, kept.1, kept.2, data.1, data.2, bind,
      Except.bind]
    rfl
  | networkCreateEndpoint =>
    simp (disch := decide) only [fromObject, readString_prune, readMap_prune maps, readEndpointInterface_prune]
    rfl
  | networkDiscovery =>
    simp (disch := decide) only [fromObject, readDiscoveryType_prune, readNodeInfo_prune]
    rfl
  | _ =>
    simp (disch := decide) only [fromObject, readString_prune, readBool_prune, readMap_prune maps]
    rfl

theorem fromJson_object {t : RequestType} (reads : t ≠ .empty) {text : Bytes} {o : Object}
    (parsed : parse text = .ok (.object o)) : fromJson t text = fromObject t o := by
  rw [fromJson, if_neg reads, parseObject, parsed]
  rfl

/-- A text that is no JSON object, because it does not parse or is something else. -/
def NoObject (text : Bytes) : Prop :=
  (∃ err, parse text = .error err) ∨ ∃ v, parse text = .ok v ∧ v.isObject = false

theorem fromJson_noObject {t : RequestType} (reads : t ≠ .empty) {text : Bytes} (refused : NoObject text) :
    ∃ what, fromJson t text = .error (.invalidArgument what) := by
  rw [fromJson, if_neg reads, parseObject]
  obtain ⟨err, failed⟩ | ⟨v, parsed, other⟩ := refused
  · rw [failed]
    exact ⟨err, rfl⟩
  · rw [parsed]
    cases v with
    | object o => cases other
    | _ => exact ⟨_, rfl⟩

theorem fromJson_parsed {t : RequestType} {text : Bytes} {o : Object} (parsed : parse text = .ok (.object o)) :
    fromJson t text = fromObject t o := by
  by_cases reads : t = .empty
  · subst reads
    rfl
  · exact fromJson_object reads parsed

/-- Decoding throws one of two kinds of exceptions. -/
theorem fromJson_error_cases {t : RequestType} {body : Bytes} {e : Exception} (refused : fromJson t body = .error e) :
    (∃ what, e = .invalidArgument what) ∨ ∃ what, e = .stdException what := by
  by_cases reads : t = .empty
  · subst reads
    cases refused
  cases parsed : parse body with
  | overflow =>
    have failed : fromJson t body = .error (.stdException []) := by
      rw [fromJson, if_neg reads, parseObject, parsed]
      rfl
    exact Or.inr ⟨[], Except.error.inj (refused.symm.trans failed)⟩
  | error err =>
    obtain ⟨what, failed⟩ := fromJson_noObject reads (Or.inl ⟨err, parsed⟩)
    exact Or.inl ⟨what, Except.error.inj (refused.symm.trans failed)⟩
  | ok v =>
    by_cases object : v.isObject = true
    · obtain ⟨o, rfl⟩ : ∃ o, v = .object o := by
        cases v <;> first | exact ⟨_, rfl⟩ | cases object
      rw [fromJson_parsed parsed] at refused
      by_cases maps : t.MapsAreObjects o
      · obtain ⟨req, decoded⟩ := fromObject_ok_iff.mpr maps
        cases refused.symm.trans decoded
      · exact Or.inr ⟨_, Except.error.inj (refused.symm.trans (fromObject_error maps))⟩
    · obtain ⟨what, failed⟩ := fromJson_noObject reads (Or.inr ⟨v, parsed, by simpa using object⟩)
      exact Or.inl ⟨what, Except.error.inj (refused.symm.trans failed)⟩

theorem fromJson_unread {t : RequestType} (unread : t = .empty) (text other : Bytes) :
    fromJson t text = fromJson t other := by
  rw [fromJson, fromJson, if_pos unread, if_pos unread]

/-- Nothing that reads its body comes out of an empty one. -/
theorem fromJson_nil {t : RequestType} (reads : t ≠ .empty) (req : t.Decoded) : fromJson t [] ≠ .ok req := by
  intro decoded
  obtain ⟨what, failed⟩ := @fromJson_noObject _ reads [] (Or.inl ⟨_, rfl⟩)
  cases failed.symm.trans decoded

end DockerPlugin

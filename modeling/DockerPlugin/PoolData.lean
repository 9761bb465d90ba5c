import DockerPlugin.DriverRequests

namespace DockerPlugin
open Octets Picojson

namespace Network

/-- The fields of the two requests that carry address data. -/
@[ext]
structure PoolFields where
  networkId : Bytes := []
  options : UnorderedMap := .empty
  ipv4Data : List IpamData := []
  ipv6Data : List IpamData := []

/-- A value in which there is no address data to find: it is no array, or the objects in it have only
empty texts, and maps that are maps. -/
def Blank (v : Value) : Prop :=
  ∀ arr, v = .array arr → ∀ entry, .object entry ∈ arr →
    MapIsObject entry (bytes "AuxAddresses") ∧ Object.readString entry (bytes "AddressSpace") = [] ∧
      Object.readString entry (bytes "Pool") = [] ∧ Object.readString entry (bytes "Gateway") = []

theorem bareEntry_eq_none_iff (e : Value) :
    bareEntry e = none ↔ ∀ entry, e = .object entry → Object.readString entry (bytes "AddressSpace") = [] ∧
      Object.readString entry (bytes "Pool") = [] ∧ Object.readString entry (bytes "Gateway") = [] := by
  cases e with
  | object entry => simp [bareEntry, and_assoc]
  | _ => simp [bareEntry]

/-- Exactly such a value is decoded as no data at all. -/
theorem parseIpamData_nil_iff (v : Value) : parseIpamData v = .ok [] ↔ Blank v := by
  cases v with
  | array arr =>
    have blank : Blank (.array arr) ↔ IpamMapsAreObjects arr ∧ arr.filterMap bareEntry = [] := by
      simp only [Blank, Value.array.injEq, forall_eq', IpamMapsAreObjects, List.filterMap_eq_nil_iff,
        bareEntry_eq_none_iff]
      constructor
      · intro all
        refine ⟨fun entry member => (all entry member).1, ?_⟩
        rintro e member entry rfl
        exact (all entry member).2
      · rintro ⟨maps, empty⟩ entry member
        exact ⟨maps entry member, empty _ member entry rfl⟩
    rw [blank, parseIpamData]
    by_cases typed : IpamMapsAreObjects arr
    · rw [parseIpamData_ok typed, List.nil_append, Except.ok.injEq]
      exact (and_iff_right typed).symm
    · rw [parseIpamData_error typed]
      refine iff_of_false (fun same => ?_) fun both => typed both.1
      cases same
  | _ =>
    refine iff_of_true rfl fun arr same => ?_
    cases same

end Network

namespace RequestType

def poolFields : (t : RequestType) → t.Decoded → Network.PoolFields
  | networkCreateNetwork, (r : Network.CreateNetworkRequest) => ⟨r.networkId, r.options, r.ipv4Data, r.ipv6Data⟩
  | networkAllocateNetwork, (r : Network.AllocateNetworkRequest) => ⟨r.networkId, r.options, r.ipv4Data, r.ipv6Data⟩
  | _, _ => {}

/-- The types of the two requests. -/
def CarriesPools (t : RequestType) : Prop := t = networkCreateNetwork ∨ t = networkAllocateNetwork

end RequestType

/-- Decoding of an object that has a member `IPv4Data`: the member is decoded twice, and nothing else
is. -/
theorem fromObject_pools {t : RequestType} (carries : t.CarriesPools) {o : Object} {a : Value}
    (found : o.find? (bytes "IPv4Data") = some a) (fields : Network.PoolFields) :
    (∃ req, fromObject t o = .ok req ∧ t.poolFields req = fields) ↔
      MapIsObject o (bytes "Options") ∧ fields.networkId = o.readString (bytes "NetworkID") ∧
        fields.options = .empty ∧ Network.parseIpamData a = .ok fields.ipv4Data ∧ fields.ipv6Data = [] := by
  have twice : ∀ data, Network.readIpamData o (bytes "IPv4Data") data = Network.parseIpamData a := by
    intro data
    rw [Network.readIpamData, found]
  by_cases typed : MapIsObject o (bytes "Options")
  · obtain ⟨networkId, options, ipv4Data, ipv6Data⟩ := fields
    rcases carries with rfl | rfl <;>
      simp only [fromObject, readMap_ok typed, twice, typed, true_and, bind, Except.bind] <;>
      cases Network.parseIpamData a with
      | error e => simp
      | ok data =>
        constructor
        · rintro ⟨req, decoded, same⟩
          obtain rfl := Except.ok.inj decoded
          cases same
          exact ⟨rfl, rfl, rfl, rfl⟩
        · rintro ⟨rfl, rfl, decoded, rfl⟩
          obtain rfl := Except.ok.inj decoded
          exact ⟨_, rfl, rfl⟩
  · rcases carries with rfl | rfl <;>
      simp only [fromObject, readMap_error typed, typed, false_and, iff_false] <;>
      rintro ⟨_, failed, _⟩ <;> cases failed

/-- The same body with its two members of address data exchanged. -/
structure Exchanged (o o' : Object) : Prop where
  first : o'.find? (bytes "IPv4Data") = o.find? (bytes "IPv6Data")
  second : o'.find? (bytes "IPv6Data") = o.find? (bytes "IPv4Data")
  others : ∀ key, key ≠ bytes "IPv4Data" → key ≠ bytes "IPv6Data" → o'.find? key = o.find? key

theorem Exchanged.readString {o o' : Object} (exchanged : Exchanged o o') {key : Bytes} (first : key ≠ bytes "IPv4Data")
    (second : key ≠ bytes "IPv6Data") : o'.readString key = o.readString key := by
  rw [Object.readString, exchanged.others key first second, Object.readString]

theorem Exchanged.mapIsObject {o o' : Object} (exchanged : Exchanged o o') {key : Bytes} (first : key ≠ bytes "IPv4Data")
    (second : key ≠ bytes "IPv6Data") : MapIsObject o' key ↔ MapIsObject o key := by
  rw [MapIsObject, exchanged.others key first second, MapIsObject]

/-- The two families of addresses are decoded independently of each other, each from its member, exactly
if the member `IPv6Data` holds no data: `IPv4Data` is read in its place. The exchange of the members
exchanges the fields exactly if neither member holds any. -/
theorem pool_data_iff {t : RequestType} (carries : t.CarriesPools) {text text' : Bytes} {o o' : Object}
    (parsed : parse text = .ok (.object o)) (parsed' : parse text' = .ok (.object o')) {a b : Value}
    (first : o.find? (bytes "IPv4Data") = some a) (second : o.find? (bytes "IPv6Data") = some b)
    (exchanged : Exchanged o o') {req : t.Decoded} (decoded : fromJson t text = .ok req) :
    (Network.parseIpamData a = .ok (t.poolFields req).ipv4Data ∧
        Network.parseIpamData b = .ok (t.poolFields req).ipv6Data ↔ Network.Blank b) ∧
      ((∃ req', fromJson t text' = .ok req' ∧ t.poolFields req' =
          { t.poolFields req with ipv4Data := (t.poolFields req).ipv6Data, ipv6Data := (t.poolFields req).ipv4Data }) ↔
        Network.Blank a ∧ Network.Blank b) := by
  rw [fromJson_parsed parsed] at decoded
  obtain ⟨typed, networkId, options, ipv4, ipv6⟩ := (fromObject_pools carries first _).mp ⟨req, decoded, rfl⟩
  constructor
  · rw [ipv6, Network.parseIpamData_nil_iff]
    exact and_iff_right ipv4
  · have name : o'.readString (bytes "NetworkID") = o.readString (bytes "NetworkID") :=
      exchanged.readString (by decide) (by decide)
    have map := exchanged.mapIsObject (show bytes "Options" ≠ bytes "IPv4Data" by decide) (by decide)
    rw [fromJson_parsed parsed', fromObject_pools carries (exchanged.first.trans second), map, name, ipv6,
      Network.parseIpamData_nil_iff]
    constructor
    · rintro ⟨-, -, -, blank, same⟩
      refine ⟨?_, blank⟩
      rw [← Network.parseIpamData_nil_iff, ipv4]
      exact congrArg Except.ok same
    · rintro ⟨empty, blank⟩
      refine ⟨typed, networkId, options, blank, ?_⟩
      rw [(Network.parseIpamData_nil_iff a).mpr empty] at ipv4
      exact (Except.ok.inj ipv4).symm

/-- A network with one range of addresses of a family. -/
def onePool (range : String) : Value := .array [.object [(bytes "Pool", .string (bytes range))]]

/-- The body of a request with address data only. -/
def dualStack (ipv4 ipv6 : Value) : Object := [(bytes "IPv4Data", ipv4), (bytes "IPv6Data", ipv6)]

example : serialize (.object (dualStack (onePool "10.0.0.0/8") (.array []))) =
    bytes "\x7b\"IPv4Data\":[\x7b\"Pool\":\"10.0.0.0\\/8\"\x7d],\"IPv6Data\":[]\x7d" := by decide

theorem onePool_plain (depths : Nat) (range : String) : Plain (depths + 2) (onePool range) := by
  refine .array fun v member => ?_
  obtain rfl := List.mem_singleton.mp member
  exact .single _ (.string _ _)

theorem dualStack_parse {ipv4 ipv6 : Value} (first : Plain defaultMaxDepths ipv4)
    (second : Plain defaultMaxDepths ipv6) :
    parse (serialize (.object (dualStack ipv4 ipv6))) = .ok (.object (dualStack ipv4 ipv6)) :=
  parse_serialize (.pair (by decide) first second)

theorem dualStack_exchanged (ipv4 ipv6 : Value) : Exchanged (dualStack ipv4 ipv6) (dualStack ipv6 ipv4) where
  first := rfl
  second := rfl
  others key first second := by simp [dualStack, Object.find?, Ne.symm first, Ne.symm second]

/-- Without a range of IPv6 addresses both fields are what was sent. -/
theorem pool_data_ipv4_only : ∃ req : Network.CreateNetworkRequest,
    fromJson .networkCreateNetwork (serialize (.object (dualStack (onePool "10.0.0.0/8") (.array [])))) = .ok req ∧
      Network.parseIpamData (onePool "10.0.0.0/8") = .ok req.ipv4Data ∧
      Network.parseIpamData (.array []) = .ok req.ipv6Data := by
  have empty : Plain defaultMaxDepths (.array []) := .array (by simp)
  have parsed := dualStack_parse (onePool_plain 98 "10.0.0.0/8") empty
  have parsed' := dualStack_parse empty (onePool_plain 98 "10.0.0.0/8")
  have decoded : fromJson .networkCreateNetwork (serialize (.object (dualStack (onePool "10.0.0.0/8") (.array [])))) =
      .ok { ipv4Data := [{ pool := bytes "10.0.0.0/8" }] } := fromJson_parsed parsed
  have blank : Network.Blank (.array []) := by
    rintro _ ⟨⟩ _ ⟨⟩
  exact ⟨_, decoded,
    (pool_data_iff (.inl rfl) parsed parsed' rfl rfl (dualStack_exchanged _ _) decoded).1.mpr blank⟩

/-- The range of IPv6 addresses of a network is lost, and takes the place of the other in the body in which
they are exchanged. -/
theorem ipv6_data_lost : ∃ req req' : Network.CreateNetworkRequest,
    fromJson .networkCreateNetwork (serialize (.object (dualStack (onePool "10.0.0.0/8") (onePool "fd00::/8")))) = .ok req ∧
      Network.parseIpamData (onePool "fd00::/8") = .ok [{ pool := bytes "fd00::/8" }] ∧ req.ipv6Data = [] ∧
      fromJson .networkCreateNetwork (serialize (.object (dualStack (onePool "fd00::/8") (onePool "10.0.0.0/8")))) = .ok req' ∧
      req'.ipv4Data ≠ req.ipv6Data ∧ req'.ipv6Data ≠ req.ipv4Data := by
  refine ⟨_, _, fromJson_parsed (dualStack_parse (onePool_plain 98 _) (onePool_plain 98 _)), rfl, rfl,
    fromJson_parsed (dualStack_parse (onePool_plain 98 _) (onePool_plain 98 _)), ?_, ?_⟩ <;> decide

end DockerPlugin

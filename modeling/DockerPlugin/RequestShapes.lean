import DockerPlugin.FromJson

namespace DockerPlugin
open Octets Picojson

/-- The types of the members that requests have. Three of them have members of their own. -/
inductive Shape
  | string
  | boolean
  | integer
  | stringMap
  | interface
  | ipamData
  | discoveryData
  deriving DecidableEq

namespace Shape

/-- The JSON type that a member of the shape is meant to have. -/
def fits : Shape → Value → Bool
  | string, .string _ => true
  | boolean, .boolean _ => true
  | integer, .int64 _ => true
  | stringMap, .object _ => true
  | interface, .object _ => true
  | ipamData, .array _ => true
  | discoveryData, .object _ => true
  | _, _ => false

end Shape

/-- The members that are recognised in an object. -/
abbrev Schema := List (Bytes × Shape)

namespace Schema

def interface : Schema := [(bytes "Address", .string), (bytes "AddressIPv6", .string), (bytes "MacAddress", .string)]

def ipamEntry : Schema := [
  (bytes "AddressSpace", .string), (bytes "Pool", .string), (bytes "Gateway", .string),
  (bytes "AuxAddresses", .stringMap)]

def discoveryData : Schema := [(bytes "Address", .string), (bytes "self", .boolean)]

/-- The object without the recognised members whose type is wrong. -/
def dropMistyped (schema : Schema) (o : Object) : Object :=
  o.filter fun m =>
    match schema.lookup m.1, o.find? m.1 with
    | some shape, some v => shape.fits v
    | _, _ => true

end Schema

namespace Shape

/-- A member without the recognised members of wrong types inside it. -/
def prune : Shape → Value → Value
  | interface, .object o => .object (Schema.interface.dropMistyped o)
  | discoveryData, .object o => .object (Schema.discoveryData.dropMistyped o)
  | ipamData, .array a => .array (a.map fun e =>
    match e with
    | .object o => .object (Schema.ipamEntry.dropMistyped o)
    | e => e)
  | _, v => v

end Shape

namespace Schema

/-- An object as it would be without its recognised members of wrong types, inside its members
too. -/
def prune (schema : Schema) (o : Object) : Object :=
  (schema.dropMistyped o).map fun m =>
    match schema.lookup m.1 with
    | some shape => (m.1, shape.prune m.2)
    | none => m

end Schema

namespace RequestType

/-- The members that `from_json` reads. -/
def schema : RequestType → Schema
  | empty => []
  | volumeCreate => [(bytes "Name", .string), (bytes "Opts", .stringMap)]
  | volumeRemove | volumePath | volumeGet => [(bytes "Name", .string)]
  | volumeMount | volumeUnmount => [(bytes "Name", .string), (bytes "ID", .string)]
  | networkCreateNetwork | networkAllocateNetwork =>
    [(bytes "NetworkID", .string), (bytes "Options", .stringMap), (bytes "IPv4Data", .ipamData)]
  | networkDeleteNetwork | networkFreeNetwork => [(bytes "NetworkID", .string)]
  | networkCreateEndpoint => [
    (bytes "NetworkID", .string), (bytes "EndpointID", .string), (bytes "Interface", .interface),
    (bytes "Options", .stringMap)]
  | networkDeleteEndpoint | networkInfo | networkLeave | networkRevokeExternalConnectivity =>
    [(bytes "NetworkID", .string), (bytes "EndpointID", .string)]
  | networkJoin => [
    (bytes "NetworkID", .string), (bytes "EndpointID", .string), (bytes "SandboxKey", .string),
    (bytes "Options", .stringMap)]
  | networkDiscovery => [(bytes "DiscoveryType", .integer), (bytes "DiscoveryData", .discoveryData)]
  | networkProgramExternalConnectivity =>
    [(bytes "NetworkID", .string), (bytes "EndpointID", .string), (bytes "Options", .stringMap)]
  | ipamRequestPool => [
    (bytes "AddressSpace", .string), (bytes "Pool", .string), (bytes "SubPool", .string),
    (bytes "Options", .stringMap), (bytes "V6", .boolean)]
  | ipamReleasePool => [(bytes "PoolID", .string)]
  | ipamRequestAddress => [(bytes "PoolID", .string), (bytes "Address", .string), (bytes "Options", .stringMap)]
  | ipamReleaseAddress => [(bytes "PoolID", .string), (bytes "Address", .string)]

end RequestType

/-- A member that is a map is an object wherever it is present. -/
def MapIsObject (o : Object) (key : Bytes) : Prop := ∀ v, o.find? key = some v → v.isObject = true

/-- The entries of address data whose maps are all objects. -/
def IpamMapsAreObjects (arr : List Value) : Prop :=
  ∀ entry, Value.object entry ∈ arr → MapIsObject entry (bytes "AuxAddresses")

/-- Every map that `from_json` reads is an object wherever it is present. -/
structure RequestType.MapsAreObjects (t : RequestType) (o : Object) : Prop where
  direct : ∀ key, t.schema.lookup key = some .stringMap → MapIsObject o key
  nested : ∀ key arr, t.schema.lookup key = some .ipamData → o.find? key = some (.array arr) → IpamMapsAreObjects arr

theorem find?_filter_key (keep : Bytes → Bool) (o : Object) (key : Bytes) :
    Object.find? (o.filter fun m => keep m.1) key = if keep key then o.find? key else none := by
  induction o with
  | nil => simp [Object.find?]
  | cons m o ih =>
    obtain ⟨k, v⟩ := m
    simp only [Object.find?] at ih ⊢
    by_cases same : k = key
    · subst same
      by_cases kept : keep k = true
      · simp [kept]
      · simp only [Bool.not_eq_true] at kept
        simpa [kept] using ih
    · by_cases kept : keep k = true
      · simpa [kept, same] using ih
      · simpa [kept, same] using ih

namespace Schema

theorem find?_dropMistyped {schema : Schema} {key : Bytes} {shape : Shape} (known : schema.lookup key = some shape)
    (o : Object) : (schema.dropMistyped o).find? key = (o.find? key).filter shape.fits := by
  have filtered := find?_filter_key (fun k =>
    match schema.lookup k, o.find? k with
    | some shape, some v => shape.fits v
    | _, _ => true) o key
  rw [dropMistyped, filtered, known]
  cases found : o.find? key with
  | none => rfl
  | some v => cases fit : shape.fits v <;> simp [Option.filter, fit]

theorem find?_prune {schema : Schema} {key : Bytes} {shape : Shape} (known : schema.lookup key = some shape) (o : Object) :
    (schema.prune o).find? key = ((o.find? key).filter shape.fits).map shape.prune := by
  rw [← find?_dropMistyped known, prune]
  generalize schema.dropMistyped o = kept
  induction kept with
  | nil => rfl
  | cons m kept ih =>
    obtain ⟨k, v⟩ := m
    simp only [Object.find?] at ih ⊢
    by_cases same : k = key
    · subst same
      simp [known]
    · cases found : schema.lookup k <;> simpa [same, found] using ih

theorem find?_prune_leaf {schema : Schema} {key : Bytes} {shape : Shape} (known : schema.lookup key = some shape)
    (leaf : ∀ v, shape.prune v = v) (o : Object) :
    (schema.prune o).find? key = (o.find? key).filter shape.fits := by
  rw [find?_prune known]
  cases (o.find? key).filter shape.fits with
  | none => rfl
  | some v => exact congrArg some (leaf v)

end Schema

namespace Picojson.Object

/-- A string is read the same whether or not values of other types are there. -/
theorem readString_filter {o kept : Object} {key : Bytes}
    (same : kept.find? key = (o.find? key).filter Shape.string.fits) : kept.readString key = o.readString key := by
  rw [readString, same, readString]
  cases o.find? key with
  | none => rfl
  | some v => cases v <;> rfl

theorem readBool_filter {o kept : Object} {key : Bytes}
    (same : kept.find? key = (o.find? key).filter Shape.boolean.fits) : kept.readBool key = o.readBool key := by
  rw [readBool, same, readBool]
  cases o.find? key with
  | none => rfl
  | some v => cases v <;> rfl

end Picojson.Object

theorem mapIsObject_filter {o kept : Object} {key : Bytes}
    (same : kept.find? key = (o.find? key).filter Shape.stringMap.fits) : MapIsObject kept key := by
  intro v found
  rw [same] at found
  obtain ⟨-, fit⟩ := Option.filter_eq_some_iff.mp found
  cases v with
  | object entry => rfl
  | _ => cases fit

end DockerPlugin

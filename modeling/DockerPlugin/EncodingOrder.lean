import DockerPlugin.ResponseEncoding

namespace DockerPlugin
open Octets Picojson

instance : StrictWeak fun a b : Bytes × Value => stringLess a.1 b.1 where
  asymm before := @StrictWeak.asymm _ stringLess _ _ _ before
  negTrans ab bc := @StrictWeak.negTrans _ stringLess _ _ _ _ ab bc

/-- A map is written in the same way in whatever order its entries are visited. -/
theorem encodeMap_same {a b : UnorderedMap} (same : a.Same b) : encodeMap a = encodeMap b := by
  obtain ⟨o, encoded, sorted, all, -⟩ := encodeMap_entries a
  obtain ⟨o', encoded', sorted', all', -⟩ := encodeMap_entries b
  have members : o.Perm o' := all.trans ((same.map _).trans all'.symm)
  rw [encoded, encoded', StrictWeak.eq_of_increasing sorted sorted' members]

/-- The same volume but for the order in which the entries of its status are visited. -/
structure Volume.VolumeInfo.Reordered (a b : VolumeInfo) : Prop where
  name : a.name = b.name
  mountpoint : a.mountpoint = b.mountpoint
  createdAt : a.createdAt = b.createdAt
  status : a.status.Same b.status

theorem toJsonRaw_reordered {a b : Volume.VolumeInfo} (reordered : a.Reordered b) : toJsonRaw a = toJsonRaw b := by
  simp only [toJsonRaw, reordered.name, reordered.mountpoint, reordered.createdAt, encodeMap_same reordered.status]

theorem map_toJsonRaw_reordered {as bs : List Volume.VolumeInfo}
    (reordered : List.Forall₂ Volume.VolumeInfo.Reordered as bs) : as.map toJsonRaw = bs.map toJsonRaw := by
  induction reordered with
  | nil => rfl
  | cons first _ ih => rw [List.map_cons, List.map_cons, toJsonRaw_reordered first, ih]

namespace ResponseType

/-- The same response but for the order in which the entries of its maps are visited. -/
def Reordered : (t : ResponseType) → t.Encoded → t.Encoded → Prop
  | volumeGet, (a : Volume.GetResponse), (b : Volume.GetResponse) => a.volume.Reordered b.volume
  | volumeList, (a : Volume.ListResponse), (b : Volume.ListResponse) =>
    List.Forall₂ Volume.VolumeInfo.Reordered a.volumes.entries b.volumes.entries
  | networkAllocateNetwork, (a : Network.AllocateNetworkResponse), (b : Network.AllocateNetworkResponse) =>
    a.options.Same b.options
  | networkInfo, (a : Network.InfoResponse), (b : Network.InfoResponse) => a.value.Same b.value
  | ipamRequestPool, (a : Ipam.RequestPoolResponse), (b : Ipam.RequestPoolResponse) =>
    a.poolId = b.poolId ∧ a.pool = b.pool ∧ a.data.Same b.data
  | ipamRequestAddress, (a : Ipam.RequestAddressResponse), (b : Ipam.RequestAddressResponse) =>
    a.address = b.address ∧ a.data.Same b.data
  | _, a, b => a = b

/-- The maps of a response. -/
def maps : (t : ResponseType) → t.Encoded → List UnorderedMap
  | volumeGet, (e : Volume.GetResponse) => [e.volume.status]
  | volumeList, (e : Volume.ListResponse) => e.volumes.entries.map (·.status)
  | networkAllocateNetwork, (e : Network.AllocateNetworkResponse) => [e.options]
  | networkInfo, (e : Network.InfoResponse) => [e.value]
  | ipamRequestPool, (e : Ipam.RequestPoolResponse) => [e.data]
  | ipamRequestAddress, (e : Ipam.RequestAddressResponse) => [e.data]
  | _, _ => []

/-- The objects in the object of a response that its maps are written to. -/
def mapObjects : ResponseType → Object → List Object
  | volumeGet, obj => [(obj.readMembers (bytes "Volume")).readMembers (bytes "Status")]
  | volumeList, obj => (obj.readArray (bytes "Volumes")).map fun v => v.members.readMembers (bytes "Status")
  | networkAllocateNetwork, obj => [obj.readMembers (bytes "Options")]
  | networkInfo, obj => [obj.readMembers (bytes "Value")]
  | ipamRequestPool, obj | ipamRequestAddress, obj => [obj.readMembers (bytes "Data")]
  | _, _ => []

end ResponseType

theorem toObject_reordered {t : ResponseType} {v w : t.Encoded} (reordered : t.Reordered v w) :
    toObject t v = toObject t w := by
  cases t with
  | volumeGet => simp only [toObject, toJsonRaw_reordered reordered]
  | volumeList => simp only [toObject, map_toJsonRaw_reordered reordered]
  | networkAllocateNetwork => simp only [toObject, encodeMap_same reordered]
  | networkInfo => simp only [toObject, encodeMap_same reordered]
  | ipamRequestPool =>
    obtain ⟨poolId, pool, data⟩ := reordered
    simp only [toObject, poolId, pool, encodeMap_same data]
  | ipamRequestAddress =>
    obtain ⟨address, data⟩ := reordered
    simp only [toObject, address, encodeMap_same data]
  | _ => exact congrArg (toObject _) reordered

/-- The members of an object are the entries of a map, each once, and in strictly increasing order. -/
structure Lists (members : Object) (map : UnorderedMap) : Prop where
  increasing : members.Sorted
  entries : members.Perm (map.entries.map fun e => (e.1, .string e.2))

theorem encodeMap_lists (map : UnorderedMap) : Lists (encodeMap map).members map := by
  obtain ⟨o, encoded, sorted, all, -⟩ := encodeMap_entries map
  rw [encoded]
  exact ⟨sorted, all⟩

theorem toJsonRaw_status (e : Volume.VolumeInfo) :
    (toJsonRaw e).members.readMembers (bytes "Status") = (encodeMap e.status).members := by
  simp only [toJsonRaw, Value.members, Object.readMembers, Object.find?_insert_same]

/-- Every map of a response is written to an object of its own. -/
theorem toObject_lists (t : ResponseType) (v : t.Encoded) :
    List.Forall₂ Lists (t.mapObjects (toObject t v)) (t.maps v) := by
  have single : ∀ {members : Object} {map : UnorderedMap}, members = (encodeMap map).members →
      List.Forall₂ Lists [members] [map] := by
    rintro members map rfl
    exact .cons (encodeMap_lists map) .nil
  cases t with
  | volumeGet =>
    refine single ?_
    simp only [toObject, Object.readMembers, Object.find?_insert_same]
    exact toJsonRaw_status v.volume
  | volumeList =>
    simp only [ResponseType.mapObjects, ResponseType.maps, toObject, Object.readArray, Object.find?_insert_same,
      List.map_map, List.forall₂_map_left_iff, List.forall₂_map_right_iff]
    refine List.forall₂_same.mpr fun e _ => ?_
    rw [Function.comp_apply, toJsonRaw_status]
    exact encodeMap_lists e.status
  | networkAllocateNetwork => exact single (by simp only [toObject, Object.readMembers, Object.find?_insert_same])
  | networkInfo => exact single (by simp only [toObject, Object.readMembers, Object.find?_insert_same])
  | ipamRequestPool => exact single (by simp only [toObject, Object.readMembers, Object.find?_insert_same])
  | ipamRequestAddress => exact single (by simp only [toObject, Object.readMembers, Object.find?_insert_same])
  | _ => exact .nil

theorem infix_intercalate {α : Type} (sep : List α) {part : List α} {parts : List (List α)} (member : part ∈ parts) :
    part <:+: sep.intercalate parts := by
  induction parts with
  | nil => cases member
  | cons first rest ih =>
    cases rest with
    | nil =>
      have same : part = sep.intercalate [first] := by rw [List.intercalate_singleton, List.mem_singleton.mp member]
      exact same ▸ List.infix_rfl
    | cons second rest =>
      rw [List.intercalate_cons_cons]
      rcases List.mem_cons.mp member with rfl | later
      · exact ⟨[], sep ++ sep.intercalate (second :: rest), by simp⟩
      · exact (ih later).trans (List.suffix_append _ _).isInfix

/-- How a member is written. -/
def memberText (key value : Bytes) : Bytes := serializeStr key ++ bytes ":" ++ value

theorem serializeItems_eq (a : List Value) : serializeItems a = (bytes ",").intercalate (a.map serialize) := by
  induction a with
  | nil => rfl
  | cons v rest ih =>
    cases rest with
    | nil => rw [serializeItems, List.map_singleton, List.intercalate_singleton]
    | cons w rest => simp only [serializeItems, ih, List.map_cons, List.intercalate_cons_cons]

theorem serializeMembers_eq (o : Object) :
    serializeMembers o = (bytes ",").intercalate (o.map fun m => memberText m.1 (serialize m.2)) := by
  induction o with
  | nil => rfl
  | cons m rest ih =>
    obtain ⟨k, v⟩ := m
    cases rest with
    | nil => rw [serializeMembers, List.map_singleton, List.intercalate_singleton, memberText]
    | cons n rest => simp only [serializeMembers, ih, List.map_cons, List.intercalate_cons_cons, memberText]

/-- What a member holds stands in the text of its object. -/
theorem serialize_find? {o : Object} {key : Bytes} {v : Value} (found : o.find? key = some v) :
    serialize v <:+: serialize (.object o) := by
  obtain ⟨m, here, rfl⟩ := Option.map_eq_some_iff.mp found
  have part : memberText m.1 (serialize m.2) ∈ o.map fun m => memberText m.1 (serialize m.2) :=
    List.mem_map_of_mem (List.mem_of_find?_eq_some here)
  have inside := infix_intercalate (bytes ",") part
  rw [← serializeMembers_eq] at inside
  rw [serialize]
  exact (List.suffix_append _ _).isInfix.trans (inside.trans ⟨bytes "\x7b", bytes "\x7d", rfl⟩)

theorem serialize_item {a : List Value} {v : Value} (member : v ∈ a) : serialize v <:+: serialize (.array a) := by
  have inside := infix_intercalate (bytes ",") (List.mem_map_of_mem (f := serialize) member)
  rw [← serializeItems_eq] at inside
  rw [serialize]
  exact inside.trans ⟨bytes "[", bytes "]", rfl⟩

theorem encodeMap_status (e : Volume.VolumeInfo) : serialize (encodeMap e.status) <:+: serialize (toJsonRaw e) :=
  serialize_find? (Object.find?_insert_same (bytes "Status") _ _)

/-- The text of every map stands in that of the response. -/
theorem toObject_spells (t : ResponseType) (v : t.Encoded) :
    ∀ map ∈ t.maps v, serialize (encodeMap map) <:+: serialize (.object (toObject t v)) := by
  cases t with
  | volumeGet =>
    refine List.forall_mem_singleton.mpr ((encodeMap_status _).trans ?_)
    exact serialize_find? (Object.find?_insert_same (bytes "Volume") _ _)
  | volumeList =>
    rintro map member
    obtain ⟨e, inside, rfl⟩ := List.mem_map.mp member
    have item := serialize_item (List.mem_map_of_mem (f := toJsonRaw) inside)
    exact (encodeMap_status e).trans (item.trans (serialize_find? (Object.find?_insert_same (bytes "Volumes") _ _)))
  | networkAllocateNetwork | networkInfo | ipamRequestPool | ipamRequestAddress =>
    exact List.forall_mem_singleton.mpr (serialize_find? (Object.find?_insert_same _ _ _))
  | _ => exact List.forall_mem_nil _

/-- A text in which the entries of a map stand each once, in strictly increasing order of their keys. -/
def SpellsMap (text : Bytes) (map : UnorderedMap) : Prop :=
  ∃ pairs : List (Bytes × Bytes), pairs.Perm map.entries ∧ pairs.Pairwise (fun a b => stringLess a.1 b.1 = true) ∧
    bytes "\x7b" ++ (bytes ",").intercalate (pairs.map fun e => serializeStr e.1 ++ bytes ":" ++ serializeStr e.2) ++
      bytes "\x7d" <:+: text

/-- An object all of whose members are strings is that of their entries. -/
theorem map_stringEntries {o : Object} (strings : ∀ m ∈ o, ∃ s, m.2 = .string s) :
    (Object.stringEntries o).map (fun e => (e.1, Value.string e.2)) = o := by
  induction o with
  | nil => rfl
  | cons m rest ih =>
    obtain ⟨⟨s, text⟩, others⟩ := List.forall_mem_cons.mp strings
    have same : m = (m.1, .string s) := Prod.ext rfl text
    rw [same, Object.stringEntries, List.filterMap_cons_some (by rfl), List.map_cons]
    exact congrArg _ (ih others)

theorem encodeMap_spells (map : UnorderedMap) : SpellsMap (serialize (encodeMap map)) map := by
  obtain ⟨o, encoded, sorted, all, same⟩ := encodeMap_entries map
  have whole : (Object.stringEntries o).map (fun e => (e.1, Value.string e.2)) = o := by
    refine map_stringEntries fun m member => ?_
    obtain ⟨e, -, rfl⟩ := List.mem_map.mp (all.subset member)
    exact ⟨e.2, rfl⟩
  refine ⟨Object.stringEntries o, same, ?_, ?_⟩
  · rw [← whole] at sorted
    exact List.pairwise_map.mp sorted
  · rw [encoded, serialize, ← whole, serializeMembers_eq, List.map_map, whole]
    exact List.infix_rfl

theorem toJson_spells (t : ResponseType) (v : t.Encoded) : ∀ map ∈ t.maps v, SpellsMap (toJson t v) map := by
  intro map member
  obtain ⟨pairs, same, increasing, spelled⟩ := encodeMap_spells map
  exact ⟨pairs, same, increasing, spelled.trans (toObject_spells t v map member)⟩

open Volume in
/-- The set of volumes is the same in whatever order they are inserted, as far as their statuses are. -/
theorem ofList_reordered {xs zs ys : List VolumeInfo} (names : (xs.map VolumeInfo.name).Nodup)
    (reordered : List.Forall₂ VolumeInfo.Reordered xs zs) (same : zs.Perm ys) :
    List.Forall₂ VolumeInfo.Reordered (OrderedSet.ofList xs : OrderedSet _ VolumeInfo.less).entries
      (OrderedSet.ofList ys : OrderedSet _ VolumeInfo.less).entries := by
  have named : xs.map VolumeInfo.name = zs.map VolumeInfo.name := by
    rw [← List.forall₂_eq_eq_eq, List.forall₂_map_left_iff, List.forall₂_map_right_iff]
    exact reordered.imp fun _ _ pair => pair.name
  rw [named] at names
  have apart : zs.Pairwise fun a b => VolumeInfo.less a b = true ∨ VolumeInfo.less b a = true := by
    refine (List.pairwise_map.mp names).imp fun {a b} different => ?_
    by_contra neither
    rw [not_or, Bool.not_eq_true, Bool.not_eq_true] at neither
    exact different (eq_of_not_less neither.1 neither.2)
  rw [← OrderedSet.ofList_perm apart same]
  refine OrderedSet.ofList_forall₂ (fun ab cd => ?_) reordered
  rw [VolumeInfo.less, VolumeInfo.less, ab.name, cd.name]

open Volume in
/-- The text of a response does not depend on the order in which the entries of its maps are visited, it
lists each entry of them once and in increasing order of their keys, and the text of a list of volumes does
not depend on the order in which they were inserted. -/
theorem encoding_order_independent :
    (∀ (t : ResponseType) (v w : t.Encoded), t.Reordered v w → toJson t v = toJson t w) ∧
    (∀ (t : ResponseType) (v : t.Encoded), (∀ map ∈ t.maps v, SpellsMap (toJson t v) map) ∧
      ∃ o : Object, toJson t v = serialize (.object o) ∧ parse (toJson t v) = .ok (.object o) ∧ o.Sorted ∧
        List.Forall₂ Lists (t.mapObjects o) (t.maps v)) ∧
    ∀ xs zs ys : List VolumeInfo, (xs.map VolumeInfo.name).Nodup → List.Forall₂ VolumeInfo.Reordered xs zs →
      zs.Perm ys →
      toJson .volumeList ({ volumes := .ofList xs } : ListResponse) =
        toJson .volumeList ({ volumes := .ofList ys } : ListResponse) := by
  have text : ∀ (t : ResponseType) (v w : t.Encoded), t.Reordered v w → toJson t v = toJson t w := by
    intro t v w reordered
    rw [toJson, toJson, toObject_reordered reordered]
  refine ⟨text, fun t v => ?_, fun xs zs ys names related same => ?_⟩
  · exact ⟨toJson_spells t v, _, rfl, parse_toJson t v, (toObject_plain 98 t v).sorted, toObject_lists t v⟩
  · exact text .volumeList _ _ (ofList_reordered names related same)

end DockerPlugin

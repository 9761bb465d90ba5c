import DockerPlugin.RequestDecoding
import DockerPlugin.PicojsonRoundTrip

namespace DockerPlugin
open Octets Picojson

/-- The entries that a map among address data is meant to have. -/
def auxStrings (entry : Object) : List (Bytes × Bytes) :=
  match entry.find? (bytes "AuxAddresses") with
  | some (.object aux) => Object.stringEntries aux
  | _ => []

/-- Address data as it is meant to arrive. -/
structure IntendedEntry where
  addressSpace : Bytes
  pool : Bytes
  gateway : Bytes
  auxAddresses : List (Bytes × Bytes)

/-- What an entry of address data is meant to become: it is dropped if nothing is in it. -/
def intendedEntry : Value → Option IntendedEntry
  | .object entry =>
    let data : IntendedEntry := {
      addressSpace := Object.readString entry (bytes "AddressSpace")
      pool := Object.readString entry (bytes "Pool")
      gateway := Object.readString entry (bytes "Gateway")
      auxAddresses := auxStrings entry }
    if data.addressSpace.isEmpty && data.pool.isEmpty && data.gateway.isEmpty && data.auxAddresses.isEmpty then none
    else some data
  | _ => none

/-- Decoded address data are those that were meant, the maps compared as such. -/
structure Network.IpamData.Carries (data : Network.IpamData) (intended : IntendedEntry) : Prop where
  addressSpace : data.addressSpace = intended.addressSpace
  pool : data.pool = intended.pool
  gateway : data.gateway = intended.gateway
  auxAddresses : data.auxAddresses.entries.Perm intended.auxAddresses

theorem bareEntry_carries {e : Value} (bare : ∀ entry, e = .object entry → auxStrings entry = []) :
    Option.Rel Network.IpamData.Carries (Network.bareEntry e) (intendedEntry e) := by
  cases e with
  | object entry =>
    simp only [Network.bareEntry, intendedEntry, bare entry rfl, List.isEmpty_nil, Bool.and_true]
    split
    · exact .none
    · exact .some ⟨rfl, rfl, rfl, .refl _⟩
  | _ => exact .none

theorem bareEntry_auxAddresses {e : Value} {data : Network.IpamData} (decoded : Network.bareEntry e = some data) :
    data.auxAddresses = .empty := by
  cases e with
  | object entry =>
    simp only [Network.bareEntry] at decoded
    split at decoded
    · cases decoded
    · cases decoded
      rfl
  | _ => cases decoded

theorem forall₂_exists_left {α β : Type} {R : α → β → Prop} {xs : List α} {ys : List β} (related : List.Forall₂ R xs ys)
    {y : β} (member : y ∈ ys) : ∃ x ∈ xs, R x y := by
  induction related with
  | nil => exact absurd member List.not_mem_nil
  | cons first rest ih =>
    rcases List.mem_cons.mp member with rfl | later
    · exact ⟨_, List.mem_cons_self, first⟩
    · obtain ⟨x, inside, same⟩ := ih later
      exact ⟨x, List.mem_cons_of_mem _ inside, same⟩

/-- All entries arrive as they are meant exactly if no map among them has an entry. -/
theorem bareEntries_carry_iff (arr : List Value) :
    List.Forall₂ Network.IpamData.Carries (arr.filterMap Network.bareEntry) (arr.filterMap intendedEntry) ↔
      ∀ entry, Value.object entry ∈ arr → auxStrings entry = [] := by
  constructor
  · intro carried entry member
    by_contra full
    have intended : intendedEntry (.object entry) = some ⟨Object.readString entry (bytes "AddressSpace"),
        Object.readString entry (bytes "Pool"), Object.readString entry (bytes "Gateway"), auxStrings entry⟩ := by
      simp [intendedEntry, full]
    obtain ⟨data, inBare, carries⟩ := forall₂_exists_left carried (List.mem_filterMap.mpr ⟨_, member, intended⟩)
    obtain ⟨e, -, decoded⟩ := List.mem_filterMap.mp inBare
    have kept := carries.auxAddresses
    rw [bareEntry_auxAddresses decoded] at kept
    exact full (List.nil_perm.mp kept)
  · intro bare
    have same : List.Forall₂ (fun e e' => e = e' ∧ ∀ entry, e = Value.object entry → auxStrings entry = []) arr arr :=
      List.forall₂_same.mpr fun e member => ⟨rfl, fun entry object => bare entry (object ▸ member)⟩
    refine List.rel_filterMap ?_ same
    rintro e _ ⟨rfl, empty⟩
    exact bareEntry_carries empty

/-- A map has to be empty to be found in the request, and every other map has to be an object. -/
theorem options_intact_iff {t : RequestType} {o : Object} (entries : List (Bytes × Bytes)) :
    (∃ r, fromObject t o = .ok r ∧ (t.options r).entries.Perm entries) ↔ entries = [] ∧ t.MapsAreObjects o := by
  constructor
  · rintro ⟨r, decoded, kept⟩
    have maps := fromObject_ok_iff.mp ⟨r, decoded⟩
    obtain ⟨r', decoded', bare, -⟩ := fromObject_ok maps
    obtain rfl : r = r' := Except.ok.inj (decoded.symm.trans decoded')
    rw [bare] at kept
    exact ⟨List.nil_perm.mp kept, maps⟩
  · rintro ⟨rfl, maps⟩
    obtain ⟨r, decoded, bare, -⟩ := fromObject_ok maps
    exact ⟨r, decoded, by rw [bare]; exact .refl _⟩

theorem ipv4Data_intact_iff {t : RequestType} {o : Object} {arr : List Value}
    (known : t.schema.lookup (bytes "IPv4Data") = some .ipamData) (found : o.find? (bytes "IPv4Data") = some (.array arr)) :
    (∃ r, fromObject t o = .ok r ∧ List.Forall₂ Network.IpamData.Carries (t.ipv4Data r) (arr.filterMap intendedEntry)) ↔
      (∀ entry, Value.object entry ∈ arr → auxStrings entry = []) ∧ t.MapsAreObjects o := by
  have read : Network.bareIpamData o (bytes "IPv4Data") = arr.filterMap Network.bareEntry := by
    rw [Network.bareIpamData, found]
  constructor
  · rintro ⟨r, decoded, kept⟩
    have maps := fromObject_ok_iff.mp ⟨r, decoded⟩
    obtain ⟨r', decoded', -, bare⟩ := fromObject_ok maps
    obtain rfl : r = r' := Except.ok.inj (decoded.symm.trans decoded')
    rw [bare known, read] at kept
    exact ⟨(bareEntries_carry_iff arr).mp kept, maps⟩
  · rintro ⟨empty, maps⟩
    obtain ⟨r, decoded, -, bare⟩ := fromObject_ok maps
    exact ⟨r, decoded, by rw [bare known, read]; exact (bareEntries_carry_iff arr).mpr empty⟩

/-- The maps of a request arrive as they were sent exactly if they have no entries that are
strings, while every map of the request is an object. -/
theorem maps_intact_iff {t : RequestType} {text : Bytes} {o : Object} (parsed : parse text = .ok (.object o)) :
    (∀ mo, t.schema.lookup t.mapKey = some .stringMap → o.find? t.mapKey = some (.object mo) →
      ((∃ r, fromJson t text = .ok r ∧ (t.options r).entries.Perm (Object.stringEntries mo)) ↔
        Object.stringEntries mo = [] ∧ t.MapsAreObjects o)) ∧
    (∀ m : UnorderedMap, t.schema.lookup t.mapKey = some .stringMap → o.find? t.mapKey = some (encodeMap m) →
      ((∃ r, fromJson t text = .ok r ∧ (t.options r).Same m) ↔ m.entries = [] ∧ t.MapsAreObjects o)) ∧
    (∀ arr, t.schema.lookup (bytes "IPv4Data") = some .ipamData → o.find? (bytes "IPv4Data") = some (.array arr) →
      ((∃ r, fromJson t text = .ok r ∧
          List.Forall₂ Network.IpamData.Carries (t.ipv4Data r) (arr.filterMap intendedEntry)) ↔
        (∀ entry, Value.object entry ∈ arr → auxStrings entry = []) ∧ t.MapsAreObjects o)) := by
  have reads : ∀ {key shape}, t.schema.lookup key = some shape → t ≠ .empty := by
    rintro key shape known rfl
    cases known
  refine ⟨fun mo known _ => ?_, fun m known _ => ?_, fun arr known found => ?_⟩
  · rw [fromJson_object (reads known) parsed]
    exact options_intact_iff _
  · rw [fromJson_object (reads known) parsed]
    exact options_intact_iff _
  · rw [fromJson_object (reads known) parsed]
    exact ipv4Data_intact_iff known found

/-- A volume with one option. -/
def optionText : Bytes := bytes "\x7b\"Name\":\"v\",\"Opts\":\x7b\"size\":\"10G\"\x7d\x7d"

def optionObject : Object :=
  [(bytes "Name", .string (bytes "v")), (bytes "Opts", .object [(bytes "size", .string (bytes "10G"))])]

theorem optionText_parse : parse optionText = .ok (.object optionObject) := by
  have written : optionText = serialize (.object optionObject) := by decide
  rw [written]
  exact parse_serialize (.pair (by decide) (.string _ _) (.single _ (.string _ _)))

theorem maps_intact_volume_option :
    (∃ r, fromJson .volumeCreate optionText = .ok r ∧
        (RequestType.volumeCreate.options r).entries.Perm [(bytes "size", bytes "10G")]) ↔
      [(bytes "size", bytes "10G")] = [] ∧ RequestType.volumeCreate.MapsAreObjects optionObject :=
  (@maps_intact_iff .volumeCreate optionText optionObject optionText_parse).1 [(bytes "size", .string (bytes "10G"))] rfl rfl

/-- The option does not reach the driver. -/
theorem volume_option_lost : ¬ ∃ r, fromJson .volumeCreate optionText = .ok r ∧
    (RequestType.volumeCreate.options r).Same ⟨[(bytes "size", bytes "10G")], by decide⟩ := by
  rintro ⟨r, decoded, same⟩
  have lost : fromJson .volumeCreate optionText =
      .ok ({ name := bytes "v", options := .empty } : Volume.CreateRequest) := by
    rw [fromJson_object (by decide) optionText_parse]
    rfl
  obtain rfl := Except.ok.inj (lost.symm.trans decoded)
  exact absurd same (by decide)

end DockerPlugin

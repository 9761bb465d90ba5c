import DockerPlugin.DriverRequests

namespace DockerPlugin
open Octets Picojson

/-- Two numbers of 64 and of 32 bits agree after the narrowing exactly if they do modulo 2^32. -/
theorem toInt32_eq_iff (v : Int64) (n : Int32) : v.toInt32 = n ↔ v.toInt % 2 ^ 32 = n.toInt % 2 ^ 32 := by
  rw [← Int32.toInt_inj, Int64.toInt_toInt32]
  rw [Int.bmod_eq_iff (by decide)]
  have low : -2 ^ 31 ≤ n.toInt := n.le_toInt
  have high : n.toInt < 2 ^ 31 := n.toInt_lt
  omega

namespace Network

/-- The data of a notification about a node. -/
def sentNode (o : Object) : NodeInfo :=
  match o.find? (bytes "DiscoveryData") with
  | some (.object data) => { address := Object.readString data (bytes "Address"), self := Object.readBool data (bytes "self") }
  | _ => {}

/-- A notification is about a node exactly if its number is that of a node, and only then has the data. -/
structure Classified (o : Object) (v : Int64) (n : DiscoveryNotification) : Prop where
  type : n.discoveryType = .node ↔ v = 1
  data : n.nodeInfo = if v = 1 then sentNode o else {}

/-- The number is not one that becomes the number of a node in the narrowing. -/
def Unambiguous (v : Int64) : Prop := v.toInt % 2 ^ 32 = 1 → v = 1

/-- What a notification is decoded to. -/
def notificationOf (o : Object) (v : Int64) : DiscoveryNotification where
  discoveryType := v.toInt32
  nodeInfo := if v.toInt % 2 ^ 32 = 1 then sentNode o else {}

theorem node_iff (v : Int64) : v.toInt32 = DiscoveryType.node ↔ v.toInt % 2 ^ 32 = 1 := toInt32_eq_iff v 1

theorem fromJson_discovery {text : Bytes} {o : Object} (parsed : parse text = .ok (.object o)) {v : Int64}
    (found : o.find? (bytes "DiscoveryType") = some (.int64 v)) :
    fromJson .networkDiscovery text = .ok (notificationOf o v) := by
  have type : readDiscoveryType o (bytes "DiscoveryType") = v.toInt32 := by rw [readDiscoveryType, found]
  have data : readNodeInfo o (bytes "DiscoveryData") v.toInt32 = (notificationOf o v).nodeInfo := by
    have only : v.toInt32 = DiscoveryType.node ↔ v.toInt % 2 ^ 32 = 1 := node_iff v
    cases sent : o.find? (bytes "DiscoveryData") with
    | none => simp [readNodeInfo, notificationOf, sentNode, sent]
    | some value =>
      cases value with
      | object data =>
        by_cases node : v.toInt32 = DiscoveryType.node
        · have wraps : v.toInt % 2 ^ 32 = 1 := only.mp node
          simp only [readNodeInfo, notificationOf, sentNode, sent, if_pos node, if_pos wraps]
        · have other : ¬ v.toInt % 2 ^ 32 = 1 := mt only.mpr node
          simp only [readNodeInfo, notificationOf, sent, if_neg node, if_neg other]
      | _ => simp [readNodeInfo, notificationOf, sentNode, sent]
  rw [fromJson_parsed parsed, fromObject, type, data]
  rfl

theorem classified_iff (o : Object) (v : Int64) : Classified o v (notificationOf o v) ↔ Unambiguous v := by
  constructor
  · exact fun classified wraps => classified.type.mp ((node_iff v).mpr wraps)
  · intro unambiguous
    have same : v.toInt % 2 ^ 32 = 1 ↔ v = 1 := ⟨unambiguous, fun one => by rw [one]; decide⟩
    exact ⟨(node_iff v).trans same, by simp only [notificationOf, same]⟩

/-- The types of two notifications can be told apart as far as nodes are concerned. -/
def Distinguished (n m : DiscoveryNotification) : Prop :=
  n.discoveryType ≠ m.discoveryType ∨ n.discoveryType ≠ .node ∧ m.discoveryType ≠ .node

theorem distinguished_iff (o o' : Object) (v w : Int64) :
    Distinguished (notificationOf o v) (notificationOf o' w) ↔ ¬ (v.toInt % 2 ^ 32 = 1 ∧ w.toInt % 2 ^ 32 = 1) := by
  rw [← node_iff, ← node_iff]
  constructor
  · rintro (apart | ⟨other, -⟩) ⟨first, second⟩
    · exact apart (first.trans second.symm)
    · exact other first
  · intro notBoth
    by_cases first : v.toInt32 = DiscoveryType.node
    · exact .inl fun same => notBoth ⟨first, same.symm.trans first⟩
    · by_cases second : w.toInt32 = DiscoveryType.node
      · exact .inl fun same => first (same.trans second)
      · exact .inr ⟨first, second⟩

/-- A discovery is classified by its number exactly if the number is not congruent to that of a node without
being it, and two numbers are confused exactly if both are congruent to it. -/
theorem discovery_type_iff {text text' : Bytes} {o o' : Object} (parsed : parse text = .ok (.object o))
    (parsed' : parse text' = .ok (.object o')) {v w : Int64}
    (found : o.find? (bytes "DiscoveryType") = some (.int64 v))
    (found' : o'.find? (bytes "DiscoveryType") = some (.int64 w)) :
    ∃ n m, fromJson .networkDiscovery text = .ok n ∧ fromJson .networkDiscovery text' = .ok m ∧
      (Classified o v n ↔ Unambiguous v) ∧
      (Distinguished n m ↔ ¬ (v.toInt % 2 ^ 32 = 1 ∧ w.toInt % 2 ^ 32 = 1)) :=
  ⟨_, _, fromJson_discovery parsed found, fromJson_discovery parsed' found', classified_iff o v,
    distinguished_iff o o' v w⟩

/-- The body of a notification about a node at an address, with a number. -/
def discoveryOf (address : String) (v : Int64) : Object :=
  [(bytes "DiscoveryData", .object [(bytes "Address", .string (bytes address))]), (bytes "DiscoveryType", .int64 v)]

example : serialize (.object (discoveryOf "10.0.0.1" 4294967297)) =
    bytes "\x7b\"DiscoveryData\":\x7b\"Address\":\"10.0.0.1\"\x7d,\"DiscoveryType\":4294967297\x7d" := by decide

theorem discoveryOf_parse (address : String) (v : Int64) :
    parse (serialize (.object (discoveryOf address v))) = .ok (.object (discoveryOf address v)) :=
  parse_serialize (.pair (by decide) (.single _ (.string _ _)) (.int64 _ _))

theorem discovery_type_small : ∃ n m,
    fromJson .networkDiscovery (serialize (.object (discoveryOf "10.0.0.1" 1))) = .ok n ∧
      fromJson .networkDiscovery (serialize (.object (discoveryOf "10.0.0.1" (-5)))) = .ok m ∧
      (Classified (discoveryOf "10.0.0.1" 1) 1 n ↔ Unambiguous 1) ∧
      (Distinguished n m ↔ ¬ ((1 : Int64).toInt % 2 ^ 32 = 1 ∧ (-5 : Int64).toInt % 2 ^ 32 = 1)) :=
  discovery_type_iff (discoveryOf_parse _ _) (discoveryOf_parse _ _) rfl rfl

/-- A number above 32 bits is taken for that of a node. -/
theorem wrapped_discovery : ∃ n m : DiscoveryNotification,
    fromJson .networkDiscovery (serialize (.object (discoveryOf "10.0.0.1" 4294967297))) = .ok n ∧
      n.discoveryType = .node ∧ n.nodeInfo.address = bytes "10.0.0.1" ∧ (4294967297 : Int64) ≠ 1 ∧
      fromJson .networkDiscovery (serialize (.object (discoveryOf "10.0.0.1" 1))) = .ok m ∧
      n.discoveryType = m.discoveryType :=
  ⟨_, _, fromJson_discovery (discoveryOf_parse _ _) rfl, by decide, by decide, by decide,
    fromJson_discovery (discoveryOf_parse _ _) rfl, by decide⟩

end Network

end DockerPlugin

import DockerPlugin.Library.Octets
import DockerPlugin.Library.Multimap
import Mathlib.Data.Int.Order.Basic

namespace DockerPlugin
open Octets

/-- `tolower` of a `char` in the C locale of glibc, as the `int` that is compared. A byte above 127 is
a negative `char`: its entry of the table is the code of the byte, but for 255, which is `EOF`. -/
def charLower (c : UInt8) : Int := if c = 255 then -1 else (toLower c).toNat

def caseInsensitiveLess (lhs rhs : Bytes) : Bool :=
  lexicographicalCompare (fun c1 c2 => decide (charLower c1 < charLower c2)) lhs rhs

theorem caseInsensitiveLess_key (a b : Bytes) :
    caseInsensitiveLess a b = true ↔ a.map charLower < b.map charLower :=
  lexicographicalCompare_key charLower (fun _ _ => decide_eq_true_iff) a b

instance : StrictWeak caseInsensitiveLess := .ofKey (fun k => k.map charLower) caseInsensitiveLess_key

example : caseInsensitiveLess [65] [128] = true ∧ caseInsensitiveLess [255] [65] = true := by decide

theorem toLower_eq_last {c : UInt8} : toLower c = 255 ↔ c = 255 := by
  unfold toLower
  split
  · rename_i upper
    have high : c.toNat ≤ 90 := UInt8.le_iff_toNat_le.mp upper.2
    constructor <;> intro same <;> have code := congrArg UInt8.toNat same
    · simp only [UInt8.toNat_add, UInt8.reduceToNat] at code
      omega
    · simp only [UInt8.reduceToNat] at code
      omega
  · exact Iff.rfl

theorem charLower_inj {a b : UInt8} : charLower a = charLower b ↔ toLower a = toLower b := by
  have codes : ∀ c, charLower c = if toLower c = 255 then -1 else ((toLower c).toNat : Int) := fun c => by
    simp only [charLower, toLower_eq_last]
  rw [codes, codes]
  refine ⟨fun same => ?_, fun same => by rw [same]⟩
  split at same <;> split at same
  · rename_i lastA lastB
    rw [lastA, lastB]
  · omega
  · omega
  · exact UInt8.toNat_inj.mp (Int.natCast_inj.mp same)

/-- The order of header names tells two of them apart exactly when their lower-case spellings
differ. -/
theorem equivalent_iff {a b : Bytes} :
    Multimap.equivalent caseInsensitiveLess a b = true ↔ a.map toLower = b.map toLower := by
  have keys : Multimap.equivalent caseInsensitiveLess a b = true ↔ a.map charLower = b.map charLower := by
    simp only [Multimap.equivalent, Bool.and_eq_true, Bool.not_eq_true', ← Bool.not_eq_true,
      caseInsensitiveLess_key, not_lt]
    exact ⟨fun h => le_antisymm h.2 h.1, fun h => ⟨h.ge, h.le⟩⟩
  rw [keys, List.map_eq_iff, List.map_eq_iff]
  have pointwise : ∀ x y : Option UInt8, x.map charLower = y.map charLower ↔ x.map toLower = y.map toLower := by
    intro x y
    cases x <;> cases y <;> simp [charLower_inj]
  simp only [List.getElem?_map, pointwise]

abbrev HttpHeaderSet := Multimap Bytes Bytes caseInsensitiveLess

namespace HttpHeaderSet

def set (h : HttpHeaderSet) (key value : Bytes) (replace : Bool := true) : HttpHeaderSet :=
  (if replace then Multimap.erase h key else h).emplace key value

def get (h : HttpHeaderSet) (key : Bytes) : Bytes :=
  match Multimap.find? h key with
  | none => []
  | some e => e.2

def has (h : HttpHeaderSet) (key : Bytes) : Bool := Multimap.count h key ≠ 0

def getAll (h : HttpHeaderSet) (key : Bytes) : List Bytes := (Multimap.equalRange h key).map Prod.snd

def size (h : HttpHeaderSet) : Nat := h.entries.length

def erase (h : HttpHeaderSet) (key : Bytes) : HttpHeaderSet := Multimap.erase h key

def clear (_ : HttpHeaderSet) : HttpHeaderSet := .empty

theorem has_eq_false_iff (h : HttpHeaderSet) (key : Bytes) : h.has key = false ↔ Multimap.count h key = 0 := by
  simp [has]

theorem has_set (h : HttpHeaderSet) (key value : Bytes) (replace : Bool) : (h.set key value replace).has key = true := by
  simp only [has, set, Multimap.count_emplace, Multimap.equivalent_self, if_true]
  simp

theorem count_set (h : HttpHeaderSet) (key value : Bytes) : Multimap.count (h.set key value) key = 1 := by
  have count := Multimap.count_emplace (Multimap.erase h key) key key value
  rw [Multimap.count_erase, Multimap.equivalent_self, if_pos rfl] at count
  exact count

theorem count_set_other (h : HttpHeaderSet) {key other : Bytes}
    (apart : Multimap.equivalent caseInsensitiveLess key other = false) (value : Bytes) (replace : Bool) :
    Multimap.count (h.set other value replace) key = Multimap.count h key := by
  cases replace <;> simp [set, Multimap.count_emplace, apart, Multimap.count_erase_other]

theorem has_set_other (h : HttpHeaderSet) {key other : Bytes}
    (apart : Multimap.equivalent caseInsensitiveLess key other = false) (value : Bytes) (replace : Bool) :
    (h.set other value replace).has key = h.has key := by
  rw [has, has, count_set_other h apart]

/-- A name that was just set with replacement has exactly the value given. -/
theorem get_set (h : HttpHeaderSet) (key value : Bytes) : (h.set key value).get key = value := by
  simp only [get, set, if_true, Multimap.find?_emplace _ key value (Multimap.count_erase h key)]

/-- The values of a name after `set`, which keep the order in which they were set. -/
theorem getAll_set_name (h : HttpHeaderSet) (key value name : Bytes) (replace : Bool) :
    (h.set key value replace).getAll name =
      if Multimap.equivalent caseInsensitiveLess name key then (if replace then [] else h.getAll name) ++ [value]
      else h.getAll name := by
  by_cases same : Multimap.equivalent caseInsensitiveLess name key = true <;>
    cases replace <;> simp [getAll, set, Multimap.equalRange_emplace, Multimap.equalRange_erase, same]

theorem getAll_set (h : HttpHeaderSet) (key value : Bytes) : (h.set key value).getAll key = [value] := by
  rw [getAll_set_name, if_pos (Multimap.equivalent_self key), if_pos rfl, List.nil_append]

theorem get_of_not_has {h : HttpHeaderSet} {key : Bytes} (absent : h.has key = false) : h.get key = [] := by
  rw [get, (Multimap.find?_eq_none_iff h key).mpr ((has_eq_false_iff h key).mp absent)]

end HttpHeaderSet

end DockerPlugin

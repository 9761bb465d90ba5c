import DockerPlugin.ToJson

namespace DockerPlugin
open Octets Picojson

namespace Picojson

theorem stringLess_iff (a b : Bytes) : stringLess a b = true ↔ a.map UInt8.toNat < b.map UInt8.toNat :=
  lexicographicalCompare_key UInt8.toNat (fun _ _ => decide_eq_true_iff) a b

/-- Strings neither of which comes first are equal. -/
theorem eq_of_not_less {a b : Bytes} (ab : stringLess a b = false) (ba : stringLess b a = false) : a = b := by
  rw [← Bool.not_eq_true, stringLess_iff, not_lt] at ab ba
  exact List.map_injective_iff.mpr (fun _ _ same => UInt8.toNat_inj.mp same) (le_antisymm ba ab)

namespace Object

theorem find?_cons (k : Bytes) (v : Value) (o : Object) (key : Bytes) :
    Object.find? ((k, v) :: o) key = if k = key then some v else o.find? key := by
  by_cases same : k = key <;> simp [Object.find?, same]

theorem find?_insert (key : Bytes) (val : Value) (o : Object) (other : Bytes) :
    (o.insert key val).find? other = if key = other then some val else o.find? other := by
  induction o with
  | nil => exact find?_cons key val [] other
  | cons m rest ih =>
    obtain ⟨k, v⟩ := m
    rw [Object.insert]
    split
    · exact find?_cons key val _ other
    · rename_i notBefore
      split
      · rename_i after
        have apart : k ≠ key := by
          rintro rfl
          exact notBefore after
        rw [find?_cons, find?_cons, ih]
        by_cases here : k = other
        · subst here
          simp [apart.symm]
        · simp [here]
      · rename_i notAfter
        have same : key = k := eq_of_not_less (Bool.eq_false_iff.mpr notBefore) (Bool.eq_false_iff.mpr notAfter)
        rw [find?_cons, find?_cons, same]
        split <;> rfl

/-- The members in the order of their keys, no key twice. -/
def Sorted (o : Object) : Prop := o.Pairwise fun a b => stringLess a.1 b.1 = true

instance (o : Object) : Decidable o.Sorted :=
  inferInstanceAs (Decidable (o.Pairwise fun a b => stringLess a.1 b.1 = true))

theorem mem_insert {key : Bytes} {val : Value} {o : Object} {m : Bytes × Value} (member : m ∈ o.insert key val) :
    m = (key, val) ∨ m ∈ o := by
  induction o with
  | nil => exact Or.inl (List.mem_singleton.mp member)
  | cons first rest ih =>
    obtain ⟨k, v⟩ := first
    rw [Object.insert] at member
    split at member
    · exact List.mem_cons.mp member
    · split at member
      · rcases List.mem_cons.mp member with same | later
        · exact Or.inr (by simp [same])
        · exact (ih later).imp_right (List.mem_cons_of_mem _)
      · rcases List.mem_cons.mp member with same | later
        · exact Or.inl same
        · exact Or.inr (List.mem_cons_of_mem _ later)

theorem insert_sorted {o : Object} (sorted : o.Sorted) (key : Bytes) (val : Value) : (o.insert key val).Sorted := by
  induction o with
  | nil => exact List.pairwise_singleton _ _
  | cons first rest ih =>
    obtain ⟨k, v⟩ := first
    obtain ⟨above, later⟩ := List.pairwise_cons.mp sorted
    rw [Object.insert]
    split
    · rename_i before
      refine List.pairwise_cons.mpr ⟨fun m member => ?_, sorted⟩
      rcases List.mem_cons.mp member with rfl | inRest
      · exact before
      · exact StrictWeak.trans before (above m inRest)
    · rename_i notBefore
      split
      · rename_i after
        refine List.pairwise_cons.mpr ⟨fun m member => ?_, ih later⟩
        rcases mem_insert member with rfl | inRest
        · exact after
        · exact above m inRest
      · rename_i notAfter
        have same : key = k := eq_of_not_less (Bool.eq_false_iff.mpr notBefore) (Bool.eq_false_iff.mpr notAfter)
        exact List.pairwise_cons.mpr ⟨by simpa only [same] using above, later⟩

/-- A member under a new key is one more. -/
theorem insert_perm {o : Object} {key : Bytes} (new : key ∉ o.map Prod.fst) (val : Value) :
    (o.insert key val).Perm ((key, val) :: o) := by
  induction o with
  | nil => exact List.Perm.refl _
  | cons first rest ih =>
    obtain ⟨k, v⟩ := first
    simp only [List.map_cons, List.mem_cons, not_or] at new
    rw [Object.insert]
    split
    · exact List.Perm.refl _
    · rename_i notBefore
      split
      · exact (List.Perm.cons _ (ih new.2)).trans (List.Perm.swap _ _ _)
      · rename_i notAfter
        exact absurd (eq_of_not_less (Bool.eq_false_iff.mpr notBefore) (Bool.eq_false_iff.mpr notAfter)) new.1

/-- The members of an object that are strings. -/
def stringEntries (o : Object) : List (Bytes × Bytes) :=
  o.filterMap fun m =>
    match m.2 with
    | .string s => some (m.1, s)
    | _ => none

end Object

end Picojson

theorem encode_perm {entries : List (Bytes × Bytes)} {o : Object}
    (unique : (o.map Prod.fst ++ entries.map Prod.fst).Nodup) (sorted : o.Sorted) :
    (entries.foldl (fun (obj : Object) e => obj.insert e.1 (.string e.2)) o).Sorted ∧
      (entries.foldl (fun (obj : Object) e => obj.insert e.1 (.string e.2)) o).Perm
        (o ++ entries.map fun e => (e.1, Value.string e.2)) := by
  induction entries generalizing o with
  | nil => simpa using sorted
  | cons e rest ih =>
    have new : e.1 ∉ o.map Prod.fst := fun old =>
      (List.nodup_append.mp unique).2.2 e.1 old e.1 (by simp) rfl
    have added := Object.insert_perm new (.string e.2)
    have keys : ((o.insert e.1 (.string e.2)).map Prod.fst ++ rest.map Prod.fst).Nodup := by
      refine (((added.map Prod.fst).append_right _).nodup_iff).mpr ?_
      simpa using List.perm_middle.nodup_iff.mp unique
    obtain ⟨inOrder, all⟩ := ih keys (Object.insert_sorted sorted e.1 (.string e.2))
    refine ⟨inOrder, all.trans ?_⟩
    simpa using (added.append_right _).trans List.perm_middle.symm

/-- The object of a map has its entries, in the order of the keys. -/
theorem encodeMap_entries (map : UnorderedMap) : ∃ o : Object, encodeMap map = .object o ∧ o.Sorted ∧
    o.Perm (map.entries.map fun e => (e.1, Value.string e.2)) ∧ (Object.stringEntries o).Perm map.entries := by
  obtain ⟨sorted, all⟩ := @encode_perm map.entries [] (by simpa using map.unique) List.Pairwise.nil
  refine ⟨_, rfl, sorted, all, (all.filterMap _).trans ?_⟩
  rw [List.nil_append, List.filterMap_map]
  simp

end DockerPlugin

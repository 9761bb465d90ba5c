import DockerPlugin.Library.EntryLog
import DockerPlugin.LengthResponses

namespace DockerPlugin
open Octets Http

namespace HttpHeaderSet

/-- A call that changes a header set. -/
inductive Change
  | set (call : HeaderCall)
  | erase (key : Bytes)
  | clear

def Change.apply (h : HttpHeaderSet) : Change → HttpHeaderSet
  | set call => h.set call.key call.value call.replace
  | erase key => h.erase key
  | clear => h.clear

/-- What a change means for a list of fields in the order of their insertion. -/
def Change.record (log : List Field) : Change → List Field
  | set call => call.onFields log
  | erase key => log.filter fun field => !sameName key field.1
  | clear => []

/-- Whatever the header set is asked, it answers as this list of fields. -/
structure Represents (h : HttpHeaderSet) (log : List Field) : Prop where
  entries : h.entries.Perm log
  size : h.size = log.length
  has : ∀ key, h.has key = true ↔ ∃ field ∈ log, field.1.map toLower = key.map toLower
  getAll : ∀ key, h.getAll key = valuesOf key log
  get : ∀ key, h.get key ∈ valuesOf key log ∨ valuesOf key log = [] ∧ h.get key = []

theorem erase_refines {h : HttpHeaderSet} {log : List Field} (refines : Multimap.Refines h log) (key : Bytes) :
    Multimap.Refines (h.erase key) (log.filter fun field => !sameName key field.1) := by
  simp only [sameName_eq_equivalent]
  exact refines.erase key

theorem Change.refines {h : HttpHeaderSet} {log : List Field} (refines : Multimap.Refines h log) (change : Change) :
    Multimap.Refines (change.apply h) (change.record log) := by
  cases change with
  | set call =>
    obtain ⟨key, value, replace⟩ := call
    cases replace with
    | false => exact refines.emplace key value
    | true => exact (erase_refines refines key).emplace key value
  | erase key => exact erase_refines refines key
  | clear => exact .empty

theorem changes_refine (changes : List Change) :
    Multimap.Refines (changes.foldl Change.apply .empty) (changes.foldl Change.record []) := by
  have general : ∀ (h : HttpHeaderSet) (log : List Field), Multimap.Refines h log →
      Multimap.Refines (changes.foldl Change.apply h) (changes.foldl Change.record log) := by
    induction changes with
    | nil => exact fun _ _ refines => refines
    | cons change changes ih => exact fun _ _ refines => ih _ _ (change.refines refines)
  exact general .empty [] .empty

theorem getAll_of_refines {h : HttpHeaderSet} {log : List Field} (refines : Multimap.Refines h log) (key : Bytes) :
    h.getAll key = valuesOf key log := by
  rw [getAll, refines.range, valuesOf]
  simp only [sameName_eq_equivalent]

/-- A header that is found has one of the values of its name. -/
theorem get_mem_getAll (h : HttpHeaderSet) (key : Bytes) :
    h.get key ∈ h.getAll key ∨ h.getAll key = [] ∧ h.get key = [] := by
  rcases Multimap.find?_cases h key with ⟨missed, none⟩ | ⟨e, member, found⟩
  · exact .inr ⟨by rw [getAll, none, List.map_nil], by rw [get, missed]⟩
  · rw [get, found]
    exact .inl (List.mem_map_of_mem member)

theorem represents_of_refines {h : HttpHeaderSet} {log : List Field} (refines : Multimap.Refines h log) :
    h.Represents log where
  entries := refines.perm
  size := refines.perm.length_eq
  has key := by
    have held : h.has key = true ↔ Multimap.count h key ≠ 0 := decide_eq_true_iff
    rw [held, refines.count_ne_zero_iff]
    refine exists_congr fun field => and_congr_right fun _ => ?_
    rw [equivalent_iff, eq_comm]
  getAll := getAll_of_refines refines
  get key := by
    rw [← getAll_of_refines refines]
    exact h.get_mem_getAll key

theorem equivalent_eq_false_iff {a b : Bytes} :
    Multimap.equivalent caseInsensitiveLess a b = false ↔ a.map toLower ≠ b.map toLower := by
  rw [← Bool.not_eq_true, equivalent_iff]

/-- A header that was just set is found under every spelling of its name. -/
theorem get_set_spelling (h : HttpHeaderSet) (key value : Bytes) {spelling : Bytes}
    (same : spelling.map toLower = key.map toLower) : (h.set key value).get spelling = value := by
  have single : (h.set key value).getAll spelling = [value] := by
    rw [getAll_set_name, if_pos (equivalent_iff.mpr same), if_pos rfl, List.nil_append]
  rcases (h.set key value).get_mem_getAll spelling with found | ⟨none, -⟩
  · exact List.mem_singleton.mp (single ▸ found)
  · cases single.symm.trans none

/-- Names are in a strict weak order that ignores exactly their case, and over any calls the header set
is the list of the fields that were set, without those that were replaced or erased. -/
theorem represents_fields :
    IsStrictWeakOrder Bytes (fun a b => caseInsensitiveLess a b = true) ∧
      (∀ a b, caseInsensitiveLess a b = false ∧ caseInsensitiveLess b a = false ↔ a.map toLower = b.map toLower) ∧
      ∀ changes : List Change,
        Represents (changes.foldl Change.apply .empty) (changes.foldl Change.record []) ∧
        ∀ key value,
          (∀ spelling, spelling.map toLower = key.map toLower →
            (HttpHeaderSet.set (changes.foldl Change.apply .empty) key value).get spelling = value) ∧
          ∀ other replace, other.map toLower ≠ key.map toLower →
            (HttpHeaderSet.set (changes.foldl Change.apply .empty) key value replace).getAll other =
              HttpHeaderSet.getAll (changes.foldl Change.apply .empty) other := by
  refine ⟨inferInstance, fun a b => ?_, fun changes => ⟨represents_of_refines (changes_refine changes), fun key value =>
    ⟨fun spelling same => get_set_spelling _ key value same, fun other replace apart => ?_⟩⟩⟩
  · rw [← equivalent_iff]
    simp [Multimap.equivalent]
  · rw [getAll_set_name, equivalent_eq_false_iff.mpr apart, if_neg Bool.false_ne_true]

/-- A host that was set twice is replaced in both spellings, and cookies stay in their order. -/
example : (([.set ⟨bytes "Host", bytes "a", false⟩, .set ⟨bytes "Set-Cookie", bytes "c", false⟩,
    .set ⟨bytes "hOST", bytes "b", false⟩, .set ⟨bytes "set-cookie", bytes "d", false⟩,
    .set ⟨bytes "HOST", bytes "e", true⟩, .erase (bytes "x")] : List Change).foldl Change.apply .empty).entries =
    [(bytes "HOST", bytes "e"), (bytes "Set-Cookie", bytes "c"), (bytes "set-cookie", bytes "d")] := by decide

end HttpHeaderSet

end DockerPlugin

import DockerPlugin.Library.Multimap

namespace Multimap
variable {α β : Type} {less : α → α → Bool}

/-- The multimap holds the entries of a list that is in the order of their insertion, and those of a key
in that order. -/
structure Refines (m : Multimap α β less) (log : List (α × β)) : Prop where
  perm : m.entries.Perm log
  range : ∀ key, m.equalRange key = log.filter fun e => equivalent less key e.1

namespace Refines
variable {m : Multimap α β less} {log : List (α × β)}

theorem empty : Refines (.empty : Multimap α β less) [] := ⟨.refl _, fun _ => rfl⟩

theorem emplace [StrictWeak less] (refines : m.Refines log) (key : α) (value : β) :
    (m.emplace key value).Refines (log ++ [(key, value)]) where
  perm := ((m.emplace_perm key value).trans (refines.perm.cons _)).trans (List.perm_append_singleton _ _).symm
  range other := by
    rw [equalRange_emplace, refines.range, List.filter_append]
    by_cases same : equivalent less other key = true <;> simp [same]

theorem erase [StrictWeak less] (refines : m.Refines log) (key : α) :
    (m.erase key).Refines (log.filter fun e => !equivalent less key e.1) where
  perm := refines.perm.filter _
  range other := by
    have commute : ∀ entries : List (α × β),
        (entries.filter fun e => !equivalent less key e.1).filter (fun e => equivalent less other e.1) =
          (entries.filter fun e => equivalent less other e.1).filter fun e => !equivalent less key e.1 := by
      intro entries
      simp only [List.filter_filter, Bool.and_comm]
    have kept := refines.range other
    rw [equalRange] at kept ⊢
    rw [Multimap.erase, commute, kept, commute]

theorem count_ne_zero_iff (refines : m.Refines log) (key : α) :
    m.count key ≠ 0 ↔ ∃ e ∈ log, equivalent less key e.1 = true := by
  rw [Ne, count_eq_zero_iff]
  simp [refines.perm.mem_iff]

end Refines

/-- What is found is an entry of the key, and nothing only if there is none. -/
theorem find?_cases (m : Multimap α β less) (key : α) :
    (m.find? key = none ∧ m.equalRange key = []) ∨ ∃ e ∈ m.equalRange key, m.find? key = some e := by
  cases found : m.find? key with
  | none => exact .inl ⟨rfl, List.filter_eq_nil_iff.mpr (List.find?_eq_none.mp found)⟩
  | some e => exact .inr ⟨e, List.mem_filter.mpr ⟨List.mem_of_find?_eq_some found, @List.find?_some _ _ e _ found⟩, rfl⟩

end Multimap

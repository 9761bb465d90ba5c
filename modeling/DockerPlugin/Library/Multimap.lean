import Mathlib.Data.List.Lex
import Mathlib.Order.Lattice
import Mathlib.Tactic.Common

/-- A strict weak order, as the ordered containers of the C++ library ask for it: the
relation is asymmetric and its negation transitive. -/
class StrictWeak {α : Type} (less : α → α → Bool) : Prop where
  asymm {a b : α} : less a b = true → less b a = false
  negTrans {a b c : α} : less a b = false → less b c = false → less a c = false

theorem StrictWeak.ofKey {α κ : Type} [LinearOrder κ] {less : α → α → Bool} (key : α → κ)
    (byKey : ∀ a b, less a b = true ↔ key a < key b) : StrictWeak less where
  asymm := by
    intro a b before
    rw [byKey] at before
    simp only [← Bool.not_eq_true, byKey]
    exact before.not_gt
  negTrans := by
    intro a b c ab bc
    simp only [← Bool.not_eq_true, byKey, not_lt] at ab bc ⊢
    exact bc.trans ab

theorem StrictWeak.irrefl {α : Type} {less : α → α → Bool} [StrictWeak less] (a : α) : less a a = false := by
  cases self : less a a with
  | false => rfl
  | true => exact absurd (StrictWeak.asymm self) (by simp [self])

instance {α : Type} {less : α → α → Bool} [StrictWeak less] : IsStrictWeakOrder α fun a b => less a b = true where
  irrefl a := by simp [StrictWeak.irrefl a]
  trans a b c ab bc := by
    by_contra ac
    have ca : less a c = false := by simpa using ac
    exact absurd (StrictWeak.negTrans ca (StrictWeak.asymm bc)) (by simp [ab])
  incomp_trans a b c ab bc := by
    simp only [Bool.not_eq_true] at ab bc ⊢
    exact ⟨StrictWeak.negTrans ab.1 bc.1, StrictWeak.negTrans bc.2 ab.2⟩

/-- `std::lexicographical_compare`. -/
def lexicographicalCompare {α : Type} (less : α → α → Bool) : List α → List α → Bool
  | _, [] => false
  | [], _ :: _ => true
  | a :: as, b :: bs =>
    if less a b then true else if less b a then false else lexicographicalCompare less as bs

theorem lexicographicalCompare_key {α κ : Type} [LinearOrder κ] {less : α → α → Bool} (key : α → κ)
    (byKey : ∀ a b, less a b = true ↔ key a < key b) (as bs : List α) :
    lexicographicalCompare less as bs = true ↔ as.map key < bs.map key := by
  induction as generalizing bs with
  | nil => cases bs <;> simp [lexicographicalCompare]
  | cons a as ih =>
    cases bs with
    | nil => simp [lexicographicalCompare]
    | cons b bs =>
      simp only [lexicographicalCompare, byKey, List.map_cons, List.cons_lt_cons_iff]
      rcases lt_trichotomy (key a) (key b) with below | same | above
      · simp [below]
      · simp [same, ih]
      · simp [above, above.not_gt, above.ne']

/-- `std::multimap`: entries in key order, entries of equivalent keys in the order of their
insertion. -/
@[ext]
structure Multimap (α β : Type) (less : α → α → Bool) where
  entries : List (α × β)
  sorted : entries.Pairwise fun a b => less b.1 a.1 = false

namespace Multimap
variable {α β : Type} {less : α → α → Bool}

def empty : Multimap α β less := ⟨[], .nil⟩

/-- Keys that the order does not tell apart. -/
def equivalent (less : α → α → Bool) (a b : α) : Bool := !less a b && !less b a

/-- The position behind every entry that is not above `key`. -/
def upperBound (m : Multimap α β less) (key : α) : Nat :=
  (m.entries.takeWhile fun e => !less key e.1).length

theorem insert_sorted [StrictWeak less] {entries : List (α × β)} (key : α) (value : β)
    (sorted : entries.Pairwise fun a b => less b.1 a.1 = false) :
    ((entries.takeWhile fun e => !less key e.1) ++ (key, value) ::
      entries.dropWhile fun e => !less key e.1).Pairwise fun a b => less b.1 a.1 = false := by
  induction entries with
  | nil => simp
  | cons first rest ih =>
    obtain ⟨above, ordered⟩ := List.pairwise_cons.mp sorted
    cases order : less key first.1 with
    | true =>
      have low : less first.1 key = false := StrictWeak.asymm order
      simp only [List.takeWhile_cons, List.dropWhile_cons, order, Bool.not_true, Bool.false_eq_true, if_false,
        List.nil_append, List.pairwise_cons, List.mem_cons, forall_eq_or_imp]
      refine ⟨⟨low, fun other member => ?_⟩, above, ordered⟩
      exact StrictWeak.negTrans (above other member) low
    | false =>
      simp only [List.takeWhile_cons, List.dropWhile_cons, order, Bool.not_false, if_true, List.cons_append,
        List.pairwise_cons]
      refine ⟨fun other member => ?_, ih ordered⟩
      rcases List.mem_append.mp member with before | after
      · exact above other (List.takeWhile_subset _ before)
      · rcases List.mem_cons.mp after with rfl | later
        · exact order
        · exact above other ((List.dropWhile_suffix _).subset later)

/-- `emplace` puts the entry behind the entries of equivalent keys. -/
def emplace [StrictWeak less] (m : Multimap α β less) (key : α) (value : β) : Multimap α β less where
  entries := (m.entries.takeWhile fun e => !less key e.1) ++ (key, value) ::
    m.entries.dropWhile fun e => !less key e.1
  sorted := insert_sorted key value m.sorted

def erase (m : Multimap α β less) (key : α) : Multimap α β less where
  entries := m.entries.filter fun e => !equivalent less key e.1
  sorted := m.sorted.filter _

def count (m : Multimap α β less) (key : α) : Nat := m.entries.countP fun e => equivalent less key e.1

def find? (m : Multimap α β less) (key : α) : Option (α × β) :=
  m.entries.find? fun e => equivalent less key e.1

def equalRange (m : Multimap α β less) (key : α) : List (α × β) :=
  m.entries.filter fun e => equivalent less key e.1

/-- Writing through an iterator: the entry at a position gets a value and keeps its key. -/
def assign (m : Multimap α β less) (position : Nat) (value : β) : Multimap α β less where
  entries := m.entries.modify position fun e => (e.1, value)
  sorted := by
    have keys : (m.entries.modify position fun e => (e.1, value)).map Prod.fst = m.entries.map Prod.fst := by
      apply List.ext_getElem?
      intro i
      simp only [List.getElem?_map, List.getElem?_modify]
      split <;> cases m.entries[i]? <;> rfl
    have ordered : (m.entries.map Prod.fst).Pairwise fun a b => less b a = false :=
      List.pairwise_map.mpr m.sorted
    rw [← keys] at ordered
    exact List.pairwise_map.mp ordered

theorem emplace_perm [StrictWeak less] (m : Multimap α β less) (key : α) (value : β) :
    (m.emplace key value).entries.Perm ((key, value) :: m.entries) := by
  have parts : (m.entries.takeWhile fun e => !less key e.1) ++ (m.entries.dropWhile fun e => !less key e.1) =
      m.entries := List.takeWhile_append_dropWhile
  simpa only [emplace, parts] using
    @List.perm_middle _ (key, value) (m.entries.takeWhile fun e => !less key e.1)
      (m.entries.dropWhile fun e => !less key e.1)

theorem above_of_mem_dropWhile [StrictWeak less] (m : Multimap α β less) (key : α) {e : α × β}
    (member : e ∈ m.entries.dropWhile fun e => !less key e.1) : less key e.1 = true := by
  have ordered : (m.entries.dropWhile fun e => !less key e.1).Pairwise fun a b => less b.1 a.1 = false :=
    m.sorted.sublist (List.dropWhile_sublist _)
  cases tail : m.entries.dropWhile fun e => !less key e.1 with
  | nil => simp [tail] at member
  | cons first rest =>
    have start : less key first.1 = true := by
      have stops := List.head?_dropWhile_not (fun e => !less key e.1) m.entries
      rw [tail] at stops
      simpa using stops
    rw [tail] at member ordered
    rcases List.mem_cons.mp member with rfl | later
    · exact start
    · cases order : less key e.1 with
      | true => rfl
      | false =>
        have low := StrictWeak.negTrans order ((List.pairwise_cons.mp ordered).1 e later)
        simp [start] at low

/-- The position behind the entries of a key is where the next one of it goes. -/
theorem assign_emplace [StrictWeak less] (m : Multimap α β less) (key : α) (first value : β) :
    (m.emplace key first).assign (m.upperBound key) value = m.emplace key value := by
  ext1
  simp only [assign, emplace, upperBound]
  rw [List.modify_eq_take_drop, List.take_left, List.drop_left, List.modifyHead_cons]

theorem equivalent_self [StrictWeak less] (a : α) : equivalent less a a = true := by
  simp [equivalent, StrictWeak.irrefl a]

theorem equivalent_comm (a b : α) : equivalent less a b = equivalent less b a := Bool.and_comm _ _

theorem equivalent_trans [StrictWeak less] {a b c : α} (ab : equivalent less a b = true)
    (bc : equivalent less b c = true) : equivalent less a c = true := by
  simp only [equivalent, Bool.and_eq_true, Bool.not_eq_true'] at ab bc ⊢
  exact ⟨StrictWeak.negTrans ab.1 bc.1, StrictWeak.negTrans bc.2 ab.2⟩

theorem count_eq_zero_iff (m : Multimap α β less) (key : α) :
    m.count key = 0 ↔ ∀ e ∈ m.entries, equivalent less key e.1 = false := by
  simp [count]

theorem count_erase (m : Multimap α β less) (key : α) : (m.erase key).count key = 0 := by
  rw [count_eq_zero_iff]
  intro e member
  simpa using (List.mem_filter.mp member).2

theorem count_erase_other [StrictWeak less] (m : Multimap α β less) {key other : α}
    (apart : equivalent less key other = false) : (m.erase other).count key = m.count key := by
  simp only [count, erase, List.countP_filter]
  refine List.countP_congr fun e _ => ?_
  simp only [Bool.and_eq_true, Bool.not_eq_true']
  refine ⟨fun h => h.1, fun same => ⟨same, ?_⟩⟩
  rw [← Bool.not_eq_true]
  intro alsoOther
  rw [equivalent_comm] at alsoOther
  exact absurd (equivalent_trans same alsoOther) (by simp [apart])

theorem count_emplace [StrictWeak less] (m : Multimap α β less) (key other : α) (value : β) :
    (m.emplace other value).count key = m.count key + if equivalent less key other then 1 else 0 := by
  rw [count, (m.emplace_perm other value).countP_eq, List.countP_cons, count]

/-- Where no other entry has an equivalent key, an inserted entry is the one found. -/
theorem find?_emplace [StrictWeak less] (m : Multimap α β less) (key : α) (value : β)
    (fresh : m.count key = 0) : (m.emplace key value).find? key = some (key, value) := by
  have none : ∀ e ∈ m.entries, equivalent less key e.1 = false := (m.count_eq_zero_iff key).mp fresh
  have before : (m.entries.takeWhile fun e => !less key e.1).find? (fun e => equivalent less key e.1) = Option.none :=
    List.find?_eq_none.mpr fun e member => by simp [none e (List.takeWhile_subset _ member)]
  simp only [find?, emplace, List.find?_append, before, Option.none_or, List.find?_cons, equivalent_self]

/-- An insertion keeps the order in which the entries of a key were inserted. -/
theorem equalRange_emplace [StrictWeak less] (m : Multimap α β less) (key other : α) (value : β) :
    (m.emplace key value).equalRange other =
      m.equalRange other ++ if equivalent less other key then [(key, value)] else [] := by
  have parts : (m.entries.takeWhile fun e => !less key e.1) ++ (m.entries.dropWhile fun e => !less key e.1) =
      m.entries := List.takeWhile_append_dropWhile
  have whole : m.equalRange other =
      (m.entries.takeWhile fun e => !less key e.1).filter (fun e => equivalent less other e.1) ++
        (m.entries.dropWhile fun e => !less key e.1).filter fun e => equivalent less other e.1 := by
    rw [equalRange, ← List.filter_append, parts]
  rw [whole, equalRange, emplace, List.filter_append, List.filter_cons]
  by_cases same : equivalent less other key = true
  · -- every entry behind the new one is above it, so none of them has its key
    have behind : (m.entries.dropWhile fun e => !less key e.1).filter (fun e => equivalent less other e.1) = [] := by
      refine List.filter_eq_nil_iff.mpr fun e member alike => ?_
      have above := m.above_of_mem_dropWhile key member
      have joined : equivalent less key e.1 = true := equivalent_trans (equivalent_comm other key ▸ same) alike
      simp [equivalent, above] at joined
    simp [same, behind]
  · simp [same]

theorem equalRange_erase [StrictWeak less] (m : Multimap α β less) (key other : α) :
    (m.erase key).equalRange other = if equivalent less other key then [] else m.equalRange other := by
  rw [equalRange, erase, List.filter_filter]
  by_cases same : equivalent less other key = true
  · rw [if_pos same]
    refine List.filter_eq_nil_iff.mpr fun e _ both => ?_
    obtain ⟨alike, apart⟩ := Bool.and_eq_true_iff.mp both
    rw [equivalent_comm] at same
    simp [equivalent_trans same alike] at apart
  · rw [if_neg same, equalRange]
    refine List.filter_congr fun e _ => ?_
    cases alike : equivalent less other e.1 with
    | false => rfl
    | true =>
      have apart : equivalent less key e.1 = false := by
        rw [← Bool.not_eq_true, equivalent_comm]
        exact fun joined => same (equivalent_trans alike joined)
      simp [apart]

theorem find?_eq_none_iff (m : Multimap α β less) (key : α) : m.find? key = none ↔ m.count key = 0 := by
  rw [count_eq_zero_iff, find?, List.find?_eq_none]
  simp

end Multimap

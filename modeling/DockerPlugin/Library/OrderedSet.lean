import DockerPlugin.Library.Multimap

theorem StrictWeak.trans {α : Type} {less : α → α → Bool} [StrictWeak less] {a b c : α} (ab : less a b = true)
    (bc : less b c = true) : less a c = true := by
  by_contra apart
  have back : less c b = false := StrictWeak.asymm bc
  have none : less a b = false := StrictWeak.negTrans (Bool.eq_false_iff.mpr apart) back
  simp [none] at ab

/-- Lists in strictly increasing order are equal when they have the same elements. -/
theorem StrictWeak.eq_of_increasing {α : Type} {less : α → α → Bool} [StrictWeak less] {xs ys : List α}
    (first : xs.Pairwise fun a b => less a b = true) (second : ys.Pairwise fun a b => less a b = true)
    (same : xs.Perm ys) : xs = ys := by
  refine List.Perm.eq_of_pairwise (fun a b _ _ ab ba => ?_) first second same
  rw [StrictWeak.asymm ab] at ba
  cases ba

/-- `std::set`: elements in strictly increasing order. -/
@[ext]
structure OrderedSet (α : Type) (less : α → α → Bool) where
  entries : List α
  sorted : entries.Pairwise fun a b => less a b = true

namespace OrderedSet
variable {α : Type} {less : α → α → Bool}

def empty : OrderedSet α less := ⟨[], .nil⟩

/-- An element put in its place, unless an equivalent one is there. -/
def insertEntry (less : α → α → Bool) (x : α) : List α → List α
  | [] => [x]
  | y :: rest => if less x y then x :: y :: rest else if less y x then y :: insertEntry less x rest else y :: rest

theorem mem_insertEntry {x z : α} {entries : List α} (member : z ∈ insertEntry less x entries) :
    z = x ∨ z ∈ entries := by
  induction entries with
  | nil => exact Or.inl (List.mem_singleton.mp member)
  | cons y rest ih =>
    simp only [insertEntry] at member
    split at member
    · exact List.mem_cons.mp member
    · split at member
      · rcases List.mem_cons.mp member with same | later
        · exact Or.inr (by simp [same])
        · exact (ih later).imp_right (List.mem_cons_of_mem y)
      · exact Or.inr member

theorem insertEntry_sorted [StrictWeak less] (x : α) {entries : List α}
    (sorted : entries.Pairwise fun a b => less a b = true) :
    (insertEntry less x entries).Pairwise fun a b => less a b = true := by
  induction entries with
  | nil => exact List.pairwise_singleton _ _
  | cons y rest ih =>
    obtain ⟨first, later⟩ := List.pairwise_cons.mp sorted
    simp only [insertEntry]
    split
    · rename_i before
      refine List.pairwise_cons.mpr ⟨fun z member => ?_, sorted⟩
      rcases List.mem_cons.mp member with rfl | inRest
      · exact before
      · exact StrictWeak.trans before (first z inRest)
    · split
      · rename_i after
        refine List.pairwise_cons.mpr ⟨fun z member => ?_, ih later⟩
        rcases mem_insertEntry member with rfl | inRest
        · exact after
        · exact first z inRest
      · exact sorted

def insert [StrictWeak less] (s : OrderedSet α less) (x : α) : OrderedSet α less where
  entries := insertEntry less x s.entries
  sorted := insertEntry_sorted x s.sorted

theorem insertEntry_last [StrictWeak less] {x : α} {entries : List α} (above : ∀ y ∈ entries, less y x = true) :
    insertEntry less x entries = entries ++ [x] := by
  induction entries with
  | nil => rfl
  | cons y rest ih =>
    have before := above y List.mem_cons_self
    have notAfter : less x y = false := StrictWeak.asymm before
    simp only [insertEntry, notAfter, before, if_true, Bool.false_eq_true, if_false, List.cons_append,
      ih fun z member => above z (List.mem_cons_of_mem y member)]

/-- The set that a range of elements is inserted into. -/
def ofList [StrictWeak less] (xs : List α) : OrderedSet α less := xs.foldl insert empty

theorem foldl_insert_entries [StrictWeak less] {xs : List α} {s : OrderedSet α less}
    (sorted : (s.entries ++ xs).Pairwise fun a b => less a b = true) :
    (xs.foldl insert s).entries = s.entries ++ xs := by
  induction xs generalizing s with
  | nil => simp
  | cons x rest ih =>
    have above : ∀ y ∈ s.entries, less y x = true := fun y member =>
      (List.pairwise_append.mp sorted).2.2 y member x List.mem_cons_self
    have placed : (s.insert x).entries = s.entries ++ [x] := insertEntry_last above
    rw [List.foldl_cons, ih (by simpa [placed] using sorted), placed, List.append_assoc, List.singleton_append]

theorem insertEntry_perm {x : α} {entries : List α} (apart : ∀ y ∈ entries, less x y = true ∨ less y x = true) :
    (insertEntry less x entries).Perm (x :: entries) := by
  induction entries with
  | nil => exact .refl _
  | cons y rest ih =>
    simp only [insertEntry]
    by_cases before : less x y = true
    · rw [if_pos before]
    · rw [if_neg before]
      rcases apart y List.mem_cons_self with other | after
      · exact absurd other before
      · rw [if_pos after]
        have later := ih fun z member => apart z (List.mem_cons_of_mem y member)
        exact (later.cons y).trans (.swap x y rest)

theorem foldl_insert_perm [StrictWeak less] {xs : List α} {s : OrderedSet α less}
    (apart : (s.entries ++ xs).Pairwise fun a b => less a b = true ∨ less b a = true) :
    (xs.foldl insert s).entries.Perm (s.entries ++ xs) := by
  induction xs generalizing s with
  | nil => simp
  | cons x rest ih =>
    have added : (s.insert x).entries.Perm (x :: s.entries) := insertEntry_perm fun y member =>
      ((List.pairwise_append.mp apart).2.2 y member x List.mem_cons_self).symm
    have moved : (s.entries ++ x :: rest).Perm ((s.insert x).entries ++ rest) :=
      List.perm_middle.trans (added.symm.append_right rest)
    have stillApart := apart.perm moved Or.symm
    exact (ih stillApart).trans moved.symm

/-- The order in which elements are inserted does not matter where they can be told apart. -/
theorem ofList_perm [StrictWeak less] {xs ys : List α}
    (apart : xs.Pairwise fun a b => less a b = true ∨ less b a = true) (same : xs.Perm ys) :
    (ofList xs : OrderedSet α less) = ofList ys := by
  have first : (ofList xs : OrderedSet α less).entries.Perm xs := foldl_insert_perm apart
  have second : (ofList ys : OrderedSet α less).entries.Perm ys :=
    foldl_insert_perm (apart.perm same Or.symm)
  ext1
  exact StrictWeak.eq_of_increasing (ofList xs).sorted (ofList ys).sorted (first.trans (same.trans second.symm))

/-- Sets of elements that correspond to each other and are ordered alike. -/
theorem ofList_forall₂ [StrictWeak less] {R : α → α → Prop}
    (alike : ∀ {a b c d}, R a b → R c d → less a c = less b d) {xs ys : List α} (related : List.Forall₂ R xs ys) :
    List.Forall₂ R (ofList xs : OrderedSet α less).entries (ofList ys : OrderedSet α less).entries := by
  have one : ∀ {a b : α} {ms ns : List α}, R a b → List.Forall₂ R ms ns →
      List.Forall₂ R (insertEntry less a ms) (insertEntry less b ns) := by
    intro a b ms ns ab rest
    induction rest with
    | nil => exact .cons ab .nil
    | @cons c d ms ns cd rest ih =>
      simp only [insertEntry, alike ab cd, alike cd ab]
      split
      · exact .cons ab (.cons cd rest)
      · split
        · exact .cons cd ih
        · exact .cons cd rest
  have all : ∀ s t : OrderedSet α less, List.Forall₂ R s.entries t.entries →
      List.Forall₂ R (xs.foldl insert s).entries (ys.foldl insert t).entries := by
    induction related with
    | nil => exact fun _ _ start => start
    | cons ab _ ih => exact fun s t start => ih (s.insert _) (t.insert _) (one ab start)
  exact all empty empty .nil

/-- Elements in increasing order stay in that order. -/
theorem ofList_entries [StrictWeak less] {xs : List α} (sorted : xs.Pairwise fun a b => less a b = true) :
    (ofList xs : OrderedSet α less).entries = xs :=
  foldl_insert_entries sorted

end OrderedSet

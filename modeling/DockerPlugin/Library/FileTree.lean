import Mathlib.Data.List.Induction
import Mathlib.Data.List.Infix
import Mathlib.Data.List.Nodup

/-! A tree of directories and files as a finite table from locations to entries, and what each way to change
it changes. -/

/-- What stands at a location: a directory, or a file with what it holds. -/
inductive Entry (α : Type)
  | directory
  | file (a : α)
  deriving DecidableEq

/-- The names from an entry up to the root, the entry's own one first. -/
abbrev Location (ν : Type) := List ν

/-- Every entry is in a directory, which the root always is. -/
structure FileTree (ν α : Type) where
  table : List (Location ν × Entry α)
  unique : (table.map Prod.fst).Nodup
  rooted : ∀ e ∈ table, e.1 ≠ []
  held : ∀ e ∈ table, e.1.tail = [] ∨ (e.1.tail, .directory) ∈ table

namespace FileTree
variable {ν α : Type} [DecidableEq ν] (t : FileTree ν α)

def find? (loc : Location ν) : Option (Entry α) :=
  if loc = [] then some .directory else (t.table.find? fun e => e.1 = loc).map Prod.snd

/-- An entry as one of a directory, if it is in it. -/
def childOf (dir : Location ν) (e : Location ν × Entry α) : Option (ν × Entry α) :=
  match e.1 with
  | name :: parent => if parent = dir then some (name, e.2) else none
  | [] => none

/-- The names in a directory, in the order of the table, each with its entry. -/
def children (dir : Location ν) : List (ν × Entry α) := t.table.filterMap (childOf dir)

@[simp] theorem find?_root : t.find? [] = some .directory := if_pos rfl

variable {t}

theorem find?_eq_some_iff {loc : Location ν} (inside : loc ≠ []) {e : Entry α} :
    t.find? loc = some e ↔ (loc, e) ∈ t.table := by
  rw [find?, if_neg inside, Option.map_eq_some_iff]
  constructor
  · rintro ⟨⟨loc', e'⟩, found, rfl⟩
    have same : loc' = loc := by simpa using List.find?_some found
    exact same ▸ List.mem_of_find?_eq_some found
  · intro member
    cases found : t.table.find? fun e => e.1 = loc with
    | none => simpa using List.find?_eq_none.mp found (loc, e) member
    | some other =>
      have same : other.1 = loc := by simpa using List.find?_some found
      have equal : other = (loc, e) :=
        List.inj_on_of_nodup_map t.unique (List.mem_of_find?_eq_some found) member same
      exact ⟨other, rfl, by rw [equal]⟩

theorem childOf_eq_some_iff {dir : Location ν} {e : Location ν × Entry α} {c : ν × Entry α} :
    childOf dir e = some c ↔ e = (c.1 :: dir, c.2) := by
  obtain ⟨loc, e⟩ := e
  obtain ⟨name, e'⟩ := c
  cases loc with
  | nil => simp [childOf]
  | cons first parent => simp [childOf, and_comm, and_left_comm, and_assoc]

theorem mem_children {dir : Location ν} {name : ν} {e : Entry α} :
    (name, e) ∈ t.children dir ↔ t.find? (name :: dir) = some e := by
  simp [find?_eq_some_iff, children, childOf_eq_some_iff]

theorem children_nodup (dir : Location ν) : ((t.children dir).map Prod.fst).Nodup := by
  refine List.pairwise_map.mpr ((List.pairwise_map.mp t.unique).filterMap _ fun e e' apart c made c' made' same => ?_)
  rw [childOf_eq_some_iff.mp made, childOf_eq_some_iff.mp made', same] at apart
  exact apart rfl

/-- Whatever is somewhere is in a directory. -/
theorem parent {name : ν} {dir : Location ν} {e : Entry α} (there : t.find? (name :: dir) = some e) :
    t.find? dir = some .directory := by
  have member := (find?_eq_some_iff (List.cons_ne_nil name dir)).mp there
  rcases t.held _ member with top | inside
  · obtain rfl : dir = [] := top
    exact t.find?_root
  · by_cases root : dir = []
    · rw [root, t.find?_root]
    · exact (find?_eq_some_iff root).mpr inside

/-- So are all the locations above it. -/
theorem above {loc dir : Location ν} {e : Entry α} (there : t.find? loc = some e) (under : dir <:+ loc)
    (apart : dir ≠ loc) : t.find? dir = some .directory := by
  induction loc generalizing e with
  | nil => exact absurd (List.suffix_nil.mp under) apart
  | cons name loc ih =>
    rcases List.suffix_cons_iff.mp under with same | further
    · exact absurd same apart
    · by_cases here : dir = loc
      · exact here ▸ parent there
      · exact ih (parent there) further here

theorem nothing_below {loc dir : Location ν} (no : t.find? dir ≠ some .directory) (under : dir <:+ loc)
    (apart : dir ≠ loc) : t.find? loc = none := by
  cases there : t.find? loc with
  | none => rfl
  | some e => exact absurd (above there under apart) no

theorem children_eq_nil_iff {dir : Location ν} :
    t.children dir = [] ↔ ∀ name, t.find? (name :: dir) = none := by
  simp only [List.eq_nil_iff_forall_not_mem, Prod.forall, mem_children, Option.eq_none_iff_forall_ne_some]

theorem children_file {loc : Location ν} {a : α} (there : t.find? loc = some (.file a)) : t.children loc = [] := by
  refine children_eq_nil_iff.mpr fun name => nothing_below ?_ (List.suffix_cons name loc) (List.cons_ne_self name loc).symm
  rw [there]
  simp

variable (t)

/-- A tree with a new entry in one of its directories. -/
def add (name : ν) (dir : Location ν) (e : Entry α) (inside : t.find? dir = some .directory)
    (free : t.find? (name :: dir) = none) : FileTree ν α where
  table := t.table ++ [(name :: dir, e)]
  unique := by
    rw [List.map_append, List.map_singleton, List.nodup_append]
    refine ⟨t.unique, List.nodup_singleton _, fun loc known new single same => ?_⟩
    obtain ⟨⟨old, e'⟩, member, rfl⟩ := List.mem_map.mp known
    obtain rfl : old = name :: dir := same.trans (List.mem_singleton.mp single)
    rw [(find?_eq_some_iff (List.cons_ne_nil name dir)).mpr member] at free
    cases free
  rooted := by
    refine List.forall_mem_append.mpr ⟨t.rooted, List.forall_mem_singleton.mpr (List.cons_ne_nil name dir)⟩
  held := by
    refine List.forall_mem_append.mpr ⟨fun old member => ?_, List.forall_mem_singleton.mpr ?_⟩
    · exact (t.held old member).imp_right (List.mem_append_left _)
    · by_cases root : dir = []
      · exact .inl root
      · exact .inr (List.mem_append_left _ ((find?_eq_some_iff root).mp inside))

/-- An entry with something else in it, if it is the file at a location. -/
def refill (loc : Location ν) (a : α) (e : Location ν × Entry α) : Location ν × Entry α :=
  match e.2 with
  | .file _ => if e.1 = loc then (e.1, .file a) else e
  | .directory => e

theorem refill_fst (loc : Location ν) (a : α) (e : Location ν × Entry α) : (refill loc a e).1 = e.1 := by
  unfold refill
  split
  · split <;> rfl
  · rfl

/-- A tree with something else in one of its files. -/
def put (loc : Location ν) (a : α) : FileTree ν α where
  table := t.table.map (refill loc a)
  unique := by
    rw [List.map_map, show Prod.fst ∘ refill loc a = Prod.fst from funext (refill_fst loc a)]
    exact t.unique
  rooted := List.forall_mem_map.mpr fun e member => by
    rw [refill_fst]
    exact t.rooted e member
  held := List.forall_mem_map.mpr fun e member => by
    rw [refill_fst]
    exact (t.held e member).imp_right fun inside => List.mem_map.mpr ⟨_, inside, rfl⟩

/-- A tree without an entry that has nothing below it. -/
def remove (loc : Location ν) (empty : t.children loc = []) : FileTree ν α where
  table := t.table.filter fun e => e.1 ≠ loc
  unique := t.unique.sublist (List.filter_sublist.map _)
  rooted e member := t.rooted e (List.mem_filter.mp member).1
  held e member := by
    obtain ⟨known, -⟩ := List.mem_filter.mp member
    refine (t.held e known).imp_right fun inside => List.mem_filter.mpr ⟨inside, decide_eq_true ?_⟩
    intro same
    obtain ⟨name, dir, whole⟩ := List.exists_cons_of_ne_nil (t.rooted e known)
    have gone := children_eq_nil_iff.mp empty name
    rw [← same, whole, List.tail_cons, ← whole] at gone
    rw [(find?_eq_some_iff (t.rooted e known)).mpr known] at gone
    cases gone

variable {t}

theorem find?_add {name : ν} {dir : Location ν} {e : Entry α} (inside : t.find? dir = some .directory)
    (free : t.find? (name :: dir) = none) (loc : Location ν) :
    (t.add name dir e inside free).find? loc = if loc = name :: dir then some e else t.find? loc := by
  by_cases root : loc = []
  · subst root
    simp
  · refine Option.ext fun e' => ?_
    rw [find?_eq_some_iff root, add, List.mem_append, List.mem_singleton, Prod.mk.injEq]
    split
    · next here =>
      subst here
      have absent : (name :: dir, e') ∉ t.table := fun member => by
        rw [(find?_eq_some_iff root).mpr member] at free
        cases free
      simp [absent, eq_comm]
    · next other => simp [other, find?_eq_some_iff root]

theorem find?_put {loc : Location ν} {old : α} (there : t.find? loc = some (.file old)) (a : α) (loc' : Location ν) :
    (t.put loc a).find? loc' = if loc' = loc then some (.file a) else t.find? loc' := by
  by_cases root : loc' = []
  · subst root
    have apart : [] ≠ loc := by
      rintro rfl
      rw [find?_root] at there
      cases there
    simp [apart]
  · have keys : (fun e : Location ν × Entry α => decide (e.1 = loc')) ∘ refill loc a = fun e => decide (e.1 = loc') :=
      funext fun e => by simp [refill_fst]
    have filled : (t.put loc a).find? loc' = (t.table.find? fun e => e.1 = loc').map fun e => (refill loc a e).2 := by
      rw [find?, if_neg root, put, List.find?_map, keys, Option.map_map]
      rfl
    have plain : t.find? loc' = (t.table.find? fun e => e.1 = loc').map Prod.snd := if_neg root
    rw [filled]
    split
    · next here =>
      subst here
      rw [plain, Option.map_eq_some_iff] at there
      obtain ⟨⟨at', e⟩, found, rfl⟩ := there
      obtain rfl : at' = loc' := by simpa using List.find?_some found
      rw [found]
      simp [refill]
    · next other =>
      rw [plain]
      refine Option.map_congr fun e found => ?_
      have place : e.1 = loc' := by simpa using List.find?_some found
      unfold refill
      split
      · rw [if_neg (place ▸ other)]
      · rfl

theorem find?_remove {loc : Location ν} (inside : loc ≠ []) (empty : t.children loc = []) (loc' : Location ν) :
    (t.remove loc empty).find? loc' = if loc' = loc then none else t.find? loc' := by
  by_cases root : loc' = []
  · subst root
    simp [Ne.symm inside]
  · refine Option.ext fun e' => ?_
    rw [find?_eq_some_iff root, remove, List.mem_filter]
    split
    · next here => simp [here]
    · next other => simp [other, find?_eq_some_iff root]

theorem exists_of_put {loc loc' : Location ν} {a : α} {e : Entry α} (there : (t.put loc a).find? loc' = some e) :
    ∃ e', t.find? loc' = some e' := by
  by_cases root : loc' = []
  · exact ⟨.directory, root ▸ t.find?_root⟩
  · obtain ⟨⟨old, e'⟩, member, same⟩ := List.mem_map.mp ((find?_eq_some_iff root).mp there)
    have place := refill_fst loc a (old, e')
    rw [same] at place
    obtain rfl : loc' = old := place
    exact ⟨e', (find?_eq_some_iff root).mpr member⟩

theorem exists_of_remove {loc loc' : Location ν} {empty : t.children loc = []} {e : Entry α}
    (there : (t.remove loc empty).find? loc' = some e) : t.find? loc' = some e := by
  by_cases root : loc' = []
  · subst root
    exact there
  · exact (find?_eq_some_iff root).mpr (List.mem_filter.mp ((find?_eq_some_iff root).mp there)).1

/-- A tree as it was, but for what is gone. -/
structure Without (t t' : FileTree ν α) (gone : Location ν → Prop) : Prop where
  absent : ∀ loc, gone loc → t'.find? loc = none
  kept : ∀ loc, ¬ gone loc → t'.find? loc = t.find? loc

namespace Without
variable {t t' t'' : FileTree ν α} {gone later : Location ν → Prop}

theorem refl (t : FileTree ν α) : Without t t fun _ => False := ⟨fun _ no => no.elim, fun _ _ => rfl⟩

theorem remove {loc : Location ν} (inside : loc ≠ []) (empty : t.children loc = []) :
    Without t (t.remove loc empty) (· = loc) where
  absent loc' here := by rw [find?_remove inside, if_pos here]
  kept loc' other := by rw [find?_remove inside, if_neg other]

theorem trans (first : Without t t' gone) (second : Without t' t'' later) : Without t t'' fun loc => gone loc ∨ later loc where
  absent loc there := by
    by_cases again : later loc
    · exact second.absent loc again
    · rw [second.kept loc again, first.absent loc (there.resolve_right again)]
  kept loc stays := by
    rw [second.kept loc fun no => stays (.inr no), first.kept loc fun no => stays (.inl no)]

theorem congr (first : Without t t' gone) (same : ∀ loc, later loc ↔ gone loc) : Without t t' later :=
  ⟨fun loc there => first.absent loc ((same loc).mp there), fun loc stays => first.kept loc fun no => stays ((same loc).mpr no)⟩

/-- A directory goes away with everything below it when its entries do, and then itself. -/
theorem directory {dir : Location ν}
    (first : Without t t' fun loc => (∃ c ∈ t.children dir, (c.1 :: dir) <:+ loc) ∨ loc = dir) :
    Without t t' fun loc => dir <:+ loc where
  absent loc under := by
    by_cases known : (∃ c ∈ t.children dir, (c.1 :: dir) <:+ loc) ∨ loc = dir
    · exact first.absent loc known
    · rw [first.kept loc known]
      obtain ⟨names, rfl⟩ := under
      cases names using List.reverseRecOn with
      | nil => exact absurd (.inr rfl) known
      | append_singleton names name =>
        have below : (name :: dir) <:+ names ++ [name] ++ dir := ⟨names, by simp⟩
        cases there : t.find? (name :: dir) with
        | some e => exact absurd (.inl ⟨(name, e), mem_children.mpr there, below⟩) known
        | none =>
          by_cases here : name :: dir = names ++ [name] ++ dir
          · rw [← here, there]
          · exact nothing_below (by rw [there]; exact (Option.some_ne_none _).symm) below here
  kept loc outside := by
    refine first.kept loc fun no => outside ?_
    rcases no with ⟨c, -, below⟩ | rfl
    · exact (List.suffix_cons c.1 dir).trans below
    · exact List.suffix_rfl

/-- With what is no directory, nothing else goes away. -/
theorem below {loc : Location ν} (no : t.find? loc ≠ some .directory) (first : Without t t' (· = loc)) :
    Without t t' fun loc' => loc <:+ loc' where
  absent loc' under := by
    by_cases here : loc' = loc
    · exact first.absent loc' here
    · rw [first.kept loc' here, nothing_below no under (Ne.symm here)]
  kept loc' outside := first.kept loc' fun here => outside (here ▸ List.suffix_rfl)

end Without

/-- A tree as it was, but for some of what was at a location and below it. -/
structure Thinned (t t' : FileTree ν α) (loc : Location ν) : Prop where
  old : ∀ loc' e, t'.find? loc' = some e → t.find? loc' = some e
  outside : ∀ loc', ¬ loc <:+ loc' → t'.find? loc' = t.find? loc'

namespace Thinned
variable {t t' t'' : FileTree ν α} {loc dir : Location ν}

theorem refl (t : FileTree ν α) (loc : Location ν) : Thinned t t loc := ⟨fun _ _ there => there, fun _ _ => rfl⟩

theorem trans (first : Thinned t t' loc) (second : Thinned t' t'' loc) : Thinned t t'' loc where
  old loc' e there := first.old loc' e (second.old loc' e there)
  outside loc' no := (second.outside loc' no).trans (first.outside loc' no)

theorem above (first : Thinned t t' loc) (under : dir <:+ loc) : Thinned t t' dir where
  old := first.old
  outside loc' no := first.outside loc' fun further => no (under.trans further)

theorem none (first : Thinned t t' loc) {loc' : Location ν} (there : t.find? loc' = none) : t'.find? loc' = none := by
  cases known : t'.find? loc' with
  | none => rfl
  | some e =>
    rw [first.old loc' e known] at there
    cases there

end Thinned

theorem Without.thinned {t t' : FileTree ν α} {gone : Location ν → Prop} {loc : Location ν} (first : Without t t' gone)
    (under : ∀ loc', gone loc' → loc <:+ loc') : Thinned t t' loc where
  old loc' e there := by
    by_cases no : gone loc'
    · rw [first.absent loc' no] at there
      cases there
    · rw [← first.kept loc' no, there]
  outside loc' outside := first.kept loc' fun no => outside (under loc' no)

variable (t) in
/-- What holds of every entry at a location and below it, with the names that lead down to it. -/
def Throughout (loc : Location ν) (holds : List ν → Entry α → Prop) : Prop :=
  ∀ names e, t.find? (names ++ loc) = some e → holds names e

section
variable {loc : Location ν} {holds : List ν → Entry α → Prop}

/-- Nothing is below a file. -/
theorem throughout_file {a : α} (there : t.find? loc = some (.file a)) : t.Throughout loc holds ↔ holds [] (.file a) := by
  refine ⟨fun all => all [] _ there, fun first names e known => ?_⟩
  by_cases here : loc = names ++ loc
  · obtain rfl : names = [] := List.append_left_eq_self.mp here.symm
    obtain rfl : Entry.file a = e := Option.some.inj (there.symm.trans known)
    exact first
  · rw [nothing_below (by simp [there]) (List.suffix_append names loc) here] at known
    cases known

theorem throughout_directory (there : t.find? loc = some .directory) :
    t.Throughout loc holds ↔ holds [] .directory ∧
      ∀ c ∈ t.children loc, t.Throughout (c.1 :: loc) fun names e => holds (names ++ [c.1]) e := by
  constructor
  · intro all
    refine ⟨all [] _ there, fun c _ names e known => all (names ++ [c.1]) e ?_⟩
    simpa using known
  · rintro ⟨first, each⟩ names e known
    cases names using List.reverseRecOn with
    | nil =>
      obtain rfl : Entry.directory = e := Option.some.inj (there.symm.trans known)
      exact first
    | append_singleton names name =>
      have known : t.find? (names ++ name :: loc) = some e := by simpa using known
      obtain ⟨e', first⟩ : ∃ e', t.find? (name :: loc) = some e' := by
        by_cases here : name :: loc = names ++ name :: loc
        · exact ⟨e, here ▸ known⟩
        · exact ⟨.directory, above known (List.suffix_append _ _) here⟩
      exact each (name, e') (mem_children.mpr first) names e known

theorem throughout_congr {t' : FileTree ν α} (same : ∀ names, t'.find? (names ++ loc) = t.find? (names ++ loc)) :
    t'.Throughout loc holds ↔ t.Throughout loc holds := by
  simp only [Throughout, same]

end

end FileTree

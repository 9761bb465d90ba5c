import DockerPlugin.Library.PosixFilesLaws
import DockerPlugin.SampleVolume

namespace DockerPlugin.SampleVolume
open Octets Posix FileTree

/-! ### Removal -/

/-- The path below a path by the names that lead down from it. -/
def pathBelow (path : Bytes) (names : List Bytes) : Bytes := path ++ names.reverse.flatMap (47 :: ·)

theorem pathBelow_append (path name : Bytes) (names : List Bytes) :
    pathBelow path (names ++ [name]) = pathBelow (path ++ 47 :: name) names := by
  simp [pathBelow]

/-- What an entry needs to be removed by a path: that it is found, that it may be taken away, and for a directory
that it can be opened with one more descriptor. -/
structure Goes (rules : Rules) (free : Nat) (path : Bytes) (loc : Location Bytes) (e : Entry Node) : Prop where
  found : rules.Finds path loc.tail
  granted : rules.grants .remove loc = true
  opened : e = .directory → 0 < free ∧ rules.grants .list loc = true

/-- Everything at a location and below it goes, with a descriptor for each directory on the way down, and the
directories below are known for what they are. -/
def Removable (files : Files) (free : Nat) (path : Bytes) (loc : Location Bytes) : Prop :=
  files.tree.Throughout loc fun names e =>
    Goes files.rules (free - names.length) (pathBelow path names) (names ++ loc) e ∧
      (names ≠ [] → e = .directory → files.rules.typed (names ++ loc).tail = true)

section
variable {files : Files} {path : Bytes} {loc : Location Bytes} {free : Nat}

theorem removable_file {node : Node} (there : files.tree.find? loc = some (.file node)) :
    Removable files free path loc ↔ files.rules.Finds path loc.tail ∧ files.rules.grants .remove loc = true := by
  have bare : pathBelow path [] = path := by simp [pathBelow]
  rw [Removable, throughout_file there, bare]
  exact ⟨fun goes => ⟨goes.1.found, goes.1.granted⟩, fun ⟨found, granted⟩ =>
    ⟨⟨found, granted, fun same => by cases same⟩, fun none => absurd rfl none⟩⟩

/-- A directory goes after its entries. -/
theorem removable_directory (there : files.tree.find? loc = some .directory) :
    Removable files (free + 1) path loc ↔ Goes files.rules (free + 1) path loc .directory ∧
      ∀ c ∈ files.tree.children loc, (c.2 = .directory → files.rules.typed loc = true) ∧
        Removable files free (path ++ 47 :: c.1) (c.1 :: loc) := by
  have bare : pathBelow path [] = path := by simp [pathBelow]
  rw [Removable, throughout_directory there, bare]
  refine and_congr (by simp) (forall₂_congr fun c member => ?_)
  have count : ∀ names : List Bytes, free + 1 - (names ++ [c.1]).length = free - names.length := fun names => by
    rw [List.length_append, List.length_singleton]
    omega
  have whole : ∀ names : List Bytes, names ++ [c.1] ++ loc = names ++ c.1 :: loc := fun names => by simp
  have known : files.tree.find? (c.1 :: loc) = some c.2 := FileTree.mem_children.mp member
  simp only [count, whole, pathBelow_append]
  constructor
  · intro all
    refine ⟨(all [] c.2 known).2 (by simp), fun names e below => ?_⟩
    exact (all names e below).imp_right fun typed _ => typed (by simp)
  · rintro ⟨typed, all⟩ names e below
    obtain ⟨goes, inner⟩ := all names e below
    refine ⟨goes, fun _ directory => ?_⟩
    cases names with
    | nil => exact typed (Option.some.inj (known.symm.trans below) ▸ directory)
    | cons name names => exact inner (List.cons_ne_nil name names) directory

theorem removable_empty (there : files.tree.find? loc = some .directory) (empty : files.tree.children loc = [])
    (goes : Goes files.rules free path loc .directory) : Removable files free path loc := by
  cases free with
  | zero => exact absurd (goes.opened rfl).1 (Nat.not_lt_zero 0)
  | succ free => exact (removable_directory there).mpr ⟨goes, by simp [empty]⟩

theorem removable_congr {files' : Files} (rules : files'.rules = files.rules)
    (same : ∀ names, files'.tree.find? (names ++ loc) = files.tree.find? (names ++ loc)) :
    Removable files' free path loc ↔ Removable files free path loc := by
  rw [Removable, Removable, rules]
  exact throughout_congr same

theorem not_removable (there : files.tree.find? loc = some .directory) : ¬ Removable files 0 path loc := fun all =>
  absurd ((all [] .directory there).1.opened rfl).1 (Nat.not_lt_zero _)

end

/-- What an attempt to remove all that is at a location does: nothing goes away but there, all of it does exactly
if it can, and what is below it only if it cannot. -/
structure Removes (files : Files) (loc : Location Bytes) (fits : Prop) (r : Bool × Files) : Prop where
  thinned : Thinned files.tree r.2.tree loc
  rules : r.2.rules = files.rules
  done : r.1 = true ↔ fits
  whole : r.1 = true → Without files.tree r.2.tree (loc <:+ ·)
  left : r.1 = false → r.2.tree.find? loc = files.tree.find? loc

theorem Removes.nothing {files : Files} {loc : Location Bytes} {fits : Prop} (no : ¬ fits) :
    Removes files loc fits (false, files) :=
  ⟨.refl _ _, rfl, ⟨fun none => absurd none Bool.false_ne_true, fun yes => absurd yes no⟩,
    fun none => absurd none Bool.false_ne_true, fun _ => rfl⟩

theorem names_apart {a b : Bytes} (apart : a ≠ b) (loc names : Location Bytes) : ¬ a :: loc <:+ names ++ b :: loc := by
  intro under
  have same : a :: loc = b :: loc := List.suffix_of_suffix_length_le under (List.suffix_append _ _) (by simp) |>.eq_of_length (by simp)
  exact apart (List.cons.inj same).1

/-- Removing under one name leaves what is under another. -/
theorem Removes.removable_iff {files : Files} {a b : Bytes} {loc : Location Bytes} {fits : Prop} {r : Bool × Files}
    (first : Removes files (a :: loc) fits r) (apart : a ≠ b) (free : Nat) (path : Bytes) :
    Removable r.2 free path (b :: loc) ↔ Removable files free path (b :: loc) :=
  removable_congr first.rules fun names => first.thinned.outside _ (names_apart apart loc names)

section
variable {files : Files} {path : Bytes} {loc : Location Bytes} {name : Bytes}

/-- What is no symbolic link is looked at as it is. -/
theorem isDir_child (leads : Leads path loc) (valid : ValidName name) (reached : files.Reached loc)
    (noLink : ∀ text, files.tree.find? (name :: loc) ≠ some (.file (.link text)))
    (found : files.rules.Finds (path ++ 47 :: name) loc) :
    Util.isDir files (path ++ 47 :: name) = (files.tree.find? (name :: loc)).any fun e => mode e &&& 0x4000 ≠ 0 := by
  rw [Util.isDir, leads.stat valid reached noLink, if_pos found]
  cases files.tree.find? (name :: loc) <;> rfl

theorem removeFile_removes (leads : Leads path loc) (valid : ValidName name) (reached : files.Reached loc) {node : Node}
    (there : files.tree.find? (name :: loc) = some (.file node)) (free : Nat) :
    Removes files (name :: loc) (Removable files free (path ++ 47 :: name) (name :: loc))
      (Util.removeFile files (path ++ 47 :: name)) := by
  obtain ⟨done, without⟩ := leads.unlink valid reached
  rw [removable_file there, List.tail_cons]
  by_cases fits : files.rules.Finds (path ++ 47 :: name) loc ∧ files.rules.grants .remove (name :: loc) = true
  · have removed : (Util.removeFile files (path ++ 47 :: name)).1 = true := done.mpr ⟨⟨node, there⟩, fits⟩
    have only : Without files.tree (Util.removeFile files (path ++ 47 :: name)).2.tree (· = name :: loc) :=
      without.congr fun loc' => by simp [there, fits]
    have whole := only.below (by simp [there])
    exact ⟨whole.thinned fun _ under => under, Files.unlink_rules files _, by simpa [fits] using removed, fun _ => whole,
      fun failed => absurd (removed.symm.trans failed) Bool.true_eq_false.mp⟩
  · have same : Without files.tree (Util.removeFile files (path ++ 47 :: name)).2.tree fun _ => False :=
      without.congr fun loc' => by simp [fits]
    have failed : ¬ (Util.removeFile files (path ++ 47 :: name)).1 = true := fun removed => fits (done.mp removed).2
    exact ⟨same.thinned fun _ none => none.elim, Files.unlink_rules files _, by simpa [fits] using failed,
      fun removed => absurd removed failed, fun _ => same.kept _ id⟩

/-- What is not said to be a directory is not removed as one. -/
theorem removeFile_directory (leads : Leads path loc) (valid : ValidName name) (reached : files.Reached loc)
    (there : files.tree.find? (name :: loc) = some .directory) {fits : Prop} (no : ¬ fits) :
    Removes files (name :: loc) fits (Util.removeFile files (path ++ 47 :: name)) := by
  obtain ⟨done, without⟩ := leads.unlink valid reached
  have same : Without files.tree (Util.removeFile files (path ++ 47 :: name)).2.tree fun _ => False :=
    without.congr fun loc' => by simp [there]
  have failed : ¬ (Util.removeFile files (path ++ 47 :: name)).1 = true := fun removed => by
    obtain ⟨⟨node, file⟩, -⟩ := done.mp removed
    rw [there] at file
    cases file
  exact ⟨same.thinned fun _ none => none.elim, Files.unlink_rules files _, by simpa [no] using failed,
    fun removed => absurd removed failed, fun _ => same.kept _ id⟩

/-- The loop over the entries of a directory, whose callback removes each of them. -/
theorem loopEntries_removes {cb : Bytes → Bool → Files → Bool × Files} {free : Nat} {cs : List (Bytes × Entry Node)}
    {rules : Rules}
    (each : ∀ c ∈ cs, ∀ files : Files, files.rules = rules → files.tree.find? loc = some .directory →
      files.tree.find? (c.1 :: loc) = some c.2 →
      Removes files (c.1 :: loc)
        ((c.2 = .directory → rules.typed loc = true) ∧ Removable files free (path ++ 47 :: c.1) (c.1 :: loc))
        (cb c.1 (rules.typed loc && decide (c.2 = .directory)) files))
    (names : (cs.map Prod.fst).Nodup) (present : ∀ c ∈ cs, files.tree.find? (c.1 :: loc) = some c.2)
    (same : files.rules = rules) (directory : files.tree.find? loc = some .directory) :
    let r := Util.loopEntries cb (cs.map fun c => (c.1, rules.typed loc && decide (c.2 = .directory))) files
    Thinned files.tree r.2.tree loc ∧ r.2.rules = rules ∧ r.2.tree.find? loc = some .directory ∧
      (r.1 = true ↔ ∀ c ∈ cs, (c.2 = .directory → rules.typed loc = true) ∧
        Removable files free (path ++ 47 :: c.1) (c.1 :: loc)) ∧
      (r.1 = true → Without files.tree r.2.tree fun loc' => ∃ c ∈ cs, (c.1 :: loc) <:+ loc') := by
  induction cs generalizing files with
  | nil =>
    exact ⟨.refl _ _, same, directory, by simp [Util.loopEntries],
      fun _ => (Without.refl _).congr fun loc' => by simp⟩
  | cons c cs ih =>
    obtain ⟨first, later⟩ := List.forall_mem_cons.mp each
    obtain ⟨here, others⟩ := List.forall_mem_cons.mp present
    obtain ⟨fresh, names⟩ := List.nodup_cons.mp names
    have apart : ∀ c' ∈ cs, c.1 ≠ c'.1 := fun c' member same => fresh (same ▸ List.mem_map_of_mem member)
    have step := first files same directory here
    have below : ¬ c.1 :: loc <:+ loc := fun under => absurd under.length_le (by simp)
    cases outcome : cb c.1 (rules.typed loc && decide (c.2 = .directory)) files with
    | mk went files' =>
      rw [outcome] at step
      have stays : files'.tree.find? loc = some .directory := (step.thinned.outside loc below).trans directory
      have kept : files'.rules = rules := step.rules.trans same
      cases went with
      | false =>
        have no := mt step.done.mpr Bool.false_ne_true
        simp only [List.map_cons, Util.loopEntries, outcome]
        refine ⟨step.thinned.above (List.suffix_cons c.1 loc), kept, stays,
          ⟨fun none => absurd none Bool.false_ne_true, fun all => ?_⟩, fun none => absurd none Bool.false_ne_true⟩
        exact absurd (all c List.mem_cons_self) no
      | true =>
        have still : ∀ c' ∈ cs, files'.tree.find? (c'.1 :: loc) = files.tree.find? (c'.1 :: loc) := fun c' member =>
          step.thinned.outside _ (names_apart (apart c' member) loc [])
        obtain ⟨thinned, rest, there, done, whole⟩ :=
          ih later names (fun c' member => (still c' member).trans (others c' member)) kept stays
        simp only [List.map_cons, Util.loopEntries, outcome]
        refine ⟨(step.thinned.above (List.suffix_cons c.1 loc)).trans thinned, rest, there, ?_, fun went => ?_⟩
        · rw [done, List.forall_mem_cons, and_iff_right (step.done.mp rfl)]
          refine forall₂_congr fun c' member => and_congr_right fun _ => ?_
          exact step.removable_iff (apart c' member) free _
        · exact ((step.whole rfl).trans (whole went)).congr fun loc' => by simp

/-- The entries that the callback does not pass over are those of the directory. -/
theorem loopDir_removeEntry (leads : Leads path loc) (valid : ValidName name) (reached : files.Reached loc)
    (there : files.tree.find? (name :: loc) = some .directory)
    (opens : files.rules.Finds (path ++ 47 :: name) loc ∧ files.rules.grants .list (name :: loc) = true)
    (removeDir : Bytes → Files → Bool × Files) :
    Util.loopDir files (path ++ 47 :: name) (Util.removeEntry removeDir (path ++ 47 :: name)) files =
      Util.loopEntries (Util.removeEntry removeDir (path ++ 47 :: name))
        ((files.tree.children (name :: loc)).map fun c =>
          (c.1, files.rules.typed (name :: loc) && decide (c.2 = .directory))) files := by
  rw [Util.loopDir, leads.readDir valid reached there, if_pos opens]
  simp [Util.loopEntries, Util.removeEntry]

/-- The callback removes an entry, a directory only if it is said to be one. -/
theorem removeEntry_removes {removeDir : Bytes → Files → Bool × Files} {free : Nat} {e : Entry Node}
    (leads : Leads path loc) (reached : files.Reached loc) (present : files.tree.find? (name :: loc) = some e)
    (nested : files.tree.find? (name :: loc) = some .directory →
      Removes files (name :: loc) (Removable files free (path ++ 47 :: name) (name :: loc))
        (removeDir (path ++ 47 :: name) files)) :
    Removes files (name :: loc)
      ((e = .directory → files.rules.typed loc = true) ∧ Removable files free (path ++ 47 :: name) (name :: loc))
      (Util.removeEntry removeDir path name (files.rules.typed loc && decide (e = .directory)) files) := by
  have valid : ValidName name := files.named name loc e present
  rw [Util.removeEntry, if_neg (not_or.mpr ⟨valid.notHere, valid.notUp⟩)]
  cases e with
  | directory =>
    cases typed : files.rules.typed loc with
    | true => simpa using nested present
    | false => exact removeFile_directory leads valid reached present (by simp)
  | file node => simpa using removeFile_removes leads valid reached present free

/-- A directory is removed after its entries, if that is granted. -/
theorem rmdir_removes {files' : Files} {free : Nat} (leads : Leads path loc) (valid : ValidName name)
    (reached : files.Reached loc) (there : files.tree.find? (name :: loc) = some .directory)
    (opens : files.rules.Finds (path ++ 47 :: name) loc ∧ files.rules.grants .list (name :: loc) = true)
    (thinned : Thinned files.tree files'.tree (name :: loc)) (rules : files'.rules = files.rules)
    (stays : files'.tree.find? (name :: loc) = some .directory)
    (gone : Without files.tree files'.tree fun loc' => ∃ c ∈ files.tree.children (name :: loc), (c.1 :: name :: loc) <:+ loc') :
    Removes files (name :: loc) (Goes files.rules (free + 1) (path ++ 47 :: name) (name :: loc) .directory)
      (files'.rmdir (path ++ 47 :: name)) := by
  have empty : files'.tree.children (name :: loc) = [] := FileTree.children_eq_nil_iff.mpr fun n => by
    cases known : files.tree.find? (n :: name :: loc) with
    | none => exact thinned.none known
    | some e => exact gone.absent _ ⟨(n, e), FileTree.mem_children.mpr known, List.suffix_rfl⟩
  have last := leads.rmdir valid (reached.kept rules (FileTree.parent stays)) (rules ▸ opens.1)
  rw [dif_pos empty, rules] at last
  by_cases granted : files.rules.grants .remove (name :: loc) = true
  · rw [if_pos ⟨stays, granted⟩] at last
    have all : Without files.tree (files'.drop (name :: loc) empty).tree (name :: loc <:+ ·) :=
      (gone.trans (Without.remove (List.cons_ne_nil _ _) empty)).directory
    rw [last]
    exact ⟨all.thinned fun _ under => under, rules,
      iff_of_true rfl ⟨opens.1, granted, fun _ => ⟨Nat.succ_pos free, opens.2⟩⟩, fun _ => all,
      fun none => absurd none.symm Bool.false_ne_true⟩
  · rw [if_neg fun both => granted both.2] at last
    rw [last]
    exact ⟨thinned, rules, ⟨fun none => absurd none Bool.false_ne_true, fun goes => absurd goes.granted granted⟩,
      fun none => absurd none Bool.false_ne_true, fun _ => stays.trans there.symm⟩

/-- `remove_dir` changes nothing outside of the directory, and removes it with everything in it exactly if all of it
can be removed. -/
theorem removeDir_removes (free : Nat) (leads : Leads path loc) (valid : ValidName name) (reached : files.Reached loc)
    (there : files.tree.find? (name :: loc) = some .directory) :
    Removes files (name :: loc) (Removable files free (path ++ 47 :: name) (name :: loc))
      (Util.removeDir free (path ++ 47 :: name) files) := by
  induction free generalizing files path loc name with
  | zero => exact .nothing (not_removable there)
  | succ free ih =>
    rw [removable_directory there, Util.removeDir]
    by_cases opens : files.rules.Finds (path ++ 47 :: name) loc ∧ files.rules.grants .list (name :: loc) = true
    · have further := leads.child valid
      have each : ∀ c ∈ files.tree.children (name :: loc), ∀ files' : Files, files'.rules = files.rules →
          files'.tree.find? (name :: loc) = some .directory → files'.tree.find? (c.1 :: name :: loc) = some c.2 →
          Removes files' (c.1 :: name :: loc) ((c.2 = .directory → files.rules.typed (name :: loc) = true) ∧
              Removable files' free (path ++ 47 :: name ++ 47 :: c.1) (c.1 :: name :: loc))
            (Util.removeEntry (Util.removeDir free) (path ++ 47 :: name) c.1
              (files.rules.typed (name :: loc) && decide (c.2 = .directory)) files') := by
        intro c member files' rules directory present
        have reached' : files'.Reached (name :: loc) :=
          (reached.kept rules (FileTree.parent directory)).child (rules ▸ opens.1.2) directory
        rw [← rules]
        exact removeEntry_removes further reached' present (ih further (files'.named _ _ _ present) reached')
      obtain ⟨thinned, rules, stays, done, whole⟩ := loopEntries_removes each (FileTree.children_nodup _)
        (fun c member => FileTree.mem_children.mp member) rfl there
      rw [loopDir_removeEntry leads valid reached there opens]
      cases outcome : Util.loopEntries (Util.removeEntry (Util.removeDir free) (path ++ 47 :: name))
          ((files.tree.children (name :: loc)).map fun c =>
            (c.1, files.rules.typed (name :: loc) && decide (c.2 = .directory))) files with
      | mk went files' =>
        rw [outcome] at thinned rules stays done whole
        cases went with
        | false =>
          have no := mt done.mpr Bool.false_ne_true
          exact ⟨thinned, rules, ⟨fun none => absurd none Bool.false_ne_true, fun all => absurd all.2 no⟩,
            fun none => absurd none Bool.false_ne_true, fun _ => stays.trans there.symm⟩
        | true =>
          rw [and_iff_left (done.mp rfl)]
          exact rmdir_removes leads valid reached there opens thinned rules stays (whole rfl)
    · have closed : files.readDir (path ++ 47 :: name) = none := by rw [leads.readDir valid reached there, if_neg opens]
      simp only [Util.loopDir, closed]
      exact .nothing fun all => opens ⟨all.1.found, (all.1.opened rfl).2⟩

/-! ### Directories that are made -/

theorem makeSubs_skip (back : Bytes) {front : Bytes} (noSlash : 47 ∉ front) (sub : Bytes) :
    Util.makeSubs files sub (front ++ back) = Util.makeSubs files (sub ++ front) back := by
  induction front generalizing sub with
  | nil => simp
  | cons b rest ih =>
    obtain ⟨other, later⟩ := not_or.mp (mt List.mem_cons.mpr noSlash)
    rw [List.cons_append, Util.makeSubs, if_neg (Ne.symm other), ih later]
    simp

/-- Where a component leads. -/
def onward (name : Bytes) (loc : Location Bytes) : Location Bytes := if isName name then name :: loc else loc

theorem onward_leads (leads : Leads path loc) (down : Down name) : Leads (path ++ 47 :: name) (onward name loc) := by
  rcases down with rfl | valid
  · exact leads.slash
  · rw [onward, if_pos valid.isName]
    exact leads.child valid

/-- Where the components before the last one lead. -/
def folder (names : List Bytes) (loc : Location Bytes) : Location Bytes := (names.dropLast.filter isName).reverse ++ loc

theorem folder_cons (first next : Bytes) (names : List Bytes) (loc : Location Bytes) :
    folder (first :: next :: names) loc = folder (next :: names) (onward first loc) := by
  rw [folder, List.dropLast_cons_cons, List.filter_cons, folder, onward]
  split <;> simp

/-- A directory is there, or can be made. -/
def CanBe (files : Files) (dir : Location Bytes) : Prop :=
  files.tree.find? dir = some .directory ∨ files.tree.find? dir = none ∧ files.rules.grants .add dir = true

theorem already {dir : Location Bytes} (there : files.tree.find? dir = some .directory) (loc' : Location Bytes) :
    files.tree.find? loc' = if loc' = dir then some .directory else files.tree.find? loc' := by
  split
  · next same => rw [same, there]
  · rfl

/-- A directory is there after its turn in the loop, and was made if nothing was there. -/
theorem makeSubs_slash (leads : Leads path loc) (down : Down name) (directory : files.tree.find? loc = some .directory)
    (opens : files.rules.Open loc) (short : (path ++ 47 :: name).length < pathMax) (clear : CanBe files (onward name loc))
    (back : Bytes) :
    ∃ files' : Files, Util.makeSubs files (path ++ 47 :: name) (47 :: back) =
        Util.makeSubs files' (path ++ 47 :: name ++ [47]) back ∧ files'.rules = files.rules ∧
      ∀ loc', files'.tree.find? loc' = if loc' = onward name loc then some .directory else files.tree.find? loc' := by
  have reached := Files.Reached.of_open directory opens
  rw [Util.makeSubs, if_pos rfl]
  rcases down with rfl | valid
  · have found : files.stat (path ++ 47 :: []) = some .directory := by
      rw [Files.stat, leads.resolve_slash reached short]
      exact directory
    exact ⟨files, if_pos (by simp [Util.isDir, found, mode]), rfl, already directory⟩
  · rw [onward, if_pos valid.isName] at *
    have found : files.rules.Finds (path ++ 47 :: name) loc := ⟨short, opens loc List.suffix_rfl⟩
    rcases clear with there | ⟨free, granted⟩
    · have isDir := isDir_child leads valid reached (by simp [there]) found
      exact ⟨files, if_pos (by simp [isDir, there, mode]), rfl, already there⟩
    · have isDir := isDir_child leads valid reached (by simp [free]) found
      refine ⟨files.create ⟨name, loc, valid, directory⟩ .directory free, ?_, rfl, fun loc' => Files.find?_create loc'⟩
      simp [isDir, free, granted, Util.makeDir, leads.mkdir valid reached found]

/-- The loop makes the directories before the last component that are not there. -/
theorem makeSubs_down {names : List Bytes} (leads : Leads path loc) (down : ∀ n ∈ name :: names, Down n)
    (directory : files.tree.find? loc = some .directory) (opens : files.rules.Open (folder (name :: names) loc))
    (short : (path ++ 47 :: name ++ names.flatMap (47 :: ·)).length < pathMax)
    (clear : ∀ dir, dir <:+ folder (name :: names) loc → CanBe files dir) :
    ∃ files' : Files, Util.makeSubs files (path ++ 47 :: name) (names.flatMap (47 :: ·)) = (true, files') ∧
      files'.rules = files.rules ∧ ∀ loc', files'.tree.find? loc' =
        if loc' <:+ folder (name :: names) loc then some .directory else files.tree.find? loc' := by
  induction names generalizing files path loc name with
  | nil =>
    refine ⟨files, rfl, rfl, fun loc' => ?_⟩
    split
    · next under =>
      by_cases here : loc' = loc
      · rw [here, directory]
      · exact FileTree.above directory under here
    · rfl
  | cons next names ih =>
    obtain ⟨first, later⟩ := List.forall_mem_cons.mp down
    have within : onward name loc <:+ folder (name :: next :: names) loc := by
      rw [folder_cons]
      exact List.suffix_append _ _
    have above : loc <:+ onward name loc := by
      unfold onward
      split
      · exact List.suffix_cons name loc
      · exact List.suffix_rfl
    have turnShort : (path ++ 47 :: name).length < pathMax := by
      rw [List.length_append] at short
      exact Nat.lt_of_le_of_lt (Nat.le_add_right _ _) short
    obtain ⟨files₁, turn, rules, made⟩ := makeSubs_slash leads first directory
      (fun dir under => opens dir (under.trans (above.trans within))) turnShort (clear _ within)
      (next ++ names.flatMap (47 :: ·))
    have there : files₁.tree.find? (onward name loc) = some .directory := by rw [made, if_pos rfl]
    rw [folder_cons] at opens clear
    obtain ⟨files', rest, rules', entries⟩ := ih (onward_leads leads first) later there (rules ▸ opens)
      (by simpa using short) fun dir under => by
        rw [CanBe, made, rules]
        split
        · exact .inl rfl
        · exact clear dir under
    refine ⟨files', ?_, rules'.trans rules, fun loc' => ?_⟩
    · rw [List.flatMap_cons, List.cons_append, turn, makeSubs_skip _ (later next List.mem_cons_self).noSlash, ← rest]
      simp
    · rw [entries, made, folder_cons]
      by_cases under : loc' <:+ folder (next :: names) (onward name loc)
      · rw [if_pos under, if_pos under]
      · rw [if_neg under, if_neg under, if_neg]
        rintro rfl
        exact under (List.suffix_append _ _)

/-- The components of a path from the root, each after a slash. -/
theorem components_down (leads : Leads path loc) :
    ∃ names : List Bytes, path = names.flatMap (47 :: ·) ∧ (∀ n ∈ names, Down n) ∧ loc = (names.filter isName).reverse := by
  obtain ⟨first, rest, split, whole, parts⟩ := components_joined path
  have down := leads.down
  rw [split] at down
  have empty : first = [] := by
    cases first with
    | nil => rfl
    | cons b first =>
      have start := leads.absolute
      rw [whole] at start
      have slash : b = 47 := by simpa using start
      exact absurd (by simp [slash]) (parts (b :: first) List.mem_cons_self).1
  subst empty
  refine ⟨rest, by rwa [List.nil_append] at whole, (List.forall_mem_cons.mp down).2, ?_⟩
  rw [leads.names, split, List.filter_cons_of_neg (by decide)]

/-- `make_dirs` makes the directories before the last component that are not there, and then that one if the path
does not end in a slash. -/
theorem makeDirs_down {names : List Bytes} (down : ∀ n ∈ names ++ [name], Down n)
    (opens : files.rules.Open (names.filter isName).reverse)
    (clear : ∀ dir, dir <:+ (names.filter isName).reverse → CanBe files dir) {whole : Bytes}
    (joined : whole = (names ++ [name]).flatMap (47 :: ·)) (short : whole.length < pathMax) :
    ∃ files' : Files, files'.rules = files.rules ∧
      (∀ loc', files'.tree.find? loc' =
        if loc' <:+ (names.filter isName).reverse then some .directory else files.tree.find? loc') ∧
      Util.makeDirs files whole = if whole.getLast? = some 47 then (true, files') else Util.makeDir files' whole := by
  have parts : folder (names ++ [name]) [] = (names.filter isName).reverse := by simp [folder]
  cases split : names ++ [name] with
  | nil => exact absurd split (List.append_ne_nil_of_right_ne_nil _ (List.cons_ne_nil _ _))
  | cons first rest =>
    rw [split] at down joined parts
    obtain ⟨files', run, rules, entries⟩ := makeSubs_down Leads.root down files.tree.find?_root (by rwa [parts])
      (by simpa [joined] using short) (by rwa [parts])
    rw [parts] at entries
    refine ⟨files', rules, entries, ?_⟩
    have start : Util.makeSubs files [47] (first ++ rest.flatMap (47 :: ·)) = (true, files') := by
      rw [makeSubs_skip _ (down first List.mem_cons_self).noSlash]
      exact run
    subst joined
    simp only [List.flatMap_cons, List.cons_append, Util.makeDirs, start]

theorem makeDirs_folder (leads : Leads path loc) (opens : files.rules.Open loc) (short : (path ++ [47]).length < pathMax)
    (clear : ∀ dir, dir <:+ loc → CanBe files dir) :
    ∃ files', Util.makeDirs files (path ++ [47]) = (true, files') ∧ files'.rules = files.rules ∧
      ∀ loc', files'.tree.find? loc' = if loc' <:+ loc then some .directory else files.tree.find? loc' := by
  obtain ⟨names, rfl, down, rfl⟩ := components_down leads
  have last : ∀ n ∈ names ++ [[]], Down n :=
    List.forall_mem_append.mpr ⟨down, List.forall_mem_singleton.mpr (.inl rfl)⟩
  have joined : names.flatMap (47 :: ·) ++ [47] = (names ++ [[]]).flatMap (47 :: ·) := by simp
  obtain ⟨files', rules, entries, run⟩ := makeDirs_down last opens clear joined short
  exact ⟨files', by rw [run, if_pos List.getLast?_concat], rules, entries⟩

/-- `make_dirs` of a name in a directory makes a directory, and fails if something is there. -/
theorem makeDirs_child (leads : Leads path loc) (valid : ValidName name) (directory : files.tree.find? loc = some .directory)
    (opens : files.rules.Open loc) (short : (path ++ 47 :: name).length < pathMax)
    (granted : files.rules.grants .add (name :: loc) = true) :
    ∃ files', Util.makeDirs files (path ++ 47 :: name) = (decide (files.tree.find? (name :: loc) = none), files') ∧
      files'.rules = files.rules ∧ ∀ loc', files'.tree.find? loc' =
        if loc' = name :: loc ∧ files.tree.find? (name :: loc) = none then some .directory
        else files.tree.find? loc' := by
  have there : ∀ dir, dir <:+ loc → files.tree.find? dir = some .directory := fun dir under =>
    (Files.Reached.of_open directory opens).above under
  obtain ⟨names, whole, down, trail⟩ := components_down leads
  have last : ∀ n ∈ names ++ [name], Down n :=
    List.forall_mem_append.mpr ⟨down, List.forall_mem_singleton.mpr (.inr valid)⟩
  have joined : path ++ 47 :: name = (names ++ [name]).flatMap (47 :: ·) := by simp [whole]
  obtain ⟨files', rules, entries, run⟩ :=
    makeDirs_down last (trail ▸ opens) (fun dir under => .inl (there dir (trail ▸ under))) joined short
  have same : ∀ loc', files'.tree.find? loc' = files.tree.find? loc' := fun loc' => by
    rw [entries]
    split
    · next under => rw [there loc' (trail ▸ under)]
    · rfl
  have open' : (path ++ 47 :: name).getLast? ≠ some 47 := fun ends =>
    valid.noSlash (List.mem_of_getLast? (by rwa [List.getLast?_append_of_ne_nil _ (List.cons_ne_nil _ _),
      List.getLast?_cons_of_ne_nil valid.given] at ends))
  have reached : files'.Reached loc := .of_open ((same loc).trans directory) (rules ▸ opens)
  have found : files'.rules.Finds (path ++ 47 :: name) loc := ⟨short, rules ▸ opens loc List.suffix_rfl⟩
  rw [run, if_neg open', Util.makeDir, leads.mkdir valid reached found]
  by_cases free : files.tree.find? (name :: loc) = none
  · rw [dif_pos ((same _).trans free), if_pos (rules ▸ granted), decide_eq_true free]
    exact ⟨_, rfl, rules, fun loc' => by simp [free, same]⟩
  · rw [dif_neg (by rwa [same]), decide_eq_false free]
    exact ⟨_, rfl, rules, fun loc' => by simp [free, same]⟩

end

end DockerPlugin.SampleVolume

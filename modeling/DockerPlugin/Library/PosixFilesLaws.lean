import DockerPlugin.Library.PosixFiles
import Mathlib.Data.List.TakeWhile

namespace Posix
open Octets

/-! ### Components -/

theorem components_append (front back : Bytes) : components (front ++ 47 :: back) = components front ++ components back :=
  List.splitOn_append_cons_self front back

theorem ValidName.components {name : Bytes} (valid : ValidName name) : components name = [name] :=
  List.splitOn_eq_singleton valid.noSlash

/-- A path is its components with a slash before each but the first. -/
theorem components_joined (path : Bytes) :
    ∃ first rest, components path = first :: rest ∧ path = first ++ rest.flatMap (47 :: ·) ∧
      ∀ n ∈ first :: rest, 47 ∉ n ∧ ∀ b ∈ n, b ∈ path := by
  induction path with
  | nil => exact ⟨[], [], rfl, rfl, by simp⟩
  | cons b path ih =>
    obtain ⟨first, rest, split, whole, parts⟩ := ih
    have step : components (b :: path) = if b = 47 then [] :: first :: rest else (b :: first) :: rest := by
      rw [components, List.splitOn_cons_eq_if_modifyHead, ← components, split]
      simp
    have within : ∀ n ∈ first :: rest, 47 ∉ n ∧ ∀ c ∈ n, c ∈ b :: path := fun n member =>
      ⟨(parts n member).1, fun c inside => List.mem_cons_of_mem b ((parts n member).2 c inside)⟩
    by_cases slash : b = 47
    · rw [if_pos slash] at step
      exact ⟨[], first :: rest, step, by rw [slash, whole]; rfl, List.forall_mem_cons.mpr ⟨by simp, within⟩⟩
    · rw [if_neg slash] at step
      obtain ⟨head, later⟩ := List.forall_mem_cons.mp within
      refine ⟨b :: first, rest, step, by rw [whole]; rfl, List.forall_mem_cons.mpr ⟨⟨?_, ?_⟩, later⟩⟩
      · simpa using ⟨Ne.symm slash, head.1⟩
      · exact List.forall_mem_cons.mpr ⟨List.mem_cons_self, head.2⟩

theorem cStr_zero {front : Bytes} (zero : 0 ∈ front) (back : Bytes) : cStr (front ++ back) = cStr front := by
  have cut : (front.takeWhile (· ≠ 0)).length ≠ front.length := fun full => by
    have whole := List.IsPrefix.eq_of_length (List.takeWhile_prefix _) full
    simpa using List.takeWhile_eq_self_iff.mp whole 0 zero
  rw [cStr, List.takeWhile_append, if_neg cut, cStr]

theorem cStr_append {front : Bytes} (whole : 0 ∉ front) (back : Bytes) : cStr (front ++ back) = front ++ cStr back :=
  List.takeWhile_append_of_pos fun _ member => decide_eq_true fun zero => whole (zero ▸ member)

theorem cStr_whole {path : Bytes} (whole : 0 ∉ path) : cStr path = path := by
  have all := cStr_append whole []
  rwa [List.append_nil, show cStr [] = [] from rfl, List.append_nil] at all

theorem cStr_slash (back : Bytes) : cStr (47 :: back) = 47 :: cStr back := by
  simp [cStr]

/-- A component that changes the location. -/
def isName (component : Bytes) : Bool := component ≠ [] ∧ component ≠ bytes "."

theorem ValidName.isName {name : Bytes} (valid : ValidName name) : isName name = true :=
  decide_eq_true ⟨valid.given, valid.notHere⟩

theorem append_slash_ne_nil (path name : Bytes) : path ++ 47 :: name ≠ [] :=
  List.append_ne_nil_of_right_ne_nil _ (List.cons_ne_nil _ _)

/-- A component that stays or goes down. -/
def Down (component : Bytes) : Prop := component = [] ∨ ValidName component

theorem Down.noSlash {component : Bytes} (down : Down component) : 47 ∉ component := by
  rcases down with rfl | valid
  · exact List.not_mem_nil
  · exact valid.noSlash

/-- What stands before a slash in a path from the root, and names every directory on its way, leads to this
location. -/
structure Leads (path : Bytes) (loc : Location Bytes) : Prop where
  whole : 0 ∉ path
  absolute : (path ++ [47]).head? = some 47
  down : ∀ c ∈ components path, Down c
  names : loc = ((components path).filter isName).reverse

namespace Leads
variable {path : Bytes} {loc : Location Bytes} {name : Bytes}

theorem root : Leads [] [] where
  whole := List.not_mem_nil
  absolute := rfl
  down := List.forall_mem_singleton.mpr (.inl rfl)
  names := rfl

theorem cStr_eq (leads : Leads path loc) : cStr path = path := cStr_whole leads.whole

theorem head (leads : Leads path loc) : (path ++ 47 :: name).head? = some 47 := by
  have first := leads.absolute
  cases path with
  | nil => rfl
  | cons b rest => exact first

theorem child (leads : Leads path loc) (valid : ValidName name) : Leads (path ++ 47 :: name) (name :: loc) where
  whole := by simpa using ⟨leads.whole, valid.noZero⟩
  absolute := by rw [List.append_assoc, List.cons_append, leads.head]
  down := by
    rw [components_append, valid.components]
    exact List.forall_mem_append.mpr ⟨leads.down, List.forall_mem_singleton.mpr (.inr valid)⟩
  names := by
    rw [components_append, valid.components, List.filter_append, List.reverse_append, ← leads.names]
    simp [valid.isName]

theorem slash (leads : Leads path loc) : Leads (path ++ 47 :: []) loc where
  whole := by simpa using leads.whole
  absolute := by rw [List.append_assoc, List.cons_append, leads.head]
  down := by
    rw [components_append]
    exact List.forall_mem_append.mpr ⟨leads.down, List.forall_mem_singleton.mpr (.inl rfl)⟩
  names := by
    rw [components_append, List.filter_append, show (components []).filter isName = [] from rfl, List.append_nil,
      ← leads.names]

end Leads

/-! ### Ways that can be gone -/

/-- A directory that paths get to: those above it can be searched. -/
structure Files.Reached (files : Files) (loc : Location Bytes) : Prop where
  directory : files.tree.find? loc = some .directory
  searched : ∀ dir, dir <:+ loc → dir ≠ loc → files.rules.grants .search dir = true

namespace Files.Reached
variable {files files' : Files} {loc dir : Location Bytes} {name : Bytes}

theorem above (reached : files.Reached loc) (under : dir <:+ loc) : files.tree.find? dir = some .directory := by
  by_cases here : dir = loc
  · rw [here, reached.directory]
  · exact FileTree.above reached.directory under here

theorem child (reached : files.Reached loc) (search : files.rules.grants .search loc = true)
    (there : files.tree.find? (name :: loc) = some .directory) : files.Reached (name :: loc) where
  directory := there
  searched dir under apart := by
    have further := (List.suffix_cons_iff.mp under).resolve_left apart
    by_cases here : dir = loc
    · rw [here, search]
    · exact reached.searched dir further here

/-- A directory that stays is still got to. -/
theorem kept (reached : files.Reached loc) (rules : files'.rules = files.rules)
    (there : files'.tree.find? loc = some .directory) : files'.Reached loc :=
  ⟨there, fun dir under apart => rules ▸ reached.searched dir under apart⟩

end Files.Reached

/-- The directories on the way to a location can be searched, and it too. -/
def Rules.Open (rules : Rules) (loc : Location Bytes) : Prop := ∀ dir, dir <:+ loc → rules.grants .search dir = true

theorem Files.Reached.of_open {files : Files} {loc : Location Bytes} (there : files.tree.find? loc = some .directory)
    (opens : files.rules.Open loc) : files.Reached loc := ⟨there, fun dir under _ => opens dir under⟩

theorem Files.walk_eq (files : Files) (links : Nat) : ∃ follow, files.walk links = files.walkFrom follow := by
  cases links <;> exact ⟨_, rfl⟩

/-- Components that name every directory on their way are walked to the last one. -/
theorem walkFrom_down {files : Files} {follow : Location Bytes → List Bytes → Option (Location Bytes)}
    {components : List Bytes} {loc : Location Bytes} (down : ∀ c ∈ components, Down c)
    (reached : files.Reached ((components.filter isName).reverse ++ loc)) (back : List Bytes) :
    files.walkFrom follow loc (components ++ back) =
      files.walkFrom follow ((components.filter isName).reverse ++ loc) back := by
  induction components generalizing loc with
  | nil => rfl
  | cons name rest ih =>
    obtain ⟨first, later⟩ := List.forall_mem_cons.mp down
    have here : files.tree.find? loc = some .directory := reached.above (List.suffix_append _ _)
    rw [List.cons_append, Files.walkFrom]
    rcases first with empty | valid
    · have skipped : ¬ isName name = true := by
        rw [empty]
        exact Bool.false_ne_true
      rw [List.filter_cons_of_neg skipped] at reached ⊢
      rw [if_pos ⟨here, .inl empty⟩, if_pos (.inl empty), ih later reached]
    · rw [List.filter_cons_of_pos valid.isName, List.reverse_cons, List.append_assoc, List.singleton_append] at reached ⊢
      have there : files.tree.find? (name :: loc) = some .directory := reached.above (List.suffix_append _ _)
      have search : files.rules.grants .search loc = true :=
        reached.searched loc ((List.suffix_cons name loc).trans (List.suffix_append _ _)) fun same => by
          have long := congrArg List.length same
          rw [List.length_append, List.length_cons] at long
          omega
      rw [if_pos ⟨here, .inr ⟨search, valid.short⟩⟩, if_neg (not_or.mpr ⟨valid.given, valid.notHere⟩),
        if_neg valid.notUp, there]
      exact ih later reached

section
variable {files : Files} {path : Bytes} {loc : Location Bytes} {name : Bytes}

namespace Leads

theorem walk (leads : Leads path loc) (reached : files.Reached loc) (links : Nat) (back : List Bytes) :
    files.walk links [] (components path ++ back) = files.walk links loc back := by
  obtain ⟨follow, walk⟩ := files.walk_eq links
  have down : files.walkFrom follow [] (components path ++ back) =
      files.walkFrom follow (((components path).filter isName).reverse ++ []) back :=
    walkFrom_down leads.down (by rwa [List.append_nil, ← leads.names]) back
  rw [walk, down, List.append_nil, ← leads.names]

theorem origin (leads : Leads path loc) (here : Location Bytes) : origin here (path ++ 47 :: name) = [] :=
  if_pos leads.head

/-- What is under a name in a directory, and no symbolic link, is where the path to the directory and the name lead. -/
theorem resolve (leads : Leads path loc) (valid : ValidName name) (reached : files.Reached loc)
    (noLink : ∀ text, files.tree.find? (name :: loc) ≠ some (.file (.link text))) :
    files.resolve (path ++ 47 :: name) =
      if files.rules.Finds (path ++ 47 :: name) loc then some (name :: loc) else none := by
  obtain ⟨follow, walk⟩ := files.walk_eq maxLinks
  have last : files.walk maxLinks loc [name] = if files.rules.grants .search loc = true then some (name :: loc) else none := by
    rw [walk, Files.walkFrom, reached.directory, if_neg (not_or.mpr ⟨valid.given, valid.notHere⟩), if_neg valid.notUp]
    by_cases search : files.rules.grants .search loc = true
    · rw [if_pos search, if_pos ⟨rfl, .inr ⟨search, valid.short⟩⟩]
      split
      · next text there => exact absurd there (noLink text)
      · rfl
    · rw [if_neg search, if_neg]
      rintro ⟨-, given | ⟨granted, -⟩⟩
      · exact valid.given given
      · exact search granted
  have given : path ++ 47 :: name ≠ [] := append_slash_ne_nil path name
  rw [Files.resolve, (leads.child valid).cStr_eq, leads.origin, components_append, valid.components,
    leads.walk reached, last]
  by_cases short : (path ++ 47 :: name).length < pathMax
  · rw [if_neg (not_or.mpr ⟨given, Nat.not_le.mpr short⟩)]
    exact if_congr ⟨fun search => ⟨short, search⟩, And.right⟩ rfl rfl
  · rw [if_pos (.inr (Nat.not_lt.mp short)), if_neg fun found => short found.1]

/-- A slash can stand behind a directory. -/
theorem resolve_slash (leads : Leads path loc) (reached : files.Reached loc)
    (short : (path ++ 47 :: []).length < pathMax) : files.resolve (path ++ 47 :: []) = some loc := by
  have given : path ++ 47 :: [] ≠ [] := append_slash_ne_nil path []
  obtain ⟨follow, walk⟩ := files.walk_eq maxLinks
  have last : files.walk maxLinks loc (components []) = some loc := by
    rw [walk, show components [] = [[]] from rfl, Files.walkFrom, if_pos ⟨reached.directory, .inl rfl⟩,
      if_pos (.inl rfl), Files.walkFrom]
  rw [Files.resolve, leads.slash.cStr_eq, if_neg (not_or.mpr ⟨given, Nat.not_le.mpr short⟩), leads.origin,
    components_append, leads.walk reached, last]

theorem stat (leads : Leads path loc) (valid : ValidName name) (reached : files.Reached loc)
    (noLink : ∀ text, files.tree.find? (name :: loc) ≠ some (.file (.link text))) :
    files.stat (path ++ 47 :: name) =
      if files.rules.Finds (path ++ 47 :: name) loc then files.tree.find? (name :: loc) else none := by
  rw [Files.stat, leads.resolve valid reached noLink]
  split <;> rfl

theorem unslashed (valid : ValidName name) : unslashed (path ++ 47 :: name) = path ++ 47 :: name := by
  obtain ⟨front, last, rfl⟩ := List.eq_nil_or_concat name |>.resolve_left valid.given
  have other : last ≠ 47 := by
    rintro rfl
    exact valid.noSlash (by simp)
  simp [Posix.unslashed, other]

theorem place (leads : Leads path loc) (valid : ValidName name) (reached : files.Reached loc) (slashes : Bool) :
    files.place (path ++ 47 :: name) slashes =
      if files.rules.Finds (path ++ 47 :: name) loc then some ⟨name, loc, valid, reached.directory⟩ else none := by
  have text : (if slashes then Posix.unslashed (path ++ 47 :: name) else path ++ 47 :: name) = path ++ 47 :: name := by
    rw [unslashed valid, ite_self]
  have before : files.walk maxLinks [] (components path) = some loc := by
    obtain ⟨follow, walk⟩ := files.walk_eq maxLinks
    have whole := leads.walk reached maxLinks []
    rw [List.append_nil, walk, Files.walkFrom] at whole
    rwa [walk]
  simp only [Files.place, (leads.child valid).cStr_eq, text, components_append, valid.components, List.reverse_append,
    List.reverse_singleton, List.singleton_append, List.reverse_reverse, leads.origin, before, dif_pos valid,
    reached.directory, true_and]
  split <;> rfl

/-- The system calls on a name in a directory do what they say with its place. -/
theorem mkdir (leads : Leads path loc) (valid : ValidName name) (reached : files.Reached loc)
    (found : files.rules.Finds (path ++ 47 :: name) loc) :
    files.mkdir (path ++ 47 :: name) =
      if free : files.tree.find? (name :: loc) = none then
        if files.rules.grants .add (name :: loc) then
          (true, files.create ⟨name, loc, valid, reached.directory⟩ .directory free)
        else (false, files)
      else (false, files) := by
  simp only [Files.mkdir, leads.place valid reached, if_pos found]

theorem rmdir (leads : Leads path loc) (valid : ValidName name) (reached : files.Reached loc)
    (found : files.rules.Finds (path ++ 47 :: name) loc) :
    files.rmdir (path ++ 47 :: name) =
      if empty : files.tree.children (name :: loc) = [] then
        if files.tree.find? (name :: loc) = some .directory ∧ files.rules.grants .remove (name :: loc) = true then
          (true, files.drop (name :: loc) empty)
        else (false, files)
      else (false, files) := by
  simp only [Files.rmdir, leads.place valid reached, if_pos found]

theorem readDir (leads : Leads path loc) (valid : ValidName name) (reached : files.Reached loc)
    (there : files.tree.find? (name :: loc) = some .directory) :
    files.readDir (path ++ 47 :: name) =
      if files.rules.Finds (path ++ 47 :: name) loc ∧ files.rules.grants .list (name :: loc) = true then
        some ((bytes ".", files.rules.typed (name :: loc)) :: (bytes "..", files.rules.typed (name :: loc)) ::
          (files.tree.children (name :: loc)).map fun c =>
            (c.1, files.rules.typed (name :: loc) && decide (c.2 = .directory)))
      else none := by
  rw [Files.readDir, leads.resolve valid reached fun text link => by rw [there] at link; cases link]
  by_cases found : files.rules.Finds (path ++ 47 :: name) loc
  · simp [found, there]
  · simp [found]

end Leads

@[simp] theorem Files.find?_create {p : Place files.tree} {e : Entry Node} {free : files.tree.find? p.location = none}
    (loc : Location Bytes) :
    (files.create p e free).tree.find? loc = if loc = p.location then some e else files.tree.find? loc :=
  FileTree.find?_add p.inside free loc

/-- Only what is no directory is unlinked, and nothing else goes away. -/
theorem Leads.unlink (leads : Leads path loc) (valid : ValidName name) (reached : files.Reached loc) :
    ((files.unlink (path ++ 47 :: name)).1 = true ↔ (∃ node, files.tree.find? (name :: loc) = some (.file node)) ∧
        files.rules.Finds (path ++ 47 :: name) loc ∧ files.rules.grants .remove (name :: loc) = true) ∧
      FileTree.Without files.tree (files.unlink (path ++ 47 :: name)).2.tree fun loc' => loc' = name :: loc ∧
        (∃ node, files.tree.find? (name :: loc) = some (.file node)) ∧
          files.rules.Finds (path ++ 47 :: name) loc ∧ files.rules.grants .remove (name :: loc) = true := by
  have nothing : ∀ gone : Prop, ¬ gone → FileTree.Without files.tree files.tree fun loc' => loc' = name :: loc ∧ gone :=
    fun gone no => (FileTree.Without.refl _).congr fun loc' => by simp [no]
  simp only [Files.unlink, leads.place valid reached]
  by_cases found : files.rules.Finds (path ++ 47 :: name) loc
  · rw [if_pos found]
    dsimp only
    split
    · next node there =>
      have there : files.tree.find? (name :: loc) = some (.file node) := there
      by_cases granted : files.rules.grants .remove (name :: loc) = true
      · rw [if_pos granted]
        refine ⟨by simp [there, found, granted], ?_⟩
        exact (FileTree.Without.remove (List.cons_ne_nil _ _) (FileTree.children_file there)).congr fun loc' => by
          simp [there, found, granted]
      · rw [if_neg granted]
        exact ⟨by simp [granted], nothing _ fun all => granted all.2.2⟩
    · next other =>
      have none : ¬ ∃ node, files.tree.find? (name :: loc) = some (.file node) := fun ⟨node, there⟩ => other node there
      exact ⟨by simp [none], nothing _ fun all => none all.1⟩
  · rw [if_neg found]
    exact ⟨by simp [found], nothing _ fun all => found all.2.1⟩

/-- So it is under a name that is too long for an entry. -/
theorem Leads.unlink_any (leads : Leads path loc) (reached : files.Reached loc) (noSlash : 47 ∉ name) (noZero : 0 ∉ name) :
    FileTree.Without files.tree (files.unlink (path ++ 47 :: name)).2.tree fun loc' => loc' = name :: loc ∧
      (∃ node, files.tree.find? (name :: loc) = some (.file node)) ∧
        files.rules.Finds (path ++ 47 :: name) loc ∧ files.rules.grants .remove (name :: loc) = true := by
  by_cases valid : ValidName name
  · exact (leads.unlink valid reached).2
  · have text : cStr (path ++ 47 :: name) = path ++ 47 :: name :=
      cStr_whole (by simpa using ⟨leads.whole, noZero⟩)
    have single : components name = [name] := List.splitOn_eq_singleton noSlash
    have nowhere : files.place (path ++ 47 :: name) false = none := by
      simp [Files.place, text, components_append, single, valid]
    have nothing : files.unlink (path ++ 47 :: name) = (false, files) := by simp only [Files.unlink, nowhere]
    rw [nothing]
    refine (FileTree.Without.refl _).congr fun loc' => ⟨?_, False.elim⟩
    rintro ⟨-, ⟨node, there⟩, -⟩
    exact valid (files.named name loc _ there)

/-- A text is written to a new file. -/
theorem Leads.write (leads : Leads path loc) (valid : ValidName name) (reached : files.Reached loc)
    (found : files.rules.Finds (path ++ 47 :: name) loc) (free : files.tree.find? (name :: loc) = none)
    (granted : files.rules.grants .add (name :: loc) = true) (content : Bytes) :
    files.write (path ++ 47 :: name) content =
      files.create ⟨name, loc, valid, reached.directory⟩ (.file (.regular content)) free := by
  have noLink : ∀ text, files.tree.find? (name :: loc) ≠ some (.file (.link text)) := fun text link => by
    rw [free] at link
    cases link
  simp only [Files.write, leads.resolve valid reached noLink, if_pos found]
  split
  · rw [dif_pos ⟨valid, reached.directory⟩, if_pos granted]
  · next old there =>
    rw [free] at there
    cases there
  · next e other there =>
    rw [free] at there
    cases there

end

/-! ### Paths that do not go up -/

/-- A path from the root whose components do not go up. -/
structure Downward (path : Bytes) : Prop where
  absolute : path.head? = some 47
  down : bytes ".." ∉ components path

/-- Where such a path leads if no symbolic link is on its way. -/
def target (path : Bytes) : Location Bytes := ((components path).filter isName).reverse

/-- No symbolic link is there or above. -/
def Files.Straight (files : Files) (loc : Location Bytes) : Prop :=
  ∀ dir, dir <:+ loc → ∀ text, files.tree.find? dir ≠ some (.file (.link text))

theorem walkFrom_target {files : Files} {follow : Location Bytes → List Bytes → Option (Location Bytes)}
    {components : List Bytes} {loc loc' : Location Bytes} (down : bytes ".." ∉ components)
    (straight : files.Straight ((components.filter isName).reverse ++ loc))
    (walked : files.walkFrom follow loc components = some loc') : loc' = (components.filter isName).reverse ++ loc := by
  induction components generalizing loc with
  | nil => exact (Option.some.inj walked).symm
  | cons name rest ih =>
    have notUp : name ≠ bytes ".." := fun up => down (up ▸ List.mem_cons_self)
    have restDown : bytes ".." ∉ rest := fun up => down (List.mem_cons_of_mem name up)
    rw [Files.walkFrom] at walked
    split at walked
    · by_cases plain : name = [] ∨ name = bytes "."
      · have skipped : ¬ isName name = true := by
          rcases plain with rfl | rfl <;> exact Bool.false_ne_true
        rw [List.filter_cons_of_neg skipped] at straight ⊢
        rw [if_pos plain] at walked
        exact ih restDown straight walked
      · have kept : isName name = true := decide_eq_true (not_or.mp plain)
        rw [List.filter_cons_of_pos kept, List.reverse_cons, List.append_assoc, List.singleton_append] at straight ⊢
        rw [if_neg plain] at walked
        split at walked
        · next text link => exact absurd link (straight _ (List.suffix_append _ _) text)
        · exact ih restDown straight walked
    · cases walked

theorem components_slashes (path : Bytes) (n : Nat) :
    components (path ++ List.replicate n 47) = components path ++ List.replicate n [] := by
  induction n generalizing path with
  | zero => simp
  | succ n ih =>
    have last : path ++ List.replicate (n + 1) 47 = (path ++ List.replicate n 47) ++ 47 :: [] := by
      rw [List.replicate_succ', List.append_assoc]
    rw [last, components_append, ih, List.append_assoc, List.replicate_succ']
    rfl

theorem unslashed_append (path : Bytes) : ∃ n, path = unslashed path ++ List.replicate n 47 := by
  refine ⟨(path.reverse.takeWhile (· = 47)).length, ?_⟩
  have slashes : path.reverse.takeWhile (· = 47) = List.replicate (path.reverse.takeWhile (· = 47)).length 47 :=
    List.eq_replicate_iff.mpr ⟨rfl, fun b member => by simpa using List.mem_takeWhile_imp member⟩
  have parts : path.reverse.takeWhile (· = 47) ++ path.reverse.dropWhile (· = 47) = path.reverse :=
    List.takeWhile_append_dropWhile
  have whole := congrArg List.reverse parts
  rw [List.reverse_append, List.reverse_reverse, slashes, List.reverse_replicate] at whole
  exact whole.symm

/-- The slashes at the end make no difference. -/
theorem components_unslashed (path : Bytes) :
    ∃ n, components path = components (unslashed path) ++ List.replicate n [] := by
  obtain ⟨n, whole⟩ := unslashed_append path
  have parts := components_slashes (unslashed path) n
  rw [← whole] at parts
  exact ⟨n, parts⟩

theorem target_unslashed (path : Bytes) : target (unslashed path) = target path := by
  obtain ⟨n, parts⟩ := components_unslashed path
  have none : (List.replicate n ([] : Bytes)).filter isName = [] :=
    List.filter_eq_nil_iff.mpr fun x member => by
      rw [List.eq_of_mem_replicate member]
      decide
  rw [target, target, parts, List.filter_append, none, List.append_nil]

theorem Downward.unslashed {path : Bytes} (downward : Downward path) (given : unslashed path ≠ []) :
    Downward (unslashed path) := by
  obtain ⟨n, parts⟩ := components_unslashed path
  obtain ⟨m, whole⟩ := unslashed_append path
  refine ⟨?_, fun up => downward.down (parts ▸ List.mem_append_left _ up)⟩
  have first := downward.absolute
  rwa [whole, List.head?_append_of_ne_nil _ given] at first

theorem target_append (front back : Bytes) : target (front ++ 47 :: back) = target back ++ target front := by
  simp [target, components_append]

theorem Downward.append {front back : Bytes} (downward : Downward front) (down : bytes ".." ∉ components back) :
    Downward (front ++ 47 :: back) where
  absolute := by rw [List.head?_append, downward.absolute]; rfl
  down := by
    rw [components_append]
    exact fun up => (List.mem_append.mp up).elim downward.down down

/-- Files after a call that touches no more than one location, and makes no symbolic link there. -/
structure Files.Touched (files files' : Files) (loc : Location Bytes) : Prop where
  others : ∀ loc', loc' ≠ loc → files'.tree.find? loc' = files.tree.find? loc'
  links : ∀ text, files'.tree.find? loc = some (.file (.link text)) → files.tree.find? loc = some (.file (.link text))

namespace Files.Touched
variable {files : Files}

theorem refl (files : Files) (loc : Location Bytes) : files.Touched files loc := ⟨fun _ _ => rfl, fun _ there => there⟩

theorem create {p : Place files.tree} {e : Entry Node} (free : files.tree.find? p.location = none)
    (noLink : ∀ text, e ≠ .file (.link text)) : files.Touched (files.create p e free) p.location where
  others loc' other := by rw [find?_create, if_neg other]
  links text there := by
    rw [find?_create, if_pos rfl] at there
    exact absurd (Option.some.inj there) (noLink text)

theorem drop {loc : Location Bytes} (inside : loc ≠ []) (empty : files.tree.children loc = []) :
    files.Touched (files.drop loc empty) loc where
  others loc' other := (FileTree.find?_remove inside empty loc').trans (if_neg other)
  links _ there := @FileTree.exists_of_remove _ _ _ _ _ _ empty _ there

theorem refill {loc : Location Bytes} {old : Bytes} (there : files.tree.find? loc = some (.file (.regular old)))
    (content : Bytes) : files.Touched (files.refill loc content) loc where
  others loc' other := (FileTree.find?_put there _ loc').trans (if_neg other)
  links text link := by
    have now : (files.refill loc content).tree.find? loc = some (.file (.regular content)) :=
      (FileTree.find?_put there _ loc).trans (if_pos rfl)
    rw [now] at link
    cases link

end Files.Touched

section
variable {files : Files} {path : Bytes} {loc : Location Bytes}

namespace Downward

theorem resolve (downward : Downward (cStr path)) (straight : files.Straight (target (cStr path)))
    (resolved : files.resolve path = some loc) : loc = target (cStr path) := by
  obtain ⟨follow, walk⟩ := files.walk_eq maxLinks
  have start : origin files.working (cStr path) = [] := if_pos downward.absolute
  unfold Files.resolve at resolved
  split at resolved
  · cases resolved
  · rw [walk, start] at resolved
    have lead := walkFrom_target downward.down (by rwa [List.append_nil]) resolved
    rwa [List.append_nil] at lead

theorem place (downward : Downward (cStr path)) (straight : files.Straight (target (cStr path))) {slashes : Bool}
    {p : Place files.tree} (placed : files.place path slashes = some p) : p.location = target (cStr path) := by
  obtain ⟨follow, walk⟩ := files.walk_eq maxLinks
  obtain ⟨text, is⟩ : ∃ text, text = if slashes then Posix.unslashed (cStr path) else cStr path := ⟨_, rfl⟩
  have same : target text = target (cStr path) := by
    rw [is]
    split
    · exact target_unslashed (cStr path)
    · rfl
  simp only [Files.place, ← is] at placed
  split at placed
  · cases placed
  · next name before split =>
    have whole : components text = before.reverse ++ [name] := by
      rw [← List.reverse_reverse (components text), split, List.reverse_cons]
    split at placed
    · next valid =>
      have given : text ≠ [] := fun none => by
        rw [none] at whole
        have last := (List.append_inj' (show [] ++ [[]] = before.reverse ++ [name] from whole) rfl).2
        exact valid.given (List.cons.inj last).1.symm
      have shorter : Downward text := by
        subst is
        cases slashes with
        | true => exact downward.unslashed given
        | false => exact downward
      split at placed
      · cases placed
      · next dir walked =>
        split at placed
        · obtain rfl := Option.some.inj placed
          have start : origin files.working text = [] := if_pos shorter.absolute
          have down : bytes ".." ∉ before.reverse := fun up => shorter.down (whole ▸ List.mem_append_left _ up)
          have parts : target text = name :: (before.reverse.filter isName).reverse := by
            rw [target, whole, List.filter_append, List.filter_cons_of_pos valid.isName, List.reverse_append]
            rfl
          rw [walk, start] at walked
          have way : files.Straight ((before.reverse.filter isName).reverse ++ []) := fun dir under =>
            straight dir (by rw [← same, parts]; rw [List.append_nil] at under; exact under.trans (List.suffix_cons _ _))
          have lead := walkFrom_target down way walked
          rw [List.append_nil] at lead
          change name :: dir = _
          rw [← same, parts, lead]
        · cases placed
    · cases placed

/-- A system call touches nothing but where its path leads. -/
theorem mkdir (downward : Downward (cStr path)) (straight : files.Straight (target (cStr path))) :
    files.Touched (files.mkdir path).2 (target (cStr path)) := by
  unfold Files.mkdir
  split
  · exact .refl files _
  · next p placed =>
    rw [← downward.place straight placed]
    split
    · split
      · exact .create _ fun text => by simp
      · exact .refl files _
    · exact .refl files _

theorem rmdir (downward : Downward (cStr path)) (straight : files.Straight (target (cStr path))) :
    files.Touched (files.rmdir path).2 (target (cStr path)) := by
  unfold Files.rmdir
  split
  · exact .refl files _
  · next p placed =>
    rw [← downward.place straight placed]
    split
    · next empty =>
      split
      · exact .drop (List.cons_ne_nil _ _) empty
      · exact .refl files _
    · exact .refl files _

theorem unlink (downward : Downward (cStr path)) (straight : files.Straight (target (cStr path))) :
    files.Touched (files.unlink path).2 (target (cStr path)) := by
  unfold Files.unlink
  split
  · exact .refl files _
  · next p placed =>
    rw [← downward.place straight placed]
    split
    · next there =>
      split
      · exact .drop (List.cons_ne_nil _ _) (FileTree.children_file there)
      · exact .refl files _
    · exact .refl files _

theorem write (downward : Downward (cStr path)) (straight : files.Straight (target (cStr path))) (content : Bytes) :
    files.Touched (files.write path content) (target (cStr path)) := by
  unfold Files.write
  split
  · exact .refl files _
  · exact .refl files _
  · next name dir resolved =>
    rw [← downward.resolve straight resolved]
    split
    · next free =>
      split
      · split
        · exact .create free fun text => by simp
        · exact .refl files _
      · exact .refl files _
    · next there =>
      split
      · exact .refill there content
      · exact .refl files _
    · exact .refl files _

end Downward
end

@[simp] theorem Files.unlink_rules (files : Files) (path : Bytes) : (files.unlink path).2.rules = files.rules := by
  unfold Files.unlink
  split
  · rfl
  · split
    · split <;> rfl
    · rfl

end Posix

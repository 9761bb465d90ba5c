import DockerPlugin.Library.FileTree
import DockerPlugin.Library.Octets

/-! Path names and the system calls on them, over a tree with symbolic links in which each file has one name, as far
as the system grants them. -/

namespace Posix
open Octets

/-- `NAME_MAX`. -/
def nameMax : Nat := 255

/-- `PATH_MAX`, which counts the zero byte at the end. -/
def pathMax : Nat := 4096

/-- So many symbolic links are followed in one path. -/
def maxLinks : Nat := 40

/-- What a file is that is no directory. -/
inductive Node
  | regular (content : Bytes)
  | link (text : Bytes)
  | fifo
  | character
  | block
  | socket
  deriving DecidableEq

/-- The names that an entry can have. -/
structure ValidName (name : Bytes) : Prop where
  given : name ≠ []
  notHere : name ≠ bytes "."
  notUp : name ≠ bytes ".."
  noSlash : 47 ∉ name
  noZero : 0 ∉ name
  short : name.length ≤ nameMax

instance (name : Bytes) : Decidable (ValidName name) :=
  decidable_of_iff (name ≠ [] ∧ name ≠ bytes "." ∧ name ≠ bytes ".." ∧ 47 ∉ name ∧ 0 ∉ name ∧ name.length ≤ nameMax)
    ⟨fun ⟨given, notHere, notUp, noSlash, noZero, short⟩ => ⟨given, notHere, notUp, noSlash, noZero, short⟩,
      fun valid => ⟨valid.given, valid.notHere, valid.notUp, valid.noSlash, valid.noZero, valid.short⟩⟩

/-- What is asked of the system at a location: to go through a directory, to open one, to open a file, to make a new
entry, to take one away. -/
inductive Access
  | search
  | list
  | read
  | write
  | add
  | remove
  deriving DecidableEq

/-- What the system grants, by the rights of the process, by what is mounted and by the room there is, and whether
the types of the entries come with them where a directory is read. -/
structure Rules where
  grants : Access → Location Bytes → Bool
  typed : Location Bytes → Bool

/-- A path of this length can be used to find an entry in this directory. -/
def Rules.Finds (rules : Rules) (path : Bytes) (dir : Location Bytes) : Prop :=
  path.length < pathMax ∧ rules.grants .search dir = true

instance (rules : Rules) (path : Bytes) (dir : Location Bytes) : Decidable (rules.Finds path dir) :=
  inferInstanceAs (Decidable (_ ∧ _))

/-- The files that a process sees, and its working directory. -/
structure Files where
  tree : FileTree Bytes Node
  working : Location Bytes
  rules : Rules
  named : ∀ name dir e, tree.find? (name :: dir) = some e → ValidName name

/-- `S_IFMT` of an entry. -/
def mode : Entry Node → Nat
  | .directory => 0x4000
  | .file (.regular _) => 0x8000
  | .file (.link _) => 0xa000
  | .file .fifo => 0x1000
  | .file .character => 0x2000
  | .file .block => 0x6000
  | .file .socket => 0xc000

/-- A `std::string` as the system calls see it. -/
def cStr (path : Bytes) : Bytes := path.takeWhile (· ≠ 0)

def components (path : Bytes) : List Bytes := path.splitOn 47

/-- A path without the slashes at its end. -/
def unslashed (path : Bytes) : Bytes := (path.reverse.dropWhile (· = 47)).reverse

/-- An entry in a directory that is there, by its name. -/
structure Place (tree : FileTree Bytes Node) where
  name : Bytes
  dir : Location Bytes
  valid : ValidName name
  inside : tree.find? dir = some .directory

abbrev Place.location {tree : FileTree Bytes Node} (p : Place tree) : Location Bytes := p.name :: p.dir

/-- Where the components of a path start that is used in a directory. -/
def origin (here : Location Bytes) (path : Bytes) : Location Bytes := if path.head? = some 47 then [] else here

namespace Files
variable (files : Files)

/-- Where the components of a path lead, with a way to go on from a symbolic link. All but the last one have to be
directories, which are searched for the next component but for an empty one. -/
def walkFrom (follow : Location Bytes → List Bytes → Option (Location Bytes)) :
    Location Bytes → List Bytes → Option (Location Bytes)
  | loc, [] => some loc
  | loc, name :: rest =>
    if files.tree.find? loc = some .directory ∧
        (name = [] ∨ files.rules.grants .search loc = true ∧ name.length ≤ nameMax) then
      if name = [] ∨ name = bytes "." then walkFrom follow loc rest
      else if name = bytes ".." then walkFrom follow loc.tail rest
      else
        match files.tree.find? (name :: loc) with
        | some (.file (.link text)) => if text = [] then none else follow (origin loc text) (components text ++ rest)
        | _ => walkFrom follow (name :: loc) rest
    else none

/-- Where the components of a path lead if no more than so many symbolic links are met. -/
def walk : Nat → Location Bytes → List Bytes → Option (Location Bytes)
  | 0 => files.walkFrom fun _ _ => none
  | links + 1 => files.walkFrom (walk links)

/-- The location of a path, a symbolic link at its end being followed too. -/
def resolve (path : Bytes) : Option (Location Bytes) :=
  if cStr path = [] ∨ pathMax ≤ (cStr path).length then none
  else files.walk maxLinks (origin files.working (cStr path)) (components (cStr path))

/-- The last component of a path as a name in the directory that the others lead to. Where a directory is meant there
can be slashes behind it. -/
def place (path : Bytes) (slashes : Bool) : Option (Place files.tree) :=
  let text := if slashes then unslashed (cStr path) else cStr path
  match (components text).reverse with
  | [] => none
  | name :: before =>
    if valid : ValidName name then
      match files.walk maxLinks (origin files.working text) before.reverse with
      | none => none
      | some dir =>
        if found : files.tree.find? dir = some .directory ∧ files.rules.Finds (cStr path) dir then
          some ⟨name, dir, valid, found.1⟩
        else none
    else none

def stat (path : Bytes) : Option (Entry Node) := (files.resolve path).bind files.tree.find?

/-- A new entry of the tree, under a name that entries can have. -/
def create (p : Place files.tree) (e : Entry Node) (free : files.tree.find? p.location = none) : Files where
  tree := files.tree.add p.name p.dir e p.inside free
  working := files.working
  rules := files.rules
  named name dir e' there := by
    rw [FileTree.find?_add] at there
    split at there
    · next same => exact (List.cons.inj same).1 ▸ p.valid
    · exact files.named name dir e' there

def refill (loc : Location Bytes) (content : Bytes) : Files where
  tree := files.tree.put loc (.regular content)
  working := files.working
  rules := files.rules
  named name dir e there := by
    obtain ⟨e', known⟩ := FileTree.exists_of_put there
    exact files.named name dir e' known

def drop (loc : Location Bytes) (empty : files.tree.children loc = []) : Files where
  tree := files.tree.remove loc empty
  working := files.working
  rules := files.rules
  named name dir e there := by
    exact files.named name dir e (FileTree.exists_of_remove there)

def mkdir (path : Bytes) : Bool × Files :=
  match files.place path true with
  | none => (false, files)
  | some p =>
    if free : files.tree.find? p.location = none then
      if files.rules.grants .add p.location then (true, files.create p .directory free) else (false, files)
    else (false, files)

def rmdir (path : Bytes) : Bool × Files :=
  match files.place path true with
  | none => (false, files)
  | some p =>
    if empty : files.tree.children p.location = [] then
      if files.tree.find? p.location = some .directory ∧ files.rules.grants .remove p.location = true then
        (true, files.drop p.location empty)
      else (false, files)
    else (false, files)

def unlink (path : Bytes) : Bool × Files :=
  match files.place path false with
  | none => (false, files)
  | some p =>
    match there : files.tree.find? p.location with
    | some (.file _) =>
      if files.rules.grants .remove p.location then
        (true, files.drop p.location (FileTree.children_file there))
      else (false, files)
    | _ => (false, files)

/-- What becomes of the files when a text is written to one that is opened for it, and created or emptied first. -/
def write (path content : Bytes) : Files :=
  match files.resolve path with
  | none | some [] => files
  | some (name :: dir) =>
    match there : files.tree.find? (name :: dir) with
    | none =>
      if p : ValidName name ∧ files.tree.find? dir = some .directory then
        if files.rules.grants .add (name :: dir) then files.create ⟨name, dir, p.1, p.2⟩ (.file (.regular content)) there
        else files
      else files
    | some (.file (.regular _)) => if files.rules.grants .write (name :: dir) then files.refill (name :: dir) content else files
    | some _ => files

/-- The entries that are read from a directory, its own and that of the one above it first, and which of them are
said to be directories. -/
def readDir (path : Bytes) : Option (List (Bytes × Bool)) :=
  match files.resolve path with
  | none => none
  | some loc =>
    if files.tree.find? loc = some .directory ∧ files.rules.grants .list loc = true then
      some ((bytes ".", files.rules.typed loc) :: (bytes "..", files.rules.typed loc) ::
        (files.tree.children loc).map fun c => (c.1, files.rules.typed loc && c.2 = .directory))
    else none

end Files

end Posix

import DockerPlugin.Library.PosixFiles
import DockerPlugin.Plugin

/-! The sample driver, which keeps every volume as a directory. -/

namespace DockerPlugin.SampleVolume
open Octets Posix Picojson

/-- What the driver uses of its process and machine: the files, how many more descriptors can be opened, the
clock in nanoseconds, the time in seconds at which an entry was modified, and what a variable holds to which
nothing was assigned. -/
structure Host where
  files : Files
  free : Nat
  now : Int64
  modified : Location Bytes → Int64
  indeterminate : UInt64

/-- `std::isspace`. -/
def isspace (b : UInt8) : Bool := b = 32 ∨ (9 ≤ b ∧ b ≤ 13)

/-- `in >> ts`: nothing is assigned where nothing but white space is left. -/
def readUnsigned (text : Bytes) : Option UInt64 :=
  match text.dropWhile isspace with
  | [] => none
  | b :: rest =>
    let (negative, digits) := takeSign (b :: rest)
    match readNumeral 10 (digits.takeWhile isDigit) with
    | none => some 0
    | some n =>
      if n < UInt64.size then some (if negative then -UInt64.ofNat n else UInt64.ofNat n)
      else some (UInt64.ofNat (UInt64.size - 1))

/-- `system_clock::to_time_t`. -/
def toTimeT (tp : Int64) : Int64 := tp / 1000000000

/-- `system_clock::from_time_t`. -/
def fromTimeT (t : Int64) : Int := (t * 1000000000).toInt

/-- What `std::ifstream` has of a file that it could open: its text, or what cannot be read or is not known. -/
inductive Stream
  | text (content : Bytes)
  | other

def ifstream (free : Nat) (files : Files) (path : Bytes) : Option Stream :=
  if free = 0 then none
  else
    match files.resolve path with
    | none => none
    | some loc =>
      if files.rules.grants .read loc then
        match files.tree.find? loc with
        | none | some (.file .socket) => none
        | some (.file (.regular content)) => some (.text content)
        | some _ => some .other
      else none

namespace Util

/-- The bit of a directory is also one of block devices and sockets. -/
def isDir (files : Files) (path : Bytes) : Bool :=
  match files.stat path with
  | none => false
  | some e => mode e &&& 0x4000 ≠ 0

def makeDir (files : Files) (path : Bytes) : Bool × Files := files.mkdir path

/-- The loop of `make_dirs`: `find` goes to the next slash, and `sub` is what is before it. -/
def makeSubs (files : Files) (sub : Bytes) : Bytes → Bool × Files
  | [] => (true, files)
  | b :: rest =>
    if b = 47 then
      if isDir files sub then makeSubs files (sub ++ [b]) rest
      else
        match makeDir files sub with
        | (false, files) => (false, files)
        | (true, files) => makeSubs files (sub ++ [b]) rest
    else makeSubs files (sub ++ [b]) rest

/-- The first byte is never the slash that is found first. -/
def makeDirs (files : Files) (path : Bytes) : Bool × Files :=
  match path with
  | [] => (false, files)
  | first :: rest =>
    match makeSubs files [first] rest with
    | (false, files) => (false, files)
    | (true, files) => if path.getLast? = some 47 then (true, files) else makeDir files path

def loopEntries {σ : Type} (cb : Bytes → Bool → σ → Bool × σ) : List (Bytes × Bool) → σ → Bool × σ
  | [], s => (true, s)
  | (name, dir) :: rest, s =>
    match cb name dir s with
    | (false, s) => (false, s)
    | (true, s) => loopEntries cb rest s

/-- What the callback changes is `s`. -/
def loopDir {σ : Type} (files : Files) (path : Bytes) (cb : Bytes → Bool → σ → Bool × σ) (s : σ) : Bool × σ :=
  match files.readDir path with
  | none => (false, s)
  | some entries => loopEntries cb entries s

def removeFile (files : Files) (path : Bytes) : Bool × Files := files.unlink path

/-- The callback of `remove_dir`. -/
def removeEntry (removeDir : Bytes → Files → Bool × Files) (path name : Bytes) (dir : Bool) (files : Files) :
    Bool × Files :=
  if name = bytes "." ∨ name = bytes ".." then (true, files)
  else if dir then removeDir (path ++ 47 :: name) files
  else removeFile files (path ++ 47 :: name)

/-- `remove_dir`, recursive. Every nested call keeps one more directory open, which fails without a free
descriptor. -/
def removeDir : Nat → Bytes → Files → Bool × Files
  | 0, _, files => (false, files)
  | free + 1, path, files =>
    match loopDir files path (removeEntry (removeDir free) path) files with
    | (false, files) => (false, files)
    | (true, files) => files.rmdir path

def createTime (free : Nat) (host : Host) (path : Bytes) : Int :=
  match ifstream free host.files (path ++ bytes ".create_ts") with
  | some (.text content) => fromTimeT ((readUnsigned content).getD host.indeterminate).toInt64
  | some .other => fromTimeT host.indeterminate.toInt64
  | none =>
    match host.files.resolve path with
    | none => 0
    | some loc => if (host.files.tree.find? loc).isSome then fromTimeT (host.modified loc) else 0

end Util

section
open Util Volume
variable (mRoot : Bytes)

def create : DriverMethod Host CreateRequest ErrorResponse := fun req host =>
  if isDir host.files (mRoot ++ req.name) then
    (.error (.errorResponse ⟨409, bytes "volume " ++ req.name ++ bytes " already exists"⟩), host)
  else
    match makeDirs host.files (mRoot ++ req.name) with
    | (false, files) => (.ok ⟨0, bytes "Failed to create volume directory"⟩, { host with files })
    | (true, files) =>
      let files :=
        if host.free = 0 then files
        else files.write (mRoot ++ req.name ++ bytes ".create_ts") (signedDecimal (toTimeT host.now).toInt)
      (.ok {}, { host with files })

def list : DriverMethod Host EmptyType ListResponse := fun _ host =>
  let visit := fun path dir (res : ListResponse) =>
    if dir = false ∨ path = bytes "." ∨ path = bytes ".." then (true, res)
    else
      let info : VolumeInfo := ⟨path, mRoot ++ path, createTime (host.free - 1) host (mRoot ++ path), .empty⟩
      (true, { res with volumes := res.volumes.insert info })
  let res := if host.free = 0 then {} else (loopDir host.files mRoot visit {}).2
  (.ok res, host)

def get : DriverMethod Host GetRequest GetResponse := fun req host =>
  if isDir host.files (mRoot ++ req.name) then
    (.ok ⟨⟨req.name, mRoot ++ req.name, createTime host.free host (mRoot ++ req.name), .empty⟩⟩, host)
  else (.error (.errorResponse ⟨404, bytes "Could not find volume"⟩), host)

def remove : DriverMethod Host RemoveRequest ErrorResponse := fun req host =>
  if isDir host.files (mRoot ++ req.name) then
    match removeDir host.free (mRoot ++ req.name) host.files with
    | (false, files) => (.ok ⟨0, bytes "Failed to remove volume"⟩, { host with files })
    | (true, files) =>
      (.ok {}, { host with files := (removeFile files (mRoot ++ req.name ++ bytes ".create_ts")).2 })
  else (.error (.errorResponse ⟨404, bytes "Could not find volume " ++ req.name⟩), host)

def path : DriverMethod Host PathRequest PathResponse := fun req host =>
  if isDir host.files (mRoot ++ req.name) then (.ok ⟨mRoot ++ req.name⟩, host)
  else (.error (.errorResponse ⟨404, bytes "Could not find volume " ++ req.name⟩), host)

def mount : DriverMethod Host MountRequest MountResponse := fun req host =>
  if isDir host.files (mRoot ++ req.name) then (.ok ⟨mRoot ++ req.name⟩, host)
  else (.error (.errorResponse ⟨404, bytes "Could not find volume " ++ req.name⟩), host)

def unmount : DriverMethod Host UnmountRequest ErrorResponse := fun _ host => (.ok {}, host)

def capabilities : DriverMethod Host EmptyType CapabilitiesResponse := fun _ host =>
  (.ok ⟨⟨bytes "Local"⟩⟩, host)

/-- `volume_plugin`, with its `m_root`. -/
def volumePlugin : Volume.Driver Host where
  create := create mRoot
  list := list mRoot
  get := get mRoot
  remove := remove mRoot
  path := path mRoot
  mount := mount mRoot
  unmount := unmount
  capabilities := capabilities

end

/-- The plugin that `main` registers the driver with. -/
def samplePlugin (mRoot : Bytes) : Plugin Host := ({} : Plugin Host).registerVolume (volumePlugin mRoot)

/-- The path to a location, from the root. -/
def pathTo (loc : Location Bytes) : Bytes := if loc = [] then [47] else loc.reverse.flatMap (47 :: ·)

def erange : Int32 := 34

/-- `getcwd` with a buffer of so many bytes, or its error. -/
def getcwd (files : Files) (size : Nat) : Except Int32 Bytes :=
  if files.tree.find? files.working = some .directory then
    if (pathTo files.working).length < size then .ok (pathTo files.working) else .error erange
  else .error 2

/-- The loop of `cwd` with what it throws after it, while it runs no longer than the fuel. -/
def cwdLoop (files : Files) : Nat → Nat → Int32 → Option (Except Int32 Bytes)
  | 0, _, _ => none
  | fuel + 1, size, errno =>
    match getcwd files size with
    | .ok buf => some (if errno ≠ 0 then .error errno else .ok buf)
    | .error e => if e = erange then cwdLoop files fuel (size * 2) 0 else some (.error e)

/-- `cwd`, from an error number that is there before. -/
def cwd (files : Files) (errno : Int32) : Option (Except Int32 Bytes) :=
  cwdLoop files ((pathTo files.working).length + 1) 10 errno

/-- What comes of `main` before it runs the plugin. -/
inductive Started
  | uncaught (code : Int32)
  | failed (files : Files)
  | running (mRoot : Bytes) (files : Files)

def start (files : Files) (errno : Int32) : Option Started :=
  (cwd files errno).map fun
    | .error code => .uncaught code
    | .ok here =>
      match Util.makeDirs files (here ++ bytes "/vols/") with
      | (false, files) => .failed files
      | (true, files) => .running (here ++ bytes "/vols/") files

end DockerPlugin.SampleVolume

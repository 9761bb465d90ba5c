import DockerPlugin.VolumeDirectories
import DockerPlugin.PicojsonRoundTrip
import DockerPlugin.ObjectLaws
import DockerPlugin.RemoteCalls
import Mathlib.Data.List.AList

namespace DockerPlugin.SampleVolume
open Octets Posix Picojson FileTree

/-! ### Times in files -/

theorem readUnsigned_signed {text : Bytes} {b : UInt8} {rest : Bytes} {negative : Bool} {n : Nat} (written : text = b :: rest)
    (solid : isspace b = false) (sign : takeSign text = (negative, decimal n)) (small : n < UInt64.size) :
    readUnsigned text = some (if negative then -UInt64.ofNat n else UInt64.ofNat n) := by
  have digits : (decimal n).takeWhile isDigit = decimal n :=
    List.takeWhile_eq_self_iff.mpr fun c member => by
      obtain ⟨d, small, rfl⟩ := mem_numeral (by decide) member
      exact (digitChar_numberByte d small).2.2.2
  have read : readNumeral 10 (decimal n) = some n := readNumeral_numeral (by decide) (by decide) _
  subst written
  rw [readUnsigned, List.dropWhile_cons_of_neg (by simp [solid])]
  simp only [sign, digits, read, if_pos small]

theorem numeric_solid {b : UInt8} (numeric : isDigit b = true ∨ b = 45) : isspace b = false := by
  have low : 45 ≤ b := by
    rcases numeric with digit | rfl
    · simp only [isDigit, decide_eq_true_eq] at digit
      exact UInt8.le_trans (by decide) digit.1
    · exact UInt8.le_refl _
  refine decide_eq_false (not_or.mpr ⟨?_, fun range => ?_⟩)
  · rintro rfl
    exact absurd low (by decide)
  · exact absurd (UInt8.le_trans low range.2) (by decide)

/-- A time is read as it was written, the sign of one before the epoch by the way of the unsigned type. -/
theorem readUnsigned_signedDecimal (t : Int64) : (readUnsigned (signedDecimal t.toInt)).map UInt64.toInt64 = some t := by
  obtain ⟨b, rest, written, head⟩ := signedDecimal_head t.toInt
  have low := t.minValue_le_toInt
  have high := t.toInt_le
  rw [Int64.toInt_minValue] at low
  rw [Int64.toInt_maxValue] at high
  have small : t.toInt.natAbs < UInt64.size := by
    simp only [UInt64.size]
    omega
  by_cases negative : t.toInt < 0
  · have sign : takeSign (signedDecimal t.toInt) = (true, decimal t.toInt.natAbs) := by
      rw [signedDecimal, if_pos negative]
      rfl
    have value : -(t.toInt.natAbs : Int) = t.toInt := by omega
    rw [readUnsigned_signed written (numeric_solid head) sign small, if_pos rfl, Option.map_some]
    congr 1
    have whole : (-UInt64.ofNat t.toInt.natAbs).toInt64 = -Int64.ofNat t.toInt.natAbs := rfl
    rw [whole, ← Int64.ofInt_eq_ofNat, Int64.neg_ofInt, value, Int64.ofInt_toInt]
  · have sign : takeSign (signedDecimal t.toInt) = (false, decimal t.toInt.natAbs) := by
      rw [signedDecimal, if_neg negative, takeSign_decimal]
    have value : (t.toInt.natAbs : Int) = t.toInt := by omega
    rw [readUnsigned_signed written (numeric_solid head) sign small, if_neg Bool.false_ne_true, Option.map_some,
      UInt64.toInt64_ofNat', ← Int64.ofInt_eq_ofNat, value, Int64.ofInt_toInt]
/-! ### What the driver is for -/

/-- Volumes under their names, each with the second in which it was created, and a clock. -/
structure VolumeStore where
  volumes : AList fun _ : Bytes => Int64
  now : Int64

def info (mRoot name : Bytes) (t : Int64) : Volume.VolumeInfo := ⟨name, mRoot ++ name, fromTimeT t, .empty⟩

namespace VolumeStore
open Volume
variable (mRoot : Bytes)

def missing (name : Bytes) : Exception := .errorResponse ⟨404, bytes "Could not find volume " ++ name⟩

def create : DriverMethod VolumeStore CreateRequest ErrorResponse := fun req s =>
  if req.name ∈ s.volumes then
    (.error (.errorResponse ⟨409, bytes "volume " ++ req.name ++ bytes " already exists"⟩), s)
  else (.ok {}, { s with volumes := s.volumes.insert req.name (toTimeT s.now) })

def list : DriverMethod VolumeStore EmptyType ListResponse := fun _ s =>
  (.ok ⟨.ofList (s.volumes.entries.map fun v => info mRoot v.1 v.2)⟩, s)

def get : DriverMethod VolumeStore GetRequest GetResponse := fun req s =>
  match s.volumes.lookup req.name with
  | some t => (.ok ⟨info mRoot req.name t⟩, s)
  | none => (.error (.errorResponse ⟨404, bytes "Could not find volume"⟩), s)

def remove : DriverMethod VolumeStore RemoveRequest ErrorResponse := fun req s =>
  if req.name ∈ s.volumes then (.ok {}, { s with volumes := s.volumes.erase req.name })
  else (.error (missing req.name), s)

def path : DriverMethod VolumeStore PathRequest PathResponse := fun req s =>
  (if req.name ∈ s.volumes then .ok ⟨mRoot ++ req.name⟩ else .error (missing req.name), s)

def mount : DriverMethod VolumeStore MountRequest MountResponse := fun req s =>
  (if req.name ∈ s.volumes then .ok ⟨mRoot ++ req.name⟩ else .error (missing req.name), s)

def driver : Volume.Driver VolumeStore where
  create := create
  list := list mRoot
  get := get mRoot
  remove := remove
  path := path mRoot
  mount := mount mRoot
  unmount := fun _ s => (.ok {}, s)
  capabilities := fun _ s => (.ok ⟨⟨bytes "Local"⟩⟩, s)

end VolumeStore

/-! ### The directory of the volumes -/

def stamp : Bytes := bytes ".create_ts"

theorem stamp_length : stamp.length = 10 := rfl

/-- The name of an entry that leaves room for the ending of the file with its time, and has not that ending itself. -/
structure PlainName (name : Bytes) : Prop where
  valid : ValidName name
  room : name.length + stamp.length ≤ nameMax
  unstamped : ¬ stamp <:+ name

instance (name : Bytes) : Decidable (PlainName name) :=
  decidable_of_iff (ValidName name ∧ name.length + stamp.length ≤ nameMax ∧ ¬ stamp <:+ name)
    ⟨fun ⟨valid, room, unstamped⟩ => ⟨valid, room, unstamped⟩, fun plain => ⟨plain.valid, plain.room, plain.unstamped⟩⟩

theorem stamp_whole {name : Bytes} (valid : ValidName name) : 47 ∉ name ++ stamp ∧ 0 ∉ name ++ stamp :=
  ⟨fun slash => (List.mem_append.mp slash).elim valid.noSlash (by decide),
    fun zero => (List.mem_append.mp zero).elim valid.noZero (by decide)⟩

theorem stamp_valid {name : Bytes} (valid : ValidName name) (room : name.length + stamp.length ≤ nameMax) :
    ValidName (name ++ stamp) := by
  have long : (name ++ stamp).length = name.length + 10 := List.length_append
  refine ⟨?_, ?_, ?_, (stamp_whole valid).1, (stamp_whole valid).2, ?_⟩
  · exact List.append_ne_nil_of_left_ne_nil valid.given _
  · intro same
    rw [same] at long
    exact absurd long (by simp [show (bytes ".").length = 1 from rfl])
  · intro same
    rw [same] at long
    exact absurd long (by simp [show (bytes "..").length = 2 from rfl])
  · rwa [List.length_append]

theorem PlainName.stamped {name : Bytes} (plain : PlainName name) : ValidName (name ++ stamp) :=
  stamp_valid plain.valid plain.room

theorem PlainName.ne_stamp {name : Bytes} (plain : PlainName name) (v : Bytes) : name ≠ v ++ stamp := fun same =>
  plain.unstamped ⟨v, same.symm⟩

/-- What the driver is granted in the directory of the volumes: that it is found, that its entries can be read with
their types, and that entries can be made in it, read and removed. -/
structure Granted (rules : Rules) (root : Location Bytes) : Prop where
  opens : rules.Open root
  listed : rules.grants .list root = true
  typed : rules.typed root = true
  entries : ∀ (access : Access) (name : Bytes), access ≠ .search → access ≠ .write → rules.grants access (name :: root) = true

/-- Where there is room for a name, there is room for a slash. -/
theorem slash_fits {folder : Bytes} (short : folder.length + 1 + nameMax < pathMax) : (folder ++ [47]).length < pathMax := by
  rw [List.length_append, List.length_singleton]
  omega

/-- The directory, under a path that leaves room for any name, has an entry for each volume and a file with its time,
and no others. Each volume can be removed. -/
structure Keeps (folder : Bytes) (root : Location Bytes) (host : Host) (store : VolumeStore) : Prop where
  short : folder.length + 1 + nameMax < pathMax
  rooted : host.files.tree.find? root = some .directory
  granted : Granted host.files.rules root
  plain : ∀ name ∈ store.volumes, PlainName name
  volume : ∀ name ∈ store.volumes, host.files.tree.find? (name :: root) = some .directory
  time : ∀ name t, store.volumes.lookup name = some t → ∃ text,
    host.files.tree.find? ((name ++ stamp) :: root) = some (.file (.regular text)) ∧
      (readUnsigned text).map UInt64.toInt64 = some t
  only : ∀ name e, host.files.tree.find? (name :: root) = some e →
    ∃ v ∈ store.volumes, name = v ∨ name = v ++ stamp
  clock : host.now = store.now
  descriptors : 2 ≤ host.free
  removable : ∀ name ∈ store.volumes, Removable host.files host.free (folder ++ 47 :: name) (name :: root)

section
variable {folder : Bytes} {root : Location Bytes} {host : Host} {store : VolumeStore} {name : Bytes}

theorem Keeps.reached (keeps : Keeps folder root host store) : host.files.Reached root :=
  .of_open keeps.rooted keeps.granted.opens

theorem Keeps.fits (keeps : Keeps folder root host store) (valid : ValidName name) :
    (folder ++ 47 :: name).length < pathMax := by
  have room := keeps.short
  have short := valid.short
  rw [List.length_append, List.length_cons]
  omega

theorem Keeps.found (keeps : Keeps folder root host store) (valid : ValidName name) :
    host.files.rules.Finds (folder ++ 47 :: name) root :=
  ⟨keeps.fits valid, keeps.granted.opens root List.suffix_rfl⟩

theorem Keeps.entry (keeps : Keeps folder root host store) (plain : PlainName name) :
    host.files.tree.find? (name :: root) = if name ∈ store.volumes then some .directory else none := by
  split
  · next known => exact keeps.volume name known
  · next unknown =>
    cases there : host.files.tree.find? (name :: root) with
    | none => rfl
    | some e =>
      obtain ⟨v, known, rfl | rfl⟩ := keeps.only name e there
      · exact absurd known unknown
      · exact absurd rfl (plain.ne_stamp v)

theorem Keeps.isDir (keeps : Keeps folder root host store) (leads : Leads folder root) (plain : PlainName name) :
    Util.isDir host.files (folder ++ 47 :: name) = decide (name ∈ store.volumes) := by
  have noLink : ∀ text, host.files.tree.find? (name :: root) ≠ some (.file (.link text)) := fun text => by
    rw [keeps.entry plain]
    split <;> simp
  rw [isDir_child leads plain.valid keeps.reached noLink (keeps.found plain.valid), keeps.entry plain]
  by_cases known : name ∈ store.volumes <;> simp [known, mode]

/-- The time of a volume is the one that was written when it was created. -/
theorem Keeps.createTime (keeps : Keeps folder root host store) (leads : Leads folder root) {t : Int64}
    (known : store.volumes.lookup name = some t) {free : Nat} (opens : free ≠ 0) :
    Util.createTime free host (folder ++ 47 :: name) = fromTimeT t := by
  have plain : PlainName name := keeps.plain name (AList.lookup_isSome.mp (by rw [known]; rfl))
  obtain ⟨text, there, read⟩ := keeps.time name t known
  have noLink : ∀ other, host.files.tree.find? ((name ++ stamp) :: root) ≠ some (.file (.link other)) := by simp [there]
  have resolved := leads.resolve plain.stamped keeps.reached noLink
  rw [if_pos (keeps.found plain.stamped)] at resolved
  have granted : host.files.rules.grants .read ((name ++ stamp) :: root) = true :=
    keeps.granted.entries .read _ (by decide) (by decide)
  have stream : ifstream free host.files (folder ++ 47 :: name ++ bytes ".create_ts") = .some (.text text) := by
    rw [List.append_assoc, List.cons_append, ← stamp]
    simp only [ifstream, if_neg opens, resolved, granted, if_true, there]
  obtain ⟨n, value, rfl⟩ := Option.map_eq_some_iff.mp read
  simp only [Util.createTime, stream, value, Option.getD_some]

/-- A new volume is an empty directory and a file with its time. -/
theorem Keeps.add (keeps : Keeps folder root host store) (plain : PlainName name) (unknown : name ∉ store.volumes)
    {host' : Host} {text : Bytes} {t : Int64} (read : (readUnsigned text).map UInt64.toInt64 = some t)
    (entries : ∀ loc, host'.files.tree.find? loc =
      if loc = (name ++ stamp) :: root then some (.file (.regular text))
      else if loc = name :: root then some .directory else host.files.tree.find? loc)
    (rules : host'.files.rules = host.files.rules) (clock : host'.now = host.now) (free : host'.free = host.free) :
    Keeps folder root host' { store with volumes := store.volumes.insert name t } := by
  have above : ∀ n : Bytes, root ≠ n :: root := fun n => (List.cons_ne_self n root).symm
  have known : ∀ v ∈ store.volumes, v ≠ name := fun v member same => unknown (same ▸ member)
  have mem : ∀ v, v ∈ store.volumes.insert name t ↔ v = name ∨ v ∈ store.volumes := fun v => AList.mem_insert _
  have made : host'.files.tree.find? (name :: root) = some .directory := by
    rw [entries, if_neg (by simpa using plain.ne_stamp name), if_pos rfl]
  refine ⟨keeps.short, ?_, rules ▸ keeps.granted, ?_, ?_, ?_, ?_, ?_, ?_, ?_⟩
  · rw [entries, if_neg (above _), if_neg (above _), keeps.rooted]
  · intro v member
    rcases (mem v).mp member with rfl | old
    · exact plain
    · exact keeps.plain v old
  · intro v member
    rcases (mem v).mp member with rfl | old
    · exact made
    · rw [entries, if_neg (by simpa using (keeps.plain v old).ne_stamp name), if_neg (by simpa using known v old),
        keeps.volume v old]
  · intro v t' lookup
    by_cases here : v = name
    · subst here
      rw [AList.lookup_insert, Option.some.injEq] at lookup
      exact ⟨text, by rw [entries, if_pos rfl], lookup ▸ read⟩
    · rw [AList.lookup_insert_ne here] at lookup
      obtain ⟨text', there, read'⟩ := keeps.time v t' lookup
      have other : v ++ stamp ≠ name := (plain.ne_stamp v).symm
      exact ⟨text', by rw [entries, if_neg (by simpa using here), if_neg (by simpa using other), there], read'⟩
  · intro n e there
    rw [entries] at there
    split at there
    · next same => exact ⟨name, (mem name).mpr (.inl rfl), .inr (List.cons.inj same).1⟩
    · split at there
      · next same => exact ⟨name, (mem name).mpr (.inl rfl), .inl (List.cons.inj same).1⟩
      · obtain ⟨v, member, which⟩ := keeps.only n e there
        exact ⟨v, (mem v).mpr (.inr member), which⟩
  · exact clock.trans keeps.clock
  · exact free ▸ keeps.descriptors
  · intro v member
    rw [free]
    rcases (mem v).mp member with rfl | old
    · have nothing : host.files.tree.find? (v :: root) = none := by rw [keeps.entry plain, if_neg unknown]
      have empty : host'.files.tree.children (v :: root) = [] := FileTree.children_eq_nil_iff.mpr fun n => by
        rw [entries, if_neg (by simp), if_neg (List.cons_ne_self _ _)]
        exact FileTree.nothing_below (by simp [nothing]) (List.suffix_cons n _) (List.cons_ne_self _ _).symm
      have enough : 0 < host.free := Nat.lt_of_lt_of_le Nat.two_pos keeps.descriptors
      exact removable_empty made empty ⟨rules ▸ keeps.found plain.valid,
        rules ▸ keeps.granted.entries .remove v (by decide) (by decide),
        fun _ => ⟨enough, rules ▸ keeps.granted.entries .list v (by decide) (by decide)⟩⟩
    · refine (removable_congr rules fun names => ?_).mpr (keeps.removable v old)
      have apart : ∀ n : Bytes, n ≠ v → names ++ v :: root ≠ n :: root := fun n other same =>
        names_apart other root names (same ▸ List.suffix_rfl)
      rw [entries, if_neg (apart _ ((keeps.plain v old).ne_stamp name).symm), if_neg (apart _ (known v old).symm)]

/-- What is left without a volume. -/
theorem Keeps.drop (keeps : Keeps folder root host store) (known : name ∈ store.volumes) {host' : Host}
    (entries : ∀ loc, host'.files.tree.find? loc =
      if name :: root <:+ loc ∨ loc = (name ++ stamp) :: root then none else host.files.tree.find? loc)
    (rules : host'.files.rules = host.files.rules) (clock : host'.now = host.now) (free : host'.free = host.free) :
    Keeps folder root host' { store with volumes := store.volumes.erase name } := by
  have mem : ∀ v, v ∈ store.volumes.erase name ↔ v ≠ name ∧ v ∈ store.volumes := fun v => AList.mem_erase
  have below : ∀ (n : Bytes) (names : Location Bytes), n ≠ name → ¬ name :: root <:+ names ++ n :: root :=
    fun n names apart => names_apart apart.symm root names
  have kept : ∀ v ∈ store.volumes, v ≠ name → ∀ names,
      host'.files.tree.find? (names ++ v :: root) = host.files.tree.find? (names ++ v :: root) := by
    intro v old other names
    rw [entries, if_neg]
    rintro (under | same)
    · exact below v names other under
    · exact names_apart ((keeps.plain v old).ne_stamp name).symm root names (same ▸ List.suffix_rfl)
  refine ⟨keeps.short, ?_, rules ▸ keeps.granted, ?_, ?_, ?_, ?_, ?_, ?_, ?_⟩
  · rw [entries, if_neg, keeps.rooted]
    rintro (under | same)
    · exact absurd under.length_le (by simp)
    · exact List.cons_ne_self _ _ same.symm
  · exact fun v member => keeps.plain v ((mem v).mp member).2
  · intro v member
    obtain ⟨other, old⟩ := (mem v).mp member
    exact (kept v old other []).trans (keeps.volume v old)
  · intro v t lookup
    have other : v ≠ name := by
      rintro rfl
      rw [AList.lookup_erase] at lookup
      cases lookup
    rw [AList.lookup_erase_ne other] at lookup
    obtain ⟨text, there, read⟩ := keeps.time v t lookup
    refine ⟨text, ?_, read⟩
    rw [entries, if_neg, there]
    rintro (under | same)
    · exact below (v ++ stamp) [] ((keeps.plain name known).ne_stamp v).symm under
    · exact other (List.append_cancel_right (List.cons.inj same).1)
  · intro n e there
    rw [entries] at there
    split at there
    · cases there
    · next left =>
      obtain ⟨v, old, which⟩ := keeps.only n e there
      refine ⟨v, (mem v).mpr ⟨?_, old⟩, which⟩
      rintro rfl
      rcases which with rfl | rfl
      · exact left (.inl List.suffix_rfl)
      · exact left (.inr rfl)
  · exact clock.trans keeps.clock
  · exact free ▸ keeps.descriptors
  · intro v member
    obtain ⟨other, old⟩ := (mem v).mp member
    rw [free]
    exact (removable_congr rules (kept v old other)).mpr (keeps.removable v old)

theorem slash_append (folder name : Bytes) : folder ++ [47] ++ name = folder ++ 47 :: name := by simp

/-- A volume is created if its name is not in use. -/
theorem create_keeps (keeps : Keeps folder root host store) (leads : Leads folder root) {req : Volume.CreateRequest}
    (plain : PlainName req.name) :
    (create (folder ++ [47]) req host).1 = (VolumeStore.create req store).1 ∧
      Keeps folder root (create (folder ++ [47]) req host).2 (VolumeStore.create req store).2 := by
  by_cases known : req.name ∈ store.volumes
  · simp only [create, slash_append, keeps.isDir leads plain, known, decide_true, if_true, VolumeStore.create, true_and]
    exact keeps
  · have nothing : host.files.tree.find? (req.name :: root) = none := by rw [keeps.entry plain, if_neg known]
    obtain ⟨files, made, rules, first⟩ := makeDirs_child leads plain.valid keeps.rooted keeps.granted.opens
      (keeps.fits plain.valid) (keeps.granted.entries .add _ (by decide) (by decide))
    rw [nothing, decide_eq_true rfl] at made
    simp only [nothing, and_true] at first
    have opens : host.free ≠ 0 := Nat.ne_of_gt (Nat.lt_of_lt_of_le Nat.two_pos keeps.descriptors)
    have noStamp : host.files.tree.find? ((req.name ++ stamp) :: root) = none := by
      cases there : host.files.tree.find? ((req.name ++ stamp) :: root) with
      | none => rfl
      | some e =>
        obtain ⟨v, member, same | same⟩ := keeps.only _ e there
        · exact absurd same.symm ((keeps.plain v member).ne_stamp req.name)
        · exact absurd (List.append_cancel_right same ▸ member) known
    have above : root ≠ req.name :: root := (List.cons_ne_self _ root).symm
    have apart : (req.name ++ stamp) :: root ≠ req.name :: root := fun same =>
      plain.ne_stamp req.name (List.cons.inj same).1.symm
    obtain ⟨text, written⟩ : ∃ text, signedDecimal (toTimeT host.now).toInt = text := ⟨_, rfl⟩
    have stays : files.tree.find? root = some .directory := by rw [first, if_neg above, keeps.rooted]
    have reached : files.Reached root := .of_open stays (rules ▸ keeps.granted.opens)
    have free : files.tree.find? ((req.name ++ stamp) :: root) = none := by rw [first, if_neg apart, noStamp]
    have second := leads.write plain.stamped reached (rules ▸ keeps.found plain.stamped) free
      (rules ▸ keeps.granted.entries .add _ (by decide) (by decide)) text
    have created : create (folder ++ [47]) req host =
        (.ok {}, { host with files := files.write (folder ++ 47 :: (req.name ++ stamp)) text }) := by
      simp only [create, slash_append, keeps.isDir leads plain, known, decide_false, made, if_neg opens, written]
      simp [stamp]
    have read : (readUnsigned text).map UInt64.toInt64 = some (toTimeT store.now) := by
      rw [← written, readUnsigned_signedDecimal, keeps.clock]
    rw [created, VolumeStore.create, if_neg known, second]
    refine ⟨rfl, keeps.add plain known read (fun loc => ?_) rules rfl rfl⟩
    rw [Files.find?_create, first]

theorem remove_keeps (keeps : Keeps folder root host store) (leads : Leads folder root) {req : Volume.RemoveRequest}
    (plain : PlainName req.name) :
    (remove (folder ++ [47]) req host).1 = (VolumeStore.remove req store).1 ∧
      Keeps folder root (remove (folder ++ [47]) req host).2 (VolumeStore.remove req store).2 := by
  by_cases known : req.name ∈ store.volumes
  · have removed := removeDir_removes host.free leads plain.valid keeps.reached (keeps.volume _ known)
    have done := removed.done.mpr (keeps.removable _ known)
    have gone := removed.whole done
    have apart : ¬ req.name :: root <:+ (req.name ++ stamp) :: root :=
      names_apart (plain.ne_stamp req.name) root []
    have above : ¬ req.name :: root <:+ root := fun under => absurd under.length_le (by simp)
    obtain ⟨t, lookup⟩ := Option.isSome_iff_exists.mp (AList.lookup_isSome.mpr known)
    obtain ⟨text, there, -⟩ := keeps.time _ t lookup
    cases outcome : Util.removeDir host.free (folder ++ 47 :: req.name) host.files with
    | mk went files =>
      rw [outcome] at removed done gone
      obtain rfl : went = true := done
      have rules : files.rules = host.files.rules := removed.rules
      have stays : files.tree.find? root = some .directory := (gone.kept _ above).trans keeps.rooted
      have left : files.tree.find? ((req.name ++ stamp) :: root) = some (.file (.regular text)) :=
        (gone.kept _ apart).trans there
      have found : files.rules.Finds (folder ++ 47 :: (req.name ++ stamp)) root := rules ▸ keeps.found plain.stamped
      have granted : files.rules.grants .remove ((req.name ++ stamp) :: root) = true :=
        rules ▸ keeps.granted.entries .remove _ (by decide) (by decide)
      have last : Without files.tree (Util.removeFile files (folder ++ 47 :: (req.name ++ stamp))).2.tree
          (· = (req.name ++ stamp) :: root) :=
        (leads.unlink plain.stamped (keeps.reached.kept rules stays)).2.congr fun loc => by simp [left, found, granted]
      have both := gone.trans last
      have result : remove (folder ++ [47]) req host =
          (.ok {}, { host with files := (Util.removeFile files (folder ++ 47 :: (req.name ++ stamp))).2 }) := by
        simp only [remove, slash_append, keeps.isDir leads plain, known, decide_true, if_true, outcome]
        simp [stamp]
      rw [result, VolumeStore.remove, if_pos known]
      refine ⟨rfl, keeps.drop known (fun loc => ?_) ((Files.unlink_rules files _).trans rules) rfl rfl⟩
      split
      · next no => exact both.absent loc no
      · next yes => exact both.kept loc yes
  · simp only [remove, slash_append, keeps.isDir leads plain, known, decide_false, VolumeStore.remove]
    exact ⟨rfl, keeps⟩

/-- A removal succeeds exactly if all that the volume has in it can be removed, and then leaves nothing of it and of
the file with its time, as far as that is granted. If it fails, the volume has lost no more than some of what was in
it, and is still there. -/
theorem removal_outcome (leads : Leads folder root) (reached : host.files.Reached root) (valid : ValidName name)
    (there : host.files.tree.find? (name :: root) = some .directory)
    (found : host.files.rules.Finds (folder ++ 47 :: name) root) :
    Removable host.files host.free (folder ++ 47 :: name) (name :: root) ∧
        (remove (folder ++ [47]) ⟨name⟩ host).1 = .ok {} ∧
        Without host.files.tree (remove (folder ++ [47]) ⟨name⟩ host).2.files.tree (fun loc => name :: root <:+ loc ∨
          loc = (name ++ stamp) :: root ∧ (∃ node, host.files.tree.find? ((name ++ stamp) :: root) = some (.file node)) ∧
            host.files.rules.Finds (folder ++ 47 :: (name ++ stamp)) root ∧
            host.files.rules.grants .remove ((name ++ stamp) :: root) = true) ∨
      ¬ Removable host.files host.free (folder ++ 47 :: name) (name :: root) ∧
        (remove (folder ++ [47]) ⟨name⟩ host).1 = .ok ⟨0, bytes "Failed to remove volume"⟩ ∧
        Thinned host.files.tree (remove (folder ++ [47]) ⟨name⟩ host).2.files.tree (name :: root) ∧
        (remove (folder ++ [47]) ⟨name⟩ host).2.files.tree.find? (name :: root) = some .directory := by
  have removed := removeDir_removes host.free leads valid reached there
  have apart : ¬ name :: root <:+ (name ++ stamp) :: root :=
    names_apart (fun same => absurd (congrArg List.length same) (by simp [stamp_length])) root []
  have above : ¬ name :: root <:+ root := fun under => absurd under.length_le (by simp)
  have isDir : Util.isDir host.files (folder ++ 47 :: name) = true := by
    rw [isDir_child leads valid reached (by simp [there]) found, there]
    rfl
  cases outcome : Util.removeDir host.free (folder ++ 47 :: name) host.files with
  | mk went files =>
    rw [outcome] at removed
    cases went with
    | false =>
      have result : remove (folder ++ [47]) ⟨name⟩ host =
          (.ok ⟨0, bytes "Failed to remove volume"⟩, { host with files }) := by
        simp only [remove, slash_append, isDir, if_true, outcome]
      refine .inr ⟨mt removed.done.mpr Bool.false_ne_true, ?_, ?_, ?_⟩
      · rw [result]
      · rw [result]
        exact removed.thinned
      · rw [result]
        exact (removed.left rfl).trans there
    | true =>
      have gone := removed.whole rfl
      have rules : files.rules = host.files.rules := removed.rules
      have stays : files.tree.find? root = some .directory := (gone.kept _ above).trans reached.directory
      have same : files.tree.find? ((name ++ stamp) :: root) = host.files.tree.find? ((name ++ stamp) :: root) :=
        gone.kept _ apart
      have last := leads.unlink_any (reached.kept rules stays) (stamp_whole valid).1 (stamp_whole valid).2
      rw [same, rules] at last
      have result : remove (folder ++ [47]) ⟨name⟩ host =
          (.ok {}, { host with files := (files.unlink (folder ++ 47 :: (name ++ stamp))).2 }) := by
        simp only [remove, slash_append, isDir, if_true, outcome, Util.removeFile]
        simp [stamp]
      rw [result]
      exact .inl ⟨removed.done.mp rfl, rfl, gone.trans last⟩

/-- A volume with a directory in it, on a machine that grants everything. -/
def nestedVolume : Files where
  tree := ⟨[([bytes "srv"], .directory), ([bytes "v", bytes "srv"], .directory),
    ([bytes "a", bytes "v", bytes "srv"], .directory)], by decide, by decide, by decide⟩
  working := []
  rules := ⟨fun _ _ => true, fun _ => true⟩
  named name dir e there := by
    have known := (FileTree.find?_eq_some_iff (List.cons_ne_nil name dir)).mp there
    have names : name = bytes "srv" ∨ name = bytes "v" ∨ name = bytes "a" := by
      simp only [List.mem_cons, Prod.mk.injEq, List.cons.injEq, List.not_mem_nil, or_false] at known
      exact known.imp (fun k => k.1.1) (Or.imp (fun k => k.1.1) fun k => k.1.1)
    rcases names with rfl | rfl | rfl <;> decide

theorem nestedVolume_removable : Removable nestedVolume 2 (bytes "/srv" ++ 47 :: bytes "v") [bytes "v", bytes "srv"] := by
  have entries : nestedVolume.tree.children [bytes "v", bytes "srv"] = [(bytes "a", .directory)] := by decide
  rw [removable_directory (by decide), entries]
  refine ⟨⟨by decide, rfl, fun _ => ⟨Nat.two_pos, rfl⟩⟩, List.forall_mem_singleton.mpr ⟨fun _ => rfl, ?_⟩⟩
  exact removable_empty (by decide) (by decide) ⟨by decide, rfl, fun _ => ⟨Nat.one_pos, rfl⟩⟩

theorem removal_outcome_nested :
    (remove (bytes "/srv" ++ [47]) ⟨bytes "v"⟩ ⟨nestedVolume, 2, 0, fun _ => 0, 0⟩).1 = .ok {} ∧
      (remove (bytes "/srv" ++ [47]) ⟨bytes "v"⟩ ⟨nestedVolume, 1, 0, fun _ => 0, 0⟩).1 =
        .ok ⟨0, bytes "Failed to remove volume"⟩ := by
  have leads : Leads (bytes "/srv") [bytes "srv"] := Leads.root.child (by decide)
  have reached : nestedVolume.Reached [bytes "srv"] := ⟨by decide, fun _ _ _ => rfl⟩
  have there : nestedVolume.tree.find? [bytes "v", bytes "srv"] = some .directory := by decide
  have found : nestedVolume.rules.Finds (bytes "/srv" ++ 47 :: bytes "v") [bytes "srv"] := by decide
  have either := fun free => @removal_outcome (bytes "/srv") [bytes "srv"] ⟨nestedVolume, free, 0, fun _ => 0, 0⟩
    (bytes "v") leads reached (by decide) there found
  constructor
  · rcases either 2 with ⟨-, removed, -⟩ | ⟨stuck, -⟩
    · exact removed
    · exact absurd nestedVolume_removable stuck
  · rcases either 1 with ⟨removable, -⟩ | ⟨-, failed, -⟩
    · have deep := ((removable [bytes "a"] .directory (by decide)).1.opened rfl).1
      exact absurd deep (Nat.lt_irrefl 0)
    · exact failed

theorem get_keeps (keeps : Keeps folder root host store) (leads : Leads folder root) {req : Volume.GetRequest}
    (plain : PlainName req.name) :
    (get (folder ++ [47]) req host).1 = (VolumeStore.get (folder ++ [47]) req store).1 ∧
      Keeps folder root (get (folder ++ [47]) req host).2 (VolumeStore.get (folder ++ [47]) req store).2 := by
  have opens : host.free ≠ 0 := Nat.ne_of_gt (Nat.lt_of_lt_of_le Nat.two_pos keeps.descriptors)
  cases lookup : store.volumes.lookup req.name with
  | none =>
    have unknown : req.name ∉ store.volumes := AList.lookup_eq_none.mp lookup
    simp only [get, slash_append, keeps.isDir leads plain, unknown, decide_false, VolumeStore.get, lookup]
    exact ⟨rfl, keeps⟩
  | some t =>
    have known : req.name ∈ store.volumes := AList.lookup_isSome.mp (by rw [lookup]; rfl)
    simp only [get, slash_append, keeps.isDir leads plain, known, decide_true, if_true, VolumeStore.get, lookup, info,
      keeps.createTime leads lookup opens, true_and]
    exact keeps

theorem path_keeps (keeps : Keeps folder root host store) (leads : Leads folder root) {req : Volume.PathRequest}
    (plain : PlainName req.name) :
    (path (folder ++ [47]) req host).1 = (VolumeStore.path (folder ++ [47]) req store).1 ∧
      Keeps folder root (path (folder ++ [47]) req host).2 (VolumeStore.path (folder ++ [47]) req store).2 := by
  by_cases known : req.name ∈ store.volumes
  · simpa [path, keeps.isDir leads plain, known, VolumeStore.path] using keeps
  · simpa [path, keeps.isDir leads plain, known, VolumeStore.path, VolumeStore.missing] using keeps

theorem mount_keeps (keeps : Keeps folder root host store) (leads : Leads folder root) {req : Volume.MountRequest}
    (plain : PlainName req.name) :
    (mount (folder ++ [47]) req host).1 = (VolumeStore.mount (folder ++ [47]) req store).1 ∧
      Keeps folder root (mount (folder ++ [47]) req host).2 (VolumeStore.mount (folder ++ [47]) req store).2 := by
  by_cases known : req.name ∈ store.volumes
  · simpa [mount, keeps.isDir leads plain, known, VolumeStore.mount] using keeps
  · simpa [mount, keeps.isDir leads plain, known, VolumeStore.mount, VolumeStore.missing] using keeps

/-- The loop of `list` over entries that have names. -/
theorem loopEntries_list (describe : Bytes → Volume.VolumeInfo)
    {visit : Bytes → Bool → Volume.ListResponse → Bool × Volume.ListResponse}
    (visits : ∀ n dir res, visit n dir res = if dir = false ∨ n = bytes "." ∨ n = bytes ".." then (true, res)
      else (true, { res with volumes := res.volumes.insert (describe n) }))
    {cs : List (Bytes × Entry Node)} (valid : ∀ c ∈ cs, ValidName c.1) (res : Volume.ListResponse) :
    (Util.loopEntries visit (cs.map fun c => (c.1, decide (c.2 = .directory))) res).2.volumes =
      (((cs.filter fun c => c.2 = .directory).map Prod.fst).map describe).foldl OrderedSet.insert res.volumes := by
  induction cs generalizing res with
  | nil => rfl
  | cons c cs ih =>
    obtain ⟨first, later⟩ := List.forall_mem_cons.mp valid
    by_cases dir : c.2 = .directory
    · simp only [List.map_cons, Util.loopEntries, visits, dir, decide_true, first.notHere, first.notUp, or_self,
        Bool.true_eq_false, if_false, ih later, List.filter_cons, if_true, List.foldl_cons]
    · simp only [List.map_cons, Util.loopEntries, visits, dir, decide_false, true_or, if_true, ih later,
        List.filter_cons, Bool.false_eq_true, if_false]

theorem infos_apart {names : List Bytes} (nodup : names.Nodup) (describe : Bytes → Volume.VolumeInfo)
    (named : ∀ n, (describe n).name = n) :
    (names.map describe).Pairwise fun a b => Volume.VolumeInfo.less a b = true ∨ Volume.VolumeInfo.less b a = true := by
  refine List.pairwise_map.mpr (nodup.imp fun {a b} apart => ?_)
  by_contra neither
  rw [not_or, Bool.not_eq_true, Bool.not_eq_true] at neither
  simp only [Volume.VolumeInfo.less, named] at neither
  exact apart (eq_of_not_less neither.1 neither.2)

theorem Keeps.directories (keeps : Keeps folder root host store) :
    (((host.files.tree.children root).filter fun c => c.2 = .directory).map Prod.fst).Perm store.volumes.keys := by
  refine (List.perm_ext_iff_of_nodup ?_ store.volumes.keys_nodup).mpr fun n => ?_
  · exact (FileTree.children_nodup root).sublist (List.filter_sublist.map _)
  · rw [← AList.mem_keys, List.mem_map]
    constructor
    · rintro ⟨⟨n, e⟩, member, rfl⟩
      obtain ⟨member, dir⟩ := List.mem_filter.mp member
      obtain rfl : e = .directory := of_decide_eq_true dir
      have there := FileTree.mem_children.mp member
      obtain ⟨v, known, rfl | rfl⟩ := keeps.only n _ there
      · exact known
      · obtain ⟨t, lookup⟩ := Option.isSome_iff_exists.mp (AList.lookup_isSome.mpr known)
        obtain ⟨text, file, -⟩ := keeps.time v t lookup
        rw [file] at there
        cases there
    · intro known
      have there := FileTree.mem_children.mpr (keeps.volume n known)
      exact ⟨(n, .directory), List.mem_filter.mpr ⟨there, decide_eq_true rfl⟩, rfl⟩

/-- The volumes are listed with their times, whatever the order in which the directory is read. -/
theorem list_keeps (keeps : Keeps folder root host store) (leads : Leads folder root) (req : EmptyType) :
    (list (folder ++ [47]) req host).1 = (VolumeStore.list (folder ++ [47]) req store).1 := by
  have opens : host.free ≠ 0 := Nat.ne_of_gt (Nat.lt_of_lt_of_le Nat.two_pos keeps.descriptors)
  have another : host.free - 1 ≠ 0 := Nat.sub_ne_zero_of_lt (Nat.lt_of_lt_of_le Nat.one_lt_two keeps.descriptors)
  obtain ⟨describe, is⟩ : ∃ describe : Bytes → Volume.VolumeInfo, describe = fun n =>
      ⟨n, folder ++ [47] ++ n, Util.createTime (host.free - 1) host (folder ++ [47] ++ n), .empty⟩ := ⟨_, rfl⟩
  have entries : host.files.readDir (folder ++ [47]) = some ((bytes ".", true) :: (bytes "..", true) ::
      (host.files.tree.children root).map fun c => (c.1, decide (c.2 = .directory))) := by
    simp [Files.readDir, leads.resolve_slash keeps.reached (slash_fits keeps.short), keeps.rooted, keeps.granted.listed, keeps.granted.typed]
  have valid : ∀ c ∈ host.files.tree.children root, ValidName c.1 := fun c member =>
    host.files.named c.1 root c.2 (FileTree.mem_children.mp member)
  have known : store.volumes.entries.map (fun v => info (folder ++ [47]) v.1 v.2) = store.volumes.keys.map describe := by
    rw [AList.keys, List.keys, List.map_map]
    refine List.map_congr_left fun v member => ?_
    have lookup : store.volumes.lookup v.1 = some v.2 := AList.mem_lookup_iff.mpr member
    simp only [is, info, Function.comp, slash_append, keeps.createTime leads lookup another]
  have volumes := loopEntries_list describe (fun _ _ _ => rfl) valid {}
  have run : (list (folder ++ [47]) req host).1 = .ok ⟨OrderedSet.ofList
      ((((host.files.tree.children root).filter fun c => c.2 = .directory).map Prod.fst).map describe)⟩ := by
    rw [OrderedSet.ofList, ← show ({} : Volume.ListResponse).volumes = .empty from rfl, ← volumes]
    simp only [list, if_neg opens, Util.loopDir, entries, Util.loopEntries, is, or_true, true_or, if_true]
  have order := infos_apart (store.volumes.keys_nodup.perm keeps.directories.symm) describe fun n => by rw [is]
  rw [run, OrderedSet.ofList_perm order (keeps.directories.map describe), ← known]
  rfl

end

/-! ### Runs of the plugin -/

def storePlugin (mRoot : Bytes) : Plugin VolumeStore := ({} : Plugin VolumeStore).registerVolume (VolumeStore.driver mRoot)

/-- The name of the volume that a call is about. -/
def volumeOf : HandlerCall → Option Bytes
  | ⟨.volumeCreate, req⟩ => some (req : Volume.CreateRequest).name
  | ⟨.volumeGet, req⟩ => some (req : Volume.GetRequest).name
  | ⟨.volumeRemove, req⟩ => some (req : Volume.RemoveRequest).name
  | ⟨.volumePath, req⟩ => some (req : Volume.PathRequest).name
  | ⟨.volumeMount, req⟩ => some (req : Volume.MountRequest).name
  | _ => none

section
variable {folder : Bytes} {root : Location Bytes} {host : Host} {store : VolumeStore}

/-- A call comes to what it comes to for the store. -/
theorem perform_keeps (keeps : Keeps folder root host store) (leads : Leads folder root) {call : HandlerCall}
    (plain : ∀ name, volumeOf call = some name → PlainName name) :
    ((samplePlugin (folder ++ [47])).perform call host).1 = ((storePlugin (folder ++ [47])).perform call store).1 ∧
      Keeps folder root ((samplePlugin (folder ++ [47])).perform call host).2
        ((storePlugin (folder ++ [47])).perform call store).2 := by
  obtain ⟨h, req⟩ := call
  cases h with
  | volumeCreate =>
    obtain ⟨result, after⟩ := create_keeps keeps leads (plain _ rfl)
    exact ⟨congrArg CallResult.outcome result, after⟩
  | volumeRemove =>
    obtain ⟨result, after⟩ := remove_keeps keeps leads (plain _ rfl)
    exact ⟨congrArg CallResult.outcome result, after⟩
  | volumeGet =>
    obtain ⟨result, after⟩ := get_keeps keeps leads (plain _ rfl)
    exact ⟨congrArg CallResult.outcome result, after⟩
  | volumeList => exact ⟨congrArg CallResult.outcome (list_keeps keeps leads req), keeps⟩
  | volumePath =>
    obtain ⟨result, after⟩ := path_keeps keeps leads (plain _ rfl)
    exact ⟨congrArg CallResult.outcome result, after⟩
  | volumeMount =>
    obtain ⟨result, after⟩ := mount_keeps keeps leads (plain _ rfl)
    exact ⟨congrArg CallResult.outcome result, after⟩
  | _ => exact ⟨rfl, keeps⟩

end

end DockerPlugin.SampleVolume

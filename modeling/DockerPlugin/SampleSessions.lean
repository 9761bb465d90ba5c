import DockerPlugin.VolumeStore

namespace DockerPlugin.SampleVolume
open Octets Posix Picojson Http PluginConnection

/-! ### The start of the program -/

/-- Files as a process sees them that is started in a directory. -/
def within (files : Files) (working : Location Bytes) : Files := { files with working }

theorem base_leads {tree : FileTree Bytes Node} {loc : Location Bytes} {e : Entry Node}
    (named : ∀ name dir e, tree.find? (name :: dir) = some e → ValidName name) (there : tree.find? loc = some e) :
    Leads (loc.reverse.flatMap (47 :: ·)) loc := by
  induction loc generalizing e with
  | nil => exact Leads.root
  | cons name loc ih =>
    have further := (ih (FileTree.parent there)).child (named name loc e there)
    simpa using further

theorem pathTo_leads (files : Files) (there : files.tree.find? files.working = some .directory) :
    Leads (pathTo files.working) files.working := by
  unfold pathTo
  split
  · next top =>
    have slash : Leads ([] ++ 47 :: []) [] := Leads.root.slash
    rwa [top]
  · exact base_leads files.named there

/-- The buffer is large enough after it was doubled a few times. -/
theorem cwdLoop_grows {files : Files} (there : files.tree.find? files.working = some .directory) {fuel size : Nat}
    (given : 0 < size) (more : 0 < fuel) (enough : (pathTo files.working).length + 2 ≤ size + fuel) :
    cwdLoop files fuel size 0 = some (.ok (pathTo files.working)) := by
  induction fuel generalizing size with
  | zero => exact absurd more (Nat.lt_irrefl 0)
  | succ fuel ih =>
    rw [cwdLoop, getcwd, if_pos there]
    by_cases fits : (pathTo files.working).length < size
    · simp [fits]
    · have again : cwdLoop files fuel (size * 2) 0 = _ := ih (by omega) (by omega) (by omega)
      simp [fits, erange, again]

/-- `cwd` gives the directory in which the process was started, however long its path is, but for a short path
throws an error number that was there before. -/
theorem cwd_eq {files : Files} (there : files.tree.find? files.working = some .directory) (errno : Int32) :
    cwd files errno = some (if (pathTo files.working).length < 10 ∧ errno ≠ 0 then .error errno
      else .ok (pathTo files.working)) := by
  rw [cwd, cwdLoop, getcwd, if_pos there]
  by_cases fits : (pathTo files.working).length < 10
  · by_cases stale : errno ≠ 0 <;> simp [fits, stale]
  · have again : cwdLoop files (pathTo files.working).length 20 0 = _ :=
      cwdLoop_grows there (by omega) (by omega) (by omega)
    simp [fits, erange, again]

/-- The directory of the volumes of a program that is started in a directory. -/
def volumesIn (working : Location Bytes) : Location Bytes := bytes "vols" :: working

def folderIn (working : Location Bytes) : Bytes := pathTo working ++ 47 :: bytes "vols"

theorem folder_leads {files : Files} (there : files.tree.find? files.working = some .directory) :
    Leads (folderIn files.working) (volumesIn files.working) :=
  (pathTo_leads files there).child (by decide)

/-- The program makes the directory of the volumes if it is not there. -/
theorem start_running {files : Files} (there : files.tree.find? files.working = some .directory)
    (opens : files.rules.Open (volumesIn files.working)) (short : (folderIn files.working ++ [47]).length < pathMax)
    (clear : CanBe files (volumesIn files.working)) :
    ∃ files', start files 0 = some (.running (folderIn files.working ++ [47]) files') ∧ files'.rules = files.rules ∧
      ∀ loc, files'.tree.find? loc =
        if loc = volumesIn files.working then some .directory else files.tree.find? loc := by
  have above : ∀ dir, dir <:+ files.working → files.tree.find? dir = some .directory := fun dir under => by
    by_cases here : dir = files.working
    · rw [here, there]
    · exact FileTree.above there under here
  have way : ∀ dir, dir <:+ volumesIn files.working → CanBe files dir := by
    intro dir under
    rcases List.suffix_cons_iff.mp under with rfl | further
    · exact clear
    · exact .inl (above dir further)
  obtain ⟨files', made, rules, entries⟩ := makeDirs_folder (folder_leads there) opens short way
  refine ⟨files', ?_, rules, fun loc => ?_⟩
  · have path : pathTo files.working ++ bytes "/vols/" = folderIn files.working ++ [47] := by
      simp [folderIn, show bytes "/vols/" = 47 :: (bytes "vols" ++ [47]) from rfl]
    rw [start, cwd_eq there, if_neg (by simp)]
    simp only [Option.map_some, path, made]
  · rw [entries]
    by_cases here : loc = volumesIn files.working
    · rw [if_pos here, if_pos (here ▸ List.suffix_rfl)]
    · rw [if_neg here]
      split
      · next under =>
        rw [above loc ((List.suffix_cons_iff.mp under).resolve_left here)]
      · rfl

/-! ### Runs of the program -/

/-- What happens while the program is used: an engine makes calls over a connection, things happen that are not its
own doing, or it is started again. -/
inductive Event
  | connection (calls : List HandlerCall)
  | meanwhile (now : Int64)
  | restart

/-- A host after whatever else: the directory has the same entries, and those that are files hold the same, but the
volumes and everything elsewhere can be different. As much is granted in the directory, and all that is in a volume can
be removed. -/
structure Meanwhile (folder : Bytes) (root : Location Bytes) (host host' : Host) : Prop where
  rooted : host'.files.tree.find? root = some .directory
  granted : Granted host'.files.rules root
  entries : ∀ name, host'.files.tree.find? (name :: root) = host.files.tree.find? (name :: root)
  descriptors : 2 ≤ host'.free
  removable : ∀ name, host'.files.tree.find? (name :: root) = some .directory →
    Removable host'.files host'.free (folder ++ 47 :: name) (name :: root)

/-- What the program does with a host, and the bytes that it sends over each connection. -/
inductive Serves (policy : InformationResult) (working : Location Bytes) : Host → List Event → List Bytes → Host → Prop
  | done (host : Host) : Serves policy working host [] [] host
  | connection {host last : Host} {calls : List HandlerCall} {history : List Delivery} {uds : UdsConnection}
      {events : List Event} {wires : List Bytes} :
      List.Forall₂ Delivery.Carries history calls → uds.Healthy → uds.log = [] →
      Serves policy working
        (serve policy history (fresh (samplePlugin (folderIn working ++ [47])) host uds)).self.drivers events wires last →
      Serves policy working host (.connection calls :: events)
        ((serve policy history (fresh (samplePlugin (folderIn working ++ [47])) host uds)).http.uds.accepted :: wires) last
  | meanwhile {host host' last : Host} {events : List Event} {wires : List Bytes} :
      Meanwhile (folderIn working) (volumesIn working) host host' → Serves policy working host' events wires last →
      Serves policy working host (.meanwhile host'.now :: events) wires last
  | restart {host last : Host} {files : Files} {events : List Event} {wires : List Bytes} :
      start (within host.files working) 0 = some (.running (folderIn working ++ [47]) files) →
      Serves policy working { host with files } events wires last →
      Serves policy working host (.restart :: events) wires last

namespace VolumeStore

/-- What comes of the calls over each connection for the store. -/
def after (mRoot : Bytes) : List Event → VolumeStore → List (List (Σ h, CallResult h)) × VolumeStore
  | [], store => ([], store)
  | .connection calls :: events, store =>
    let (results, store) := (storePlugin mRoot).performAll (calls.map .arriving) store
    let (others, store) := after mRoot events store
    (results :: others, store)
  | .meanwhile now :: events, store => after mRoot events { store with now }
  | .restart :: events, store => after mRoot events store

end VolumeStore

/-- The bytes are read as one response to each call, from which its result is heard. -/
def Tell (results : List (Σ h, CallResult h)) (wire : Bytes) : Prop :=
  ∃ responses, readResponses wire.length wire = some responses ∧
    List.Forall₂ (fun result response => ∃ heard, hear result.1 response = some heard ∧ result.2.Tells heard)
      results responses

section
variable {folder : Bytes} {root working : Location Bytes} {host : Host} {store : VolumeStore}

theorem Keeps.meanwhile (keeps : Keeps folder root host store) {host' : Host} (other : Meanwhile folder root host host') :
    Keeps folder root host' { store with now := host'.now } where
  short := keeps.short
  rooted := other.rooted
  granted := other.granted
  plain := keeps.plain
  volume name known := (other.entries name).trans (keeps.volume name known)
  time name t lookup := by
    rw [other.entries]
    exact keeps.time name t lookup
  only name e there := keeps.only name e ((other.entries name).symm.trans there)
  clock := rfl
  descriptors := other.descriptors
  removable name known := other.removable name ((other.entries name).trans (keeps.volume name known))

/-- The same entries keep the same store. -/
theorem Keeps.congr (keeps : Keeps folder root host store) {files : Files} (rules : files.rules = host.files.rules)
    (same : ∀ loc, files.tree.find? loc = host.files.tree.find? loc) : Keeps folder root { host with files } store where
  short := keeps.short
  rooted := (same root).trans keeps.rooted
  granted := rules ▸ keeps.granted
  plain := keeps.plain
  volume name known := (same _).trans (keeps.volume name known)
  time name t lookup := by
    rw [same]
    exact keeps.time name t lookup
  only name e there := keeps.only name e ((same _).symm.trans there)
  clock := keeps.clock
  descriptors := keeps.descriptors
  removable name known := (removable_congr rules fun _ => same _).mpr (keeps.removable name known)

/-- The name of a volume arrives as it is. -/
theorem volumeOf_arriving (call : HandlerCall) : volumeOf call.arriving = volumeOf call := by
  obtain ⟨h, req⟩ := call
  cases h <;> rfl

theorem tellable_of_codes {h : Handler} {result : CallResult h}
    (codes : ∀ e, result = .outcome (.error (.errorResponse e)) → e.status = 404 ∨ e.status = 409) : result.Tellable := by
  intro e thrown
  rcases codes e thrown with code | code
  · rw [code]
    exact ⟨by constructor <;> decide, by decide⟩
  · rw [code]
    exact ⟨by constructor <;> decide, by decide⟩

/-- Every result of the store can be told. -/
theorem store_tellable (mRoot : Bytes) (call : HandlerCall) (store : VolumeStore) :
    ((storePlugin mRoot).perform call store).1.Tellable := by
  refine tellable_of_codes fun e thrown => ?_
  obtain ⟨h, req⟩ := call
  cases h with
  | volumeCreate =>
    have outcome : (VolumeStore.create req store).1 = .error (.errorResponse e) := CallResult.outcome.inj thrown
    unfold VolumeStore.create at outcome
    split at outcome
    · cases outcome
      exact .inr rfl
    · cases outcome
  | volumeRemove =>
    have outcome : (VolumeStore.remove req store).1 = .error (.errorResponse e) := CallResult.outcome.inj thrown
    unfold VolumeStore.remove at outcome
    split at outcome
    · cases outcome
    · cases outcome
      exact .inl rfl
  | volumeGet =>
    have outcome : (VolumeStore.get mRoot req store).1 = .error (.errorResponse e) := CallResult.outcome.inj thrown
    unfold VolumeStore.get at outcome
    split at outcome
    · cases outcome
    · cases outcome
      exact .inl rfl
  | volumePath =>
    have outcome : (VolumeStore.path mRoot req store).1 = .error (.errorResponse e) := CallResult.outcome.inj thrown
    simp only [VolumeStore.path] at outcome
    split at outcome
    · cases outcome
    · cases outcome
      exact .inl rfl
  | volumeMount =>
    have outcome : (VolumeStore.mount mRoot req store).1 = .error (.errorResponse e) := CallResult.outcome.inj thrown
    simp only [VolumeStore.mount] at outcome
    split at outcome
    · cases outcome
    · cases outcome
      exact .inl rfl
  | _ => cases thrown

/-- Calls one after the other come to what they come to for the store, and can be told. -/
theorem performAll_keeps (keeps : Keeps folder root host store) (leads : Leads folder root)
    {calls : List HandlerCall} (plain : ∀ call ∈ calls, ∀ name, volumeOf call = some name → PlainName name) :
    ((samplePlugin (folder ++ [47])).performAll calls host).1 = ((storePlugin (folder ++ [47])).performAll calls store).1 ∧
      (∀ result ∈ ((storePlugin (folder ++ [47])).performAll calls store).1, result.2.Tellable) ∧
      Keeps folder root ((samplePlugin (folder ++ [47])).performAll calls host).2
        ((storePlugin (folder ++ [47])).performAll calls store).2 := by
  induction calls generalizing host store with
  | nil => exact ⟨rfl, List.forall_mem_nil _, keeps⟩
  | cons call calls ih =>
    obtain ⟨first, later⟩ := List.forall_mem_cons.mp plain
    obtain ⟨result, next⟩ := perform_keeps keeps leads first
    obtain ⟨results, tellable, last⟩ := ih next later
    simp only [Plugin.performAll]
    refine ⟨by rw [result, results], ?_, last⟩
    exact List.forall_mem_cons.mpr ⟨store_tellable _ call store, tellable⟩

theorem Keeps.there (keeps : Keeps (folderIn working) (volumesIn working) host store) :
    (within host.files working).tree.find? (within host.files working).working = some .directory :=
  FileTree.parent keeps.rooted

theorem Keeps.leads (keeps : Keeps (folderIn working) (volumesIn working) host store) : Leads (folderIn working) (volumesIn working) :=
  folder_leads keeps.there

/-- The program can be started again, and then keeps the same store. -/
theorem Keeps.start_again (keeps : Keeps (folderIn working) (volumesIn working) host store) :
    ∃ files, start (within host.files working) 0 = some (.running (folderIn working ++ [47]) files) ∧
      Keeps (folderIn working) (volumesIn working) { host with files } store := by
  obtain ⟨files, started, rules, entries⟩ :=
    start_running keeps.there keeps.granted.opens (slash_fits keeps.short) (.inl keeps.rooted)
  refine ⟨files, started, keeps.congr rules fun loc => ?_⟩
  rw [entries]
  split
  · next here =>
    rw [here]
    exact keeps.rooted.symm
  · rfl

/-- Over every run, what is heard is what the store says. -/
theorem serves_keeps {policy : InformationResult} {last : Host} {events : List Event} {wires : List Bytes}
    (serves : Serves policy working host events wires last) (keeps : Keeps (folderIn working) (volumesIn working) host store)
    (plain : ∀ calls, .connection calls ∈ events → ∀ call ∈ calls, ∀ name, volumeOf call = some name → PlainName name) :
    List.Forall₂ Tell (store.after (folderIn working ++ [47]) events).1 wires ∧
      Keeps (folderIn working) (volumesIn working) last (store.after (folderIn working ++ [47]) events).2 := by
  induction serves generalizing store with
  | done host => exact ⟨.nil, keeps⟩
  | @connection host last calls history uds events wires carries healthy unused _ ih =>
    have names : ∀ call ∈ calls.map HandlerCall.arriving, ∀ name, volumeOf call = some name → PlainName name :=
      List.forall_mem_map.mpr fun call member name about =>
        plain calls List.mem_cons_self call member name (volumeOf_arriving call ▸ about)
    obtain ⟨results, tellable, next⟩ := performAll_keeps keeps keeps.leads names
    obtain ⟨accepted, drivers, -⟩ := serve_calls policy carries
      (c := fresh (samplePlugin (folderIn working ++ [47])) host uds) (HttpConnection.create_idle uds) healthy
    have nothing : (fresh (samplePlugin (folderIn working ++ [47])) host uds).http.uds.accepted = [] := by
      simp [fresh, HttpConnection.create, UdsConnection.accepted, unused]
    have hosts : (serve policy history (fresh (samplePlugin (folderIn working ++ [47])) host uds)).self.drivers =
        ((samplePlugin (folderIn working ++ [47])).performAll (calls.map .arriving) host).2 := drivers
    have wire : (serve policy history (fresh (samplePlugin (folderIn working ++ [47])) host uds)).http.uds.accepted =
        ((samplePlugin (folderIn working ++ [47])).performAll (calls.map .arriving) host).1.flatMap
          fun result => result.2.reply.wire := by
      rw [accepted, nothing, List.nil_append]
      rfl
    obtain ⟨told, kept⟩ := ih (hosts ▸ next) fun calls member => plain calls (List.mem_cons_of_mem _ member)
    refine ⟨.cons ?_ told, kept⟩
    rw [wire, results]
    exact read_replies tellable
  | meanwhile other _ ih => exact ih (keeps.meanwhile other) fun calls member => plain calls (List.mem_cons_of_mem _ member)
  | restart started _ ih =>
    obtain ⟨files, again, next⟩ := keeps.start_again
    have same := Started.running.inj (Option.some.inj (started.symm.trans again))
    exact ih (same.2 ▸ next) fun calls member => plain calls (List.mem_cons_of_mem _ member)

theorem start_keeps {files files' : Files} {working : Location Bytes}
    (absent : files.tree.find? (volumesIn working) = none) (granted : Granted files.rules (volumesIn working))
    (short : (folderIn working).length + 1 + nameMax < pathMax) (rules : files'.rules = files.rules)
    (entries : ∀ loc, files'.tree.find? loc = if loc = volumesIn working then some .directory else files.tree.find? loc)
    {host : Host} (same : host.files = files') (descriptors : 2 ≤ host.free) :
    Keeps (folderIn working) (volumesIn working) host ⟨∅, host.now⟩ where
  short := short
  rooted := by rw [same, entries, if_pos rfl]
  granted := by rwa [same, rules]
  plain name known := absurd known (AList.notMem_empty name)
  volume name known := absurd known (AList.notMem_empty name)
  time name t lookup := by
    rw [AList.lookup_empty] at lookup
    cases lookup
  only name e there := by
    rw [same, entries, if_neg (List.cons_ne_self _ _)] at there
    rw [FileTree.nothing_below (by simp [absent]) (List.suffix_cons name _) (List.cons_ne_self _ _).symm] at there
    cases there
  clock := rfl
  descriptors := descriptors
  removable name known := absurd known (AList.notMem_empty name)

end

/-- A program that is started in a directory without volumes, which it may make there, serves a store: over every
connection, whatever else happens in between and however often it is started again, an engine hears what the store
says, and the directory holds the volumes of the store. -/
theorem volumes_served (policy : InformationResult) {files : Files}
    (there : files.tree.find? files.working = some .directory)
    (absent : files.tree.find? (volumesIn files.working) = none)
    (made : files.rules.grants .add (volumesIn files.working) = true)
    (granted : Granted files.rules (volumesIn files.working))
    (short : (folderIn files.working).length + 1 + nameMax < pathMax) :
    ∃ files', start files 0 = some (.running (folderIn files.working ++ [47]) files') ∧
      ∀ (host last : Host) (events : List Event) (wires : List Bytes), host.files = files' → 2 ≤ host.free →
        Serves policy files.working host events wires last →
        (∀ calls, .connection calls ∈ events → ∀ call ∈ calls, ∀ name, volumeOf call = some name → PlainName name) →
        List.Forall₂ Tell (VolumeStore.after (folderIn files.working ++ [47]) events ⟨∅, host.now⟩).1 wires ∧
          Keeps (folderIn files.working) (volumesIn files.working) last
            (VolumeStore.after (folderIn files.working ++ [47]) events ⟨∅, host.now⟩).2 ∧
          ∃ again, start (within last.files files.working) 0 = some (.running (folderIn files.working ++ [47]) again) := by
  obtain ⟨files', started, rules, entries⟩ :=
    start_running there granted.opens (slash_fits short) (.inr ⟨absent, made⟩)
  refine ⟨files', started, fun host last events wires same descriptors serves plain => ?_⟩
  have keeps := start_keeps absent granted short rules entries same descriptors
  obtain ⟨told, kept⟩ := serves_keeps serves keeps plain
  obtain ⟨again, restarts, -⟩ := kept.start_again
  exact ⟨told, kept, again, restarts⟩

/-- A machine with one directory, in which the program is started, and that grants everything. -/
def oneDirectory : Files where
  tree := ⟨[([bytes "srv"], .directory)], by decide, by decide, by decide⟩
  working := [bytes "srv"]
  rules := ⟨fun _ _ => true, fun _ => true⟩
  named name dir e there := by
    have known := (FileTree.find?_eq_some_iff (List.cons_ne_nil name dir)).mp there
    obtain ⟨same, -⟩ : name :: dir = [bytes "srv"] ∧ e = .directory := by simpa using known
    rw [(List.cons.inj same).1]
    decide

/-- A volume is created, and the volumes are listed. -/
def createAndList : List HandlerCall := [
  ⟨.volumeCreate, ({ name := bytes "v" } : Volume.CreateRequest)⟩, ⟨.volumeList, ({} : EmptyType)⟩]

theorem createAndList_plain : ∀ call ∈ createAndList, ∀ name, volumeOf call = some name → PlainName name := by
  refine List.forall_mem_cons.mpr ⟨?_, List.forall_mem_singleton.mpr ?_⟩
  · rintro name ⟨⟩
    decide
  · rintro name ⟨⟩

def slowSocket : UdsConnection := ⟨3, fun _ => .accepts 13, []⟩

theorem volumes_served_again :
    ∃ files' wires last, start oneDirectory 0 = some (.running (folderIn oneDirectory.working ++ [47]) files') ∧
      Serves .ignored oneDirectory.working ⟨files', 5, 0, fun _ => 0, 0⟩
        [.connection createAndList, .restart, .connection createAndList] wires last ∧
      List.Forall₂ Tell (VolumeStore.after (folderIn oneDirectory.working ++ [47])
        [.connection createAndList, .restart, .connection createAndList] ⟨∅, 0⟩).1 wires := by
  have there : oneDirectory.tree.find? oneDirectory.working = some .directory := by decide
  have absent : oneDirectory.tree.find? (volumesIn oneDirectory.working) = none := by decide
  have granted : Granted oneDirectory.rules (volumesIn oneDirectory.working) :=
    ⟨fun _ _ => rfl, rfl, rfl, fun _ _ _ _ => rfl⟩
  obtain ⟨files', started, runs⟩ := volumes_served .ignored there absent rfl granted (by decide)
  have healthy : slowSocket.Healthy := ⟨by decide, by simp [slowSocket]⟩
  have once := runs ⟨files', 5, 0, fun _ => 0, 0⟩ _ [.connection createAndList] _ rfl (Nat.le_add_left 2 3)
    (.connection (inTwoSpans_carries createAndList) healthy rfl (.done _)) fun calls member => by
      have same : calls = createAndList := by simpa using member
      exact same ▸ createAndList_plain
  obtain ⟨-, -, again, restarts⟩ := once
  have serves := Serves.connection (inTwoSpans_carries createAndList) healthy rfl
    (.restart restarts (.connection (inTwoSpans_carries createAndList) healthy rfl (.done _)))
  refine ⟨files', _, _, started, serves, (runs _ _ _ _ rfl (Nat.le_add_left 2 3) serves ?_).1⟩
  intro calls member
  have same : calls = createAndList := by simpa using member
  exact same ▸ createAndList_plain

end DockerPlugin.SampleVolume

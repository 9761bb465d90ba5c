import DockerPlugin.SampleSessions

namespace DockerPlugin.SampleVolume
open Octets Posix

/-- Files that are as they were but at a location and below it, and have no symbolic links that they did not have. -/
structure SameOutside (root : Location Bytes) (files files' : Files) : Prop where
  outside : ∀ loc, ¬ root <:+ loc → files'.tree.find? loc = files.tree.find? loc
  links : ∀ loc text, files'.tree.find? loc = some (.file (.link text)) → files.tree.find? loc = some (.file (.link text))

theorem SameOutside.refl (root : Location Bytes) (files : Files) : SameOutside root files files :=
  ⟨fun _ _ => rfl, fun _ _ there => there⟩

theorem SameOutside.trans {root : Location Bytes} {files files' files'' : Files} (first : SameOutside root files files')
    (second : SameOutside root files' files'') : SameOutside root files files'' where
  outside loc apart := (second.outside loc apart).trans (first.outside loc apart)
  links loc text there := first.links loc text (second.links loc text there)

theorem SameOutside.of_touched {root loc : Location Bytes} {files files' : Files} (touched : files.Touched files' loc)
    (inside : root <:+ loc) : SameOutside root files files' where
  outside loc' apart := touched.others loc' fun same => apart (same ▸ inside)
  links loc' text there := by
    by_cases here : loc' = loc
    · subst here
      exact touched.links text there
    · rw [← touched.others loc' here, there]

/-- The directories above a location are there, and no symbolic link leads away from it or from below it. -/
structure Closed (root : Location Bytes) (files : Files) : Prop where
  above : ∀ dir, dir <:+ root → dir ≠ root → files.tree.find? dir = some .directory
  unlinked : ∀ loc, root <:+ loc → ∀ text, files.tree.find? loc ≠ some (.file (.link text))

namespace Closed
variable {root loc : Location Bytes} {files files' : Files}

theorem kept (closed : Closed root files) (same : SameOutside root files files') : Closed root files' where
  above dir under apart := by
    rw [same.outside dir fun further => apart (under.eq_of_length_le further.length_le), closed.above dir under apart]
  unlinked loc inside text there := closed.unlinked loc inside text (same.links loc text there)

/-- No symbolic link is on the way to the location, or to one below it. -/
theorem straight (closed : Closed root files) (near : root <:+ loc ∨ loc <:+ root) : files.Straight loc := by
  intro dir under text link
  have both : root <:+ dir ∨ dir <:+ root := by
    rcases near with inside | above
    · exact List.suffix_or_suffix_of_suffix inside under
    · exact .inr (under.trans above)
  rcases both with inside | above
  · exact closed.unlinked dir inside text link
  · by_cases here : dir = root
    · exact closed.unlinked dir (here ▸ List.suffix_rfl) text link
    · rw [closed.above dir above here] at link
      cases link

end Closed

/-- A path that leads to a location or below it. -/
structure Inward (root : Location Bytes) (path : Bytes) : Prop where
  downward : Downward (cStr path)
  inside : root <:+ target (cStr path)

namespace Inward
variable {root : Location Bytes} {path : Bytes} {files : Files}

theorem straight (inward : Inward root path) (closed : Closed root files) : files.Straight (target (cStr path)) :=
  closed.straight (.inl inward.inside)

theorem mkdir (inward : Inward root path) (closed : Closed root files) : SameOutside root files (files.mkdir path).2 :=
  .of_touched (inward.downward.mkdir (inward.straight closed)) inward.inside

theorem rmdir (inward : Inward root path) (closed : Closed root files) : SameOutside root files (files.rmdir path).2 :=
  .of_touched (inward.downward.rmdir (inward.straight closed)) inward.inside

theorem unlink (inward : Inward root path) (closed : Closed root files) : SameOutside root files (files.unlink path).2 :=
  .of_touched (inward.downward.unlink (inward.straight closed)) inward.inside

theorem write (inward : Inward root path) (closed : Closed root files) (content : Bytes) :
    SameOutside root files (files.write path content) :=
  .of_touched (inward.downward.write (inward.straight closed) content) inward.inside

end Inward

section
variable {root : Location Bytes} {path : Bytes} {files : Files}

/-- A path stays inward with the name of an entry, even if it is cut off before it. -/
theorem Inward.child (inward : Inward root path) {name : Bytes} (valid : ValidName name) : Inward root (path ++ 47 :: name) := by
  by_cases zero : 0 ∈ path
  · obtain ⟨downward, inside⟩ := inward
    exact ⟨by rwa [cStr_zero zero], by rwa [cStr_zero zero]⟩
  · have same : cStr path = path := cStr_whole zero
    obtain ⟨downward, inside⟩ := inward
    rw [same] at downward inside
    have whole : cStr (path ++ 47 :: name) = path ++ 47 :: name := by
      rw [cStr_append zero, cStr_slash, cStr_whole valid.noZero]
    refine ⟨?_, ?_⟩
    · rw [whole]
      refine downward.append ?_
      rw [valid.components]
      simpa using valid.notUp.symm
    · rw [whole, target_append]
      exact inside.trans (List.suffix_append _ _)

/-- What every call of the callback keeps is kept by the loop. -/
theorem loopEntries_keeps {σ : Type} (Kept : σ → Prop) {cb : Bytes → Bool → σ → Bool × σ} {entries : List (Bytes × Bool)}
    (each : ∀ e ∈ entries, ∀ s, Kept s → Kept (cb e.1 e.2 s).2) {s : σ} (kept : Kept s) :
    Kept (Util.loopEntries cb entries s).2 := by
  induction entries generalizing s with
  | nil => exact kept
  | cons e entries ih =>
    obtain ⟨first, later⟩ := List.forall_mem_cons.mp each
    have next := first s kept
    rw [Util.loopEntries]
    split
    · next s' outcome =>
      rw [outcome] at next
      exact next
    · next s' outcome =>
      rw [outcome] at next
      exact ih later next

theorem readDir_names {files : Files} {entries : List (Bytes × Bool)} (read : files.readDir path = some entries) :
    ∀ e ∈ entries, e.1 = bytes "." ∨ e.1 = bytes ".." ∨ ValidName e.1 := by
  unfold Files.readDir at read
  split at read
  · cases read
  · next loc _ =>
    split at read
    · obtain rfl := Option.some.inj read
      refine List.forall_mem_cons.mpr ⟨.inl rfl, List.forall_mem_cons.mpr ⟨.inr (.inl rfl), ?_⟩⟩
      exact List.forall_mem_map.mpr fun c member =>
        .inr (.inr (files.named c.1 loc c.2 (FileTree.mem_children.mp member)))
    · cases read

/-- However much `remove_dir` gets done, it is done inside. -/
theorem removeDir_inside (free : Nat) (inward : Inward root path) (closed : Closed root files) :
    SameOutside root files (Util.removeDir free path files).2 := by
  induction free generalizing path files with
  | zero => exact .refl root files
  | succ free ih =>
    have loop : SameOutside root files
        (Util.loopDir files path (Util.removeEntry (Util.removeDir free) path) files).2 := by
      unfold Util.loopDir
      split
      · exact .refl root files
      · next entries read =>
        refine loopEntries_keeps (SameOutside root files) (fun e member s kept => ?_) (.refl root files)
        unfold Util.removeEntry
        split
        · exact kept
        · next named =>
          have valid := ((readDir_names read e member).resolve_left fun dot => named (.inl dot)).resolve_left
            fun up => named (.inr up)
          split
          · exact kept.trans (ih (inward.child valid) (closed.kept kept))
          · exact kept.trans ((inward.child valid).unlink (closed.kept kept))
    rw [Util.removeDir]
    split
    · next files' outcome =>
      rw [outcome] at loop
      exact loop
    · next files' outcome =>
      rw [outcome] at loop
      exact loop.trans (inward.rmdir (closed.kept loop))

/-- Before each slash of an inward path is an inward path, or one of a directory above. -/
theorem sub_inward (inward : Inward root path) {sub rest : Bytes} (split : path = sub ++ 47 :: rest) (given : sub ≠ []) :
    Inward root sub ∨ Downward (cStr sub) ∧ target (cStr sub) <:+ root ∧ target (cStr sub) ≠ root := by
  obtain ⟨downward, inside⟩ := inward
  by_cases zero : 0 ∈ sub
  · rw [split, cStr_zero zero] at downward inside
    exact .inl ⟨downward, inside⟩
  · have same : cStr sub = sub := cStr_whole zero
    rw [split, cStr_append zero, cStr_slash] at downward inside
    have shorter : Downward sub := by
      refine ⟨?_, fun up => downward.down (components_append sub _ ▸ List.mem_append_left _ up)⟩
      have first := downward.absolute
      rwa [List.head?_append_of_ne_nil _ given] at first
    rw [target_append] at inside
    have both := List.suffix_or_suffix_of_suffix inside (List.suffix_append (target (cStr rest)) (target sub))
    rw [← same] at shorter both
    by_cases further : root <:+ target (cStr sub)
    · exact .inl ⟨shorter, further⟩
    · refine .inr ⟨shorter, both.resolve_left further, fun here => further ?_⟩
      rw [here]

/-- A directory that is there already is not made. -/
theorem mkdir_above (closed : Closed root files) (downward : Downward (cStr path)) (under : target (cStr path) <:+ root)
    (apart : target (cStr path) ≠ root) : (files.mkdir path).2 = files := by
  have straight : files.Straight (target (cStr path)) := closed.straight (.inr under)
  unfold Files.mkdir
  split
  · rfl
  · next p placed =>
    have there : files.tree.find? p.location = some .directory := by
      rw [downward.place straight placed, closed.above _ under apart]
    rw [dif_neg (by simp [there])]

theorem makeSubs_inside (inward : Inward root path) {sub rest : Bytes} (split : path = sub ++ rest) (given : sub ≠ [])
    (closed : Closed root files) : SameOutside root files (Util.makeSubs files sub rest).2 := by
  induction rest generalizing files sub with
  | nil => exact .refl root files
  | cons b rest ih =>
    have next : path = (sub ++ [b]) ++ rest := by simpa using split
    have given' : sub ++ [b] ≠ [] := List.append_ne_nil_of_left_ne_nil given _
    rw [Util.makeSubs]
    split
    · next slash =>
      subst slash
      have made : SameOutside root files (Util.makeDir files sub).2 := by
        rcases sub_inward inward split given with within | ⟨downward, under, apart⟩
        · exact within.mkdir closed
        · rw [Util.makeDir, mkdir_above closed downward under apart]
          exact .refl root files
      split
      · exact ih next given' closed
      · split
        · next files' outcome =>
          rw [outcome] at made
          exact made
        · next files' outcome =>
          rw [outcome] at made
          exact made.trans (ih next given' (closed.kept made))
    · exact ih next given' closed

theorem makeDirs_inside (inward : Inward root path) (closed : Closed root files) :
    SameOutside root files (Util.makeDirs files path).2 := by
  unfold Util.makeDirs
  split
  · exact .refl root files
  · next first rest =>
    have subs : SameOutside root files (Util.makeSubs files [first] rest).2 :=
      makeSubs_inside inward List.singleton_append.symm (List.cons_ne_nil first []) closed
    split
    · next files' outcome =>
      rw [outcome] at subs
      exact subs
    · next files' outcome =>
      rw [outcome] at subs
      split
      · exact subs
      · exact subs.trans (inward.mkdir (closed.kept subs))

end

/-- A name none of whose components goes up, as far as the system calls see it. -/
def Lower (name : Bytes) : Prop := bytes ".." ∉ components (cStr name)

/-- What is written behind a name does not make a component go up. -/
theorem Lower.stamp {name : Bytes} (lower : Lower name) : Lower (name ++ stamp) := by
  by_cases zero : 0 ∈ name
  · rwa [Lower, cStr_zero zero]
  · have same : cStr name = name := cStr_whole zero
    have noSlash : 47 ∉ SampleVolume.stamp := by decide
    have notUp : ∀ x : Bytes, bytes ".." ≠ x ++ SampleVolume.stamp := fun x up => by
      have long := congrArg List.length up
      rw [List.length_append, show (bytes "..").length = 2 from rfl, show SampleVolume.stamp.length = 10 from rfl] at long
      omega
    rw [Lower, same] at lower
    rw [Lower, cStr_append zero, show cStr SampleVolume.stamp = SampleVolume.stamp from rfl]
    by_cases slash : 47 ∈ name.reverse
    · obtain ⟨last, before, split, none⟩ := List.eq_append_cons_of_mem slash
      have whole : name = before.reverse ++ 47 :: last.reverse := by
        rw [← List.reverse_reverse name, split]
        simp
      rw [whole, components_append] at lower
      rw [whole, List.append_assoc, List.cons_append, components_append]
      have single : components (last.reverse ++ SampleVolume.stamp) = [last.reverse ++ SampleVolume.stamp] :=
        List.splitOn_eq_singleton (by simpa using ⟨none, noSlash⟩)
      rw [single]
      intro up
      rcases List.mem_append.mp up with first | final
      · exact lower (List.mem_append_left _ first)
      · exact notUp _ (List.mem_singleton.mp final)
    · have single : components (name ++ SampleVolume.stamp) = [name ++ SampleVolume.stamp] :=
        List.splitOn_eq_singleton (by simpa using ⟨by simpa using slash, noSlash⟩)
      rw [single]
      exact fun up => notUp _ (List.mem_singleton.mp up)

section
variable {folder : Bytes} {root : Location Bytes} {host : Host}

theorem lower_inward (leads : Leads folder root) {name : Bytes} (lower : Lower name) : Inward root (folder ++ 47 :: name) := by
  have whole : cStr (folder ++ 47 :: name) = folder ++ 47 :: cStr name := by rw [cStr_append leads.whole, cStr_slash]
  refine ⟨⟨?_, ?_⟩, ?_⟩
  · rw [whole, leads.head]
  · rw [whole, components_append]
    refine fun up => (List.mem_append.mp up).elim (fun before => ?_) lower
    rcases leads.down _ before with none | valid
    · exact absurd none (by decide)
    · exact valid.notUp rfl
  · rw [whole, target_append, target, target, ← leads.names]
    exact List.suffix_append _ _

theorem create_inside (leads : Leads folder root) (closed : Closed root host.files) {req : Volume.CreateRequest}
    (lower : Lower req.name) : SameOutside root host.files (create (folder ++ [47]) req host).2.files := by
  have inward := lower_inward leads lower
  have stamped := lower_inward leads lower.stamp
  have made := makeDirs_inside inward closed
  simp only [create, slash_append]
  split
  · exact .refl root host.files
  · split
    · next files outcome =>
      rw [outcome] at made
      exact made
    · next files outcome =>
      rw [outcome] at made
      split
      · exact made
      · refine made.trans ?_
        have written : SameOutside root files (files.write _ (signedDecimal (toTimeT host.now).toInt)) :=
          stamped.write (closed.kept made) _
        simpa [SampleVolume.stamp] using written

theorem remove_inside (leads : Leads folder root) (closed : Closed root host.files) {req : Volume.RemoveRequest}
    (lower : Lower req.name) : SameOutside root host.files (remove (folder ++ [47]) req host).2.files := by
  have removed : SameOutside root host.files (Util.removeDir host.free (folder ++ 47 :: req.name) host.files).2 :=
    removeDir_inside host.free (lower_inward leads lower) closed
  have stamped := lower_inward leads lower.stamp
  simp only [remove, slash_append]
  split
  · split
    · next files outcome =>
      rw [outcome] at removed
      exact removed
    · next files outcome =>
      rw [outcome] at removed
      refine removed.trans ?_
      have unlinked : SameOutside root files (files.unlink _).2 := stamped.unlink (closed.kept removed)
      simpa [SampleVolume.stamp, Util.removeFile] using unlinked
  · exact .refl root host.files

theorem perform_inside (leads : Leads folder root) (closed : Closed root host.files) {call : HandlerCall}
    (lower : ∀ name, volumeOf call = some name → Lower name) :
    SameOutside root host.files ((samplePlugin (folder ++ [47])).perform call host).2.files := by
  obtain ⟨h, req⟩ := call
  have unchanged : ∀ host' : Host, host' = host → SameOutside root host.files host'.files := by
    rintro _ rfl
    exact .refl root _
  cases h with
  | volumeCreate => exact create_inside leads closed (lower _ rfl)
  | volumeRemove => exact remove_inside leads closed (lower _ rfl)
  | volumeGet =>
    refine unchanged (get (folder ++ [47]) req host).2 ?_
    unfold get
    split <;> rfl
  | volumePath =>
    refine unchanged (path (folder ++ [47]) req host).2 ?_
    unfold path
    split <;> rfl
  | volumeMount =>
    refine unchanged (mount (folder ++ [47]) req host).2 ?_
    unfold mount
    split <;> rfl
  | _ => exact .refl root host.files

theorem performAll_inside (leads : Leads folder root) (closed : Closed root host.files) {calls : List HandlerCall}
    (lower : ∀ call ∈ calls, ∀ name, volumeOf call = some name → Lower name) :
    SameOutside root host.files ((samplePlugin (folder ++ [47])).performAll calls host).2.files := by
  induction calls generalizing host with
  | nil => exact .refl root host.files
  | cons call calls ih =>
    obtain ⟨first, later⟩ := List.forall_mem_cons.mp lower
    have step := perform_inside leads closed first
    exact step.trans (ih (closed.kept step) later)

end

/-- Whatever calls are made, with whatever names that do not go up, empty ones, ones with slashes and ones that are
cut off at a zero byte among them, nothing outside of the directory of the volumes changes, if there is no symbolic
link in it to begin with: none is made. -/
theorem calls_stay_inside {host : Host} {working : Location Bytes}
    (there : host.files.tree.find? working = some .directory)
    (unlinked : ∀ loc, volumesIn working <:+ loc → ∀ text, host.files.tree.find? loc ≠ some (.file (.link text)))
    {calls : List HandlerCall} (lower : ∀ call ∈ calls, ∀ name, volumeOf call = some name → Lower name) :
    (∀ loc, ¬ volumesIn working <:+ loc →
        ((samplePlugin (folderIn working ++ [47])).performAll calls host).2.files.tree.find? loc =
          host.files.tree.find? loc) ∧
      ∀ loc text, ((samplePlugin (folderIn working ++ [47])).performAll calls host).2.files.tree.find? loc =
          some (.file (.link text)) → host.files.tree.find? loc = some (.file (.link text)) := by
  have started : (within host.files working).tree.find? (within host.files working).working = some .directory := there
  have closed : Closed (volumesIn working) host.files := by
    refine ⟨fun dir under apart => ?_, unlinked⟩
    have further := (List.suffix_cons_iff.mp under).resolve_left apart
    by_cases here : dir = working
    · rw [here, there]
    · exact FileTree.above there further here
  obtain ⟨outside, links⟩ := performAll_inside (folder_leads started) closed lower
  exact ⟨outside, links⟩

/-- A volume with a symbolic link in it to a directory that is no volume. -/
def linkedVolume : Files where
  tree := ⟨[([bytes "etc"], .directory), ([bytes "vols"], .directory), ([bytes "v", bytes "vols"], .directory),
    ([bytes "l", bytes "v", bytes "vols"], .file (.link (bytes "/etc")))], by decide, by decide, by decide⟩
  working := []
  rules := ⟨fun _ _ => true, fun _ => true⟩
  named name dir e there := by
    have known := (FileTree.find?_eq_some_iff (List.cons_ne_nil name dir)).mp there
    have names : name = bytes "etc" ∨ name = bytes "vols" ∨ name = bytes "v" ∨ name = bytes "l" := by
      simp only [List.mem_cons, Prod.mk.injEq, List.cons.injEq, List.not_mem_nil, or_false] at known
      exact known.imp (fun k => k.1.1) (Or.imp (fun k => k.1.1) (Or.imp (fun k => k.1.1) fun k => k.1.1))
    rcases names with rfl | rfl | rfl | rfl <;> decide

/-- Through a link a directory is made outside. -/
example : (create (bytes "/vols/") { name := bytes "v/l/new" } ⟨linkedVolume, 5, 0, fun _ => 0, 0⟩).2.files.tree.find?
    [bytes "new", bytes "etc"] = some .directory := by
  decide

/-- A directory in a volume is asked for, the directory of the volumes is removed, and a name with a zero byte is used. -/
def oddNames : List HandlerCall := [
  ⟨.volumeCreate, ({ name := bytes "a/b" } : Volume.CreateRequest)⟩, ⟨.volumeRemove, ({} : Volume.RemoveRequest)⟩,
  ⟨.volumeCreate, ({ name := bytes "v" ++ 0 :: bytes "/.." } : Volume.CreateRequest)⟩]

theorem calls_stay_inside_odd :
    ((samplePlugin (folderIn [bytes "srv"] ++ [47])).performAll oddNames
        ⟨oneDirectory, 5, 0, fun _ => 0, 0⟩).2.files.tree.find? [bytes "srv"] = some .directory := by
  have there : oneDirectory.tree.find? [bytes "srv"] = some .directory := by decide
  have outside : ¬ volumesIn [bytes "srv"] <:+ [bytes "srv"] := by decide
  have unlinked : ∀ loc, volumesIn [bytes "srv"] <:+ loc → ∀ text,
      oneDirectory.tree.find? loc ≠ some (.file (.link text)) := by
    intro loc under text
    have nothing : oneDirectory.tree.find? (volumesIn [bytes "srv"]) = none := by decide
    by_cases here : volumesIn [bytes "srv"] = loc
    · rw [← here, nothing]
      exact (Option.some_ne_none _).symm
    · rw [FileTree.nothing_below (by rw [nothing]; exact (Option.some_ne_none _).symm) under here]
      exact (Option.some_ne_none _).symm
  have lower : ∀ call ∈ oddNames, ∀ name, volumeOf call = some name → Lower name := by
    refine List.forall_mem_cons.mpr ⟨?_, List.forall_mem_cons.mpr ⟨?_, List.forall_mem_singleton.mpr ?_⟩⟩
    · rintro name ⟨⟩
      unfold Lower
      decide
    · rintro name ⟨⟩
      unfold Lower
      decide
    · rintro name ⟨⟩
      unfold Lower
      decide
  exact ((@calls_stay_inside ⟨oneDirectory, 5, 0, fun _ => 0, 0⟩ _ there unlinked _ lower).1 _ outside).trans there

end DockerPlugin.SampleVolume

import DockerPlugin.PluginSessions
import DockerPlugin.PicojsonRoundTrip

namespace DockerPlugin
open Octets Picojson PluginConnection

/-- A POST to the URL of a handler that is there, behind any other POST messages on one
connection. -/
structure DriverRequest (δ : Type) where
  policy : InformationResult
  plugin : Plugin δ
  drivers : δ
  uds : UdsConnection
  history : List Delivery
  posts : ∀ d ∈ history, d.method = .httpPost
  delivery : Delivery
  post : delivery.method = .httpPost
  handler : Handler
  located : handlerOf delivery.message.url = some handler
  fn : DriverMethod δ handler.request.Decoded handler.response.Encoded
  registered : plugin.method handler = some fn

theorem serve_posts {δ : Type} (policy : InformationResult) {history : List Delivery}
    (posts : ∀ d ∈ history, d.method = .httpPost) {c : Connection (PluginConnection δ)} (idle : c.http.Idle) :
    (serve policy history c).http.Idle ∧ (serve policy history c).self.mPlugin = c.self.mPlugin := by
  induction history generalizing c with
  | nil => exact ⟨idle, rfl⟩
  | cons d rest ih =>
    rw [serve_cons policy (posts d List.mem_cons_self) idle]
    exact ih (fun e member => posts e (List.mem_cons_of_mem d member)) (answered_idle c _ _)

namespace DriverRequest
variable {δ : Type} (r : DriverRequest δ)

/-- The connection that the request meets. -/
def before : Connection (PluginConnection δ) := serve r.policy r.history (fresh r.plugin r.drivers r.uds)

def after : Connection (PluginConnection δ) := serve r.policy [r.delivery] r.before

/-- The body that the handler gets to see. -/
def body : Bytes := r.delivery.message.seenBody

def state : δ := r.before.self.drivers

/-- The bytes written on account of the request come after those before it. -/
def Writes (text : Bytes) : Prop := r.after.http.uds.written = r.before.http.uds.written ++ text

theorem after_eq : r.after =
    answered r.before r.delivery.message.url (r.plugin.answer r.delivery.message.url r.body r.state) := by
  obtain ⟨idle, same⟩ := serve_posts r.policy r.posts (c := fresh r.plugin r.drivers r.uds)
    (HttpConnection.create_idle r.uds)
  have served := serve_cons r.policy r.post idle []
  rw [same] at served
  exact served

theorem answered_writes (a : Answer δ) (url : Bytes) :
    (answered r.before url a).http.uds.written = r.before.http.uds.written ++ a.reply.wire := by
  rw [answered, HttpConnection.cleared_uds, UdsConnection.writes_written]
  rfl

/-- A body that is refused is answered without the driver. -/
theorem after_refused {e : Exception} (refused : fromJson r.handler.request r.body = .error e) :
    r.after.self.calls = r.before.self.calls ∧ r.after.self.drivers = r.state ∧
      r.Writes (Reply.wire ⟨(answer r.handler.response (.error e)).1, true, (answer r.handler.response (.error e)).2⟩) := by
  have answered : r.plugin.answer r.delivery.message.url r.body r.state =
      ⟨⟨(answer r.handler.response (.error e)).1, true, (answer r.handler.response (.error e)).2⟩, [], r.state⟩ := by
    simp only [Plugin.answer, r.located, r.registered, refused]
  rw [Writes, r.after_eq, answered]
  exact ⟨List.append_nil _, rfl, r.answered_writes _ _⟩

/-- A decoded request is handed to the driver, and its outcome is the answer. -/
theorem after_decoded {req : r.handler.request.Decoded} (decoded : fromJson r.handler.request r.body = .ok req) :
    r.after.self.calls = r.before.self.calls ++ [⟨r.handler, req⟩] ∧ r.after.self.drivers = (r.fn req r.state).2 ∧
      r.Writes (Reply.wire ⟨(answer r.handler.response (r.fn req r.state).1).1, true,
        (answer r.handler.response (r.fn req r.state).1).2⟩) := by
  have answered : r.plugin.answer r.delivery.message.url r.body r.state =
      ⟨⟨(answer r.handler.response (r.fn req r.state).1).1, true, (answer r.handler.response (r.fn req r.state).1).2⟩,
        [⟨r.handler, req⟩], (r.fn req r.state).2⟩ := by
    simp only [Plugin.answer, r.located, r.registered, decoded]
  rw [Writes, r.after_eq, answered]
  exact ⟨rfl, rfl, r.answered_writes _ _⟩

/-- The request is decoded and its handler is run, once. -/
def InvokedOnce : Prop :=
  ∃ req, fromJson r.handler.request r.body = .ok req ∧
    r.after.self.calls = r.before.self.calls ++ [⟨r.handler, req⟩] ∧ r.after.self.drivers = (r.fn req r.state).2

/-- The request is answered with an error of this status, and no handler is run. -/
def RejectedWith (status : Int32) : Prop :=
  r.after.self.calls = r.before.self.calls ∧ r.after.self.drivers = r.state ∧
    ∃ what text, r.Writes text ∧ Reply.GivenBy ⟨status, true, toJson .error (⟨0, what⟩ : ErrorResponse)⟩ text

end DriverRequest

/-- A request comes out of an object, and then the one without its members of wrong types,
exactly if its maps are objects. -/
theorem fromJson_prune_iff {t : RequestType} {text : Bytes} {o : Object} (parsed : parse text = .ok (.object o)) :
    (∃ req, fromJson t text = .ok req ∧ fromObject t (t.schema.prune o) = .ok req) ↔ t.MapsAreObjects o := by
  rw [fromJson_parsed parsed]
  constructor
  · rintro ⟨req, decoded, -⟩
    exact fromObject_ok_iff.mp ⟨req, decoded⟩
  · intro maps
    obtain ⟨req, decoded⟩ := fromObject_ok_iff.mpr maps
    exact ⟨req, decoded, by rw [fromObject_prune maps, decoded]⟩

namespace DriverRequest
variable {δ : Type} (r : DriverRequest δ)

theorem invokedOnce_iff {o : Object} (parsed : parse r.body = .ok (.object o)) :
    r.InvokedOnce ↔ r.handler.request.MapsAreObjects o := by
  rw [← fromJson_prune_iff parsed]
  constructor
  · rintro ⟨req, decoded, -⟩
    have maps := fromObject_ok_iff.mp ⟨req, (fromJson_parsed parsed).symm.trans decoded⟩
    exact ⟨req, decoded, by rw [fromObject_prune maps, ← fromJson_parsed parsed, decoded]⟩
  · rintro ⟨req, decoded, -⟩
    obtain ⟨calls, drivers, -⟩ := r.after_decoded decoded
    exact ⟨req, decoded, calls, drivers⟩

/-- A map that is no object is a server error to the sender. -/
theorem rejected_mistyped {o : Object} (parsed : parse r.body = .ok (.object o))
    (mistyped : ¬ r.handler.request.MapsAreObjects o) : r.RejectedWith 500 := by
  have failed : fromJson r.handler.request r.body = .error mapMismatch := by
    rw [fromJson_parsed parsed, fromObject_error mistyped]
  obtain ⟨calls, drivers, writes⟩ := r.after_refused failed
  exact ⟨calls, drivers, _, _, writes, Reply.wire_gives .serverError⟩

theorem rejected_noObject (reads : r.handler.request ≠ .empty) (refused : NoObject r.body) : r.RejectedWith 400 := by
  obtain ⟨what, failed⟩ := fromJson_noObject reads refused
  obtain ⟨calls, drivers, writes⟩ := r.after_refused failed
  exact ⟨calls, drivers, what, _, writes, Reply.wire_gives .badRequest⟩

end DriverRequest

/-- Decoding treats members of wrong types as absent, and hands the request to the driver,
exactly if every map is an object; a body that is no object is refused. -/
theorem decoding_iff (δ : Type) :
    (∀ (t : RequestType) (text : Bytes) (o : Object), parse text = .ok (.object o) →
      ((∃ req, fromJson t text = .ok req ∧ fromObject t (t.schema.prune o) = .ok req) ↔ t.MapsAreObjects o)) ∧
    (∀ (r : DriverRequest δ) (o : Object), parse r.body = .ok (.object o) →
      (r.InvokedOnce ↔ r.handler.request.MapsAreObjects o) ∧
        (¬ r.handler.request.MapsAreObjects o → r.RejectedWith 500)) ∧
    (∀ (t : RequestType) (text : Bytes), t ≠ .empty → NoObject text →
      ∃ what, fromJson t text = .error (.invalidArgument what)) ∧
    ∀ r : DriverRequest δ, r.handler.request ≠ .empty → NoObject r.body → r.RejectedWith 400 :=
  ⟨fun _ _ _ parsed => fromJson_prune_iff parsed,
    fun r _ parsed => ⟨r.invokedOnce_iff parsed, r.rejected_mistyped parsed⟩,
    fun _ _ reads refused => fromJson_noObject reads refused,
    fun r reads refused => r.rejected_noObject reads refused⟩

/-- A volume that is to be created with null for its options. -/
def nullOptions : Bytes := bytes "\x7b\"Name\":\"v\",\"Opts\":null\x7d"

theorem nullOptions_parse :
    parse nullOptions = .ok (.object [(bytes "Name", .string (bytes "v")), (bytes "Opts", .null)]) := by
  have written : nullOptions = serialize (.object [(bytes "Name", .string (bytes "v")), (bytes "Opts", .null)]) := by decide
  rw [written]
  exact parse_serialize (.pair (by decide) (.string _ _) (.null _))

/-- A volume that is to be created without options. -/
def namedVolume : Bytes := bytes "\x7b\"Name\":\"v\"\x7d"

theorem namedVolume_parse : parse namedVolume = .ok (.object [(bytes "Name", .string (bytes "v"))]) := by
  have written : namedVolume = serialize (.object [(bytes "Name", .string (bytes "v"))]) := by decide
  rw [written]
  exact parse_serialize (.single _ (.string _ _))

theorem namedVolume_decoded : fromJson .volumeCreate namedVolume =
    .ok ({ name := bytes "v", options := .empty } : Volume.CreateRequest) := by
  rw [fromJson_parsed namedVolume_parse]
  rfl

/-- The only request on a connection of a plugin with one volume driver. -/
def createVolume (driver : Volume.Driver Nat) (body : Bytes) : DriverRequest Nat where
  policy := .ignored
  plugin := ({} : Plugin Nat).registerVolume driver
  drivers := 0
  uds := ⟨3, fun _ => .accepts 7, []⟩
  history := []
  posts := by simp
  delivery := ⟨.httpPost, [bytes "/VolumeDriver.Create"], [], [body], []⟩
  post := rfl
  handler := .volumeCreate
  located := rfl
  fn := driver.create
  registered := rfl

theorem createVolume_body (driver : Volume.Driver Nat) (body : Bytes) : (createVolume driver body).body = body :=
  List.append_nil body

/-- A volume that is to be created with a number for its name. -/
def numberedVolume : Bytes := bytes "\x7b\"Name\":5,\"Opts\":\x7b\x7d\x7d"

def numberedMembers : Object := [(bytes "Name", .int64 5), (bytes "Opts", .object [])]

theorem numberedVolume_parse : parse numberedVolume = .ok (.object numberedMembers) := by
  have written : numberedVolume = serialize (.object numberedMembers) := by decide
  rw [written]
  exact parse_serialize (.pair (by decide) (.int64 _ _) (.object .nil (List.forall_mem_nil _)))

theorem decoding_iff_numbered_volume : (createVolume busyDriver numberedVolume).InvokedOnce := by
  have parsed : parse (createVolume busyDriver numberedVolume).body = .ok (.object numberedMembers) := by
    rw [createVolume_body, numberedVolume_parse]
  have decoded : fromObject .volumeCreate numberedMembers =
    .ok ({ name := [], options := .empty } : Volume.CreateRequest) := rfl
  exact ((decoding_iff Nat).2.1 _ _ parsed).1.mpr (fromObject_ok_iff.mp ⟨_, decoded⟩)

/-- No request comes out of the object, and its sender gets a server error. -/
theorem null_options_refused : (∀ req, fromJson .volumeCreate nullOptions ≠ .ok req) ∧
    ¬ (createVolume busyDriver nullOptions).InvokedOnce ∧ (createVolume busyDriver nullOptions).RejectedWith 500 := by
  have failed : fromJson .volumeCreate nullOptions = .error mapMismatch := by
    rw [fromJson_parsed nullOptions_parse]
    rfl
  have refused := (createVolume_body busyDriver nullOptions).symm ▸ failed
  obtain ⟨calls, drivers, writes⟩ := (createVolume busyDriver nullOptions).after_refused refused
  refine ⟨fun req decoded => ?_, ?_, calls, drivers, _, _, writes, Reply.wire_gives .serverError⟩
  · cases failed.symm.trans decoded
  · rintro ⟨req, decoded, -⟩
    cases refused.symm.trans decoded

end DockerPlugin

import DockerPlugin.HeaderEntries
import DockerPlugin.Refusals

namespace DockerPlugin
open Octets Http

theorem HttpHeaderSet.collect_eq (h : HttpHeaderSet) (field : Bytes × Bytes) :
    h.collect field = h.emplace (field.1.map toLower) field.2 :=
  Multimap.assign_emplace h _ [] field.2

/-- The headers of a message as they are to be found in the header set, in the order of their arrival. -/
def Message.lowerHeaders (m : Message) : List Field := m.headers.map fun field => (field.1.map toLower, field.2)

theorem HttpHeaderSet.foldl_collect_refines {h : HttpHeaderSet} {log : List Field} (refines : Multimap.Refines h log)
    (headers : List (Bytes × Bytes)) :
    Multimap.Refines (headers.foldl HttpHeaderSet.collect h)
      (log ++ headers.map fun field => (field.1.map toLower, field.2)) := by
  induction headers generalizing h log with
  | nil => simpa using refines
  | cons field headers ih =>
    have one : Multimap.Refines (h.collect field) (log ++ [(field.1.map toLower, field.2)]) := by
      rw [HttpHeaderSet.collect_eq]
      exact refines.emplace _ _
    simpa using ih one

/-- The members of the base part that take part in the collection of headers. -/
structure Collection where
  collecting : Bool
  buffer : Bytes
  headers : HttpHeaderSet
  position : Option Nat

def HttpConnection.collection (c : HttpConnection) : Collection := ⟨c.mBufferHeaders, c.mBuffer, c.mHeaders, c.mCurrentHeader⟩

section Seen
variable {σ : Type}

/-- A class that enables the collection of headers when a message begins, and whose other methods up to
`on_headers_complete` leave it alone. -/
structure Virtuals.Collects (v : Virtuals σ) (method : LlhttpMethod) : Prop where
  onMessageBegin : ∀ c, (v.onMessageBegin c).2.http.collection = c.http.bufferHeaders.collection
  onUrl : ∀ url c, (v.onUrl method url c).2.http.collection = c.http.collection
  onHeaderField : ∀ field c, (v.onHeaderField field c).2.http.collection = c.http.collection
  onHeaderValue : ∀ value c, (v.onHeaderValue value c).2.http.collection = c.http.collection

/-- The methods of a class up to `on_headers_complete` return zero. -/
structure Virtuals.Proceeds (v : Virtuals σ) (method : LlhttpMethod) : Prop where
  onMessageBegin : ∀ c, (v.onMessageBegin c).1 = 0
  onUrl : ∀ url c, (v.onUrl method url c).1 = 0
  onHeaderField : ∀ field c, (v.onHeaderField field c).1 = 0
  onHeaderValue : ∀ value c, (v.onHeaderValue value c).1 = 0

/-- `request_headers()` as each `on_headers_complete` finds them. -/
def headersSeen (policy : InformationResult) (v : Virtuals σ) : List Callback → Connection σ → List HttpHeaderSet
  | [], _ => []
  | callback :: rest, c =>
    let (res, next) := getSettings v callback c
    (if callback = .onHeadersComplete then [c.http.mHeaders] else []) ++
      if stopsAt policy callback res then [] else headersSeen policy v rest next

variable {policy : InformationResult} {v : Virtuals σ} {c : Connection σ}

theorem headersSeen_cons (callback : Callback) (rest : List Callback) (c : Connection σ) :
    headersSeen policy v (callback :: rest) c =
      (if callback = .onHeadersComplete then [c.http.mHeaders] else []) ++
        if stopsAt policy callback (getSettings v callback c).1 then []
        else headersSeen policy v rest (getSettings v callback c).2 := rfl

theorem headersSeen_append {others : List Callback} (none : .onHeadersComplete ∉ others) (callbacks : List Callback)
    (c : Connection σ) : headersSeen policy v (callbacks ++ others) c = headersSeen policy v callbacks c := by
  induction callbacks generalizing c with
  | nil =>
    rw [List.nil_append]
    induction others generalizing c with
    | nil => rfl
    | cons callback rest ih =>
      rw [List.mem_cons, not_or] at none
      rw [headersSeen_cons, if_neg (Ne.symm none.1), List.nil_append, ih none.2]
      exact ite_self _
  | cons callback rest ih => rw [List.cons_append, headersSeen_cons, headersSeen_cons, ih]

/-- Everything that is seen is seen in a state that has what every step keeps. -/
theorem headersSeen_invariant {P : Connection σ → Prop} {callbacks : List Callback}
    (step : ∀ callback ∈ callbacks, ∀ c, P c → P (getSettings v callback c).2) (start : P c) :
    ∀ h ∈ headersSeen policy v callbacks c, ∃ state, P state ∧ h = state.http.mHeaders := by
  induction callbacks generalizing c with
  | nil => exact nofun
  | cons callback rest ih =>
    intro h member
    rw [headersSeen_cons] at member
    rcases List.mem_append.mp member with now | later
    · by_cases looks : callback = .onHeadersComplete
      · rw [if_pos looks] at now
        exact ⟨c, start, List.mem_singleton.mp now⟩
      · rw [if_neg looks] at now
        cases now
    · by_cases stops : stopsAt policy callback (getSettings v callback c).1 = true
      · rw [if_pos stops] at later
        cases later
      · rw [if_neg stops] at later
        exact ih (fun other inside => step other (List.mem_cons_of_mem _ inside))
          (step callback List.mem_cons_self c start) h later

/-- From one state to another through some callbacks without a look at the headers, unless a result of the
class stops the parser. -/
def Passes (policy : InformationResult) (v : Virtuals σ) (method : LlhttpMethod) (callbacks : List Callback)
    (c next : Connection σ) : Prop :=
  ∀ rest, headersSeen policy v (callbacks ++ rest) c = headersSeen policy v rest next ∨
    headersSeen policy v (callbacks ++ rest) c = [] ∧ ¬ v.Proceeds method

namespace Passes
variable {method : LlhttpMethod} {next last : Connection σ}

theorem append {callbacks others : List Callback} (first : Passes policy v method callbacks c next)
    (second : Passes policy v method others next last) : Passes policy v method (callbacks ++ others) c last := by
  intro rest
  rw [List.append_assoc]
  rcases first (others ++ rest) with same | stopped
  · rw [same]
    exact second rest
  · exact .inr stopped

theorem one {callback : Callback} (other : callback ≠ .onHeadersComplete)
    (silent : v.Proceeds method → (getSettings v callback c).1 = 0) :
    Passes policy v method [callback] c (getSettings v callback c).2 := by
  intro rest
  rw [List.singleton_append, headersSeen_cons, if_neg other, List.nil_append]
  by_cases stops : stopsAt policy callback (getSettings v callback c).1 = true
  · rw [if_pos stops]
    refine .inr ⟨rfl, fun proceeds => ?_⟩
    simp [stopsAt, silent proceeds] at stops
  · rw [if_neg stops]
    exact .inl rfl

theorem spans (announce : Bytes → Callback) (other : ∀ span, announce span ≠ .onHeadersComplete)
    (appends : ∀ span (c : Connection σ), getSettings v (announce span) c = (0, c.mapHttp (·.appendBuffer span)))
    (spans : List Bytes) :
    Passes policy v method (spans.map announce) c (c.mapHttp (·.appendBuffer spans.flatten)) := by
  induction spans generalizing c with
  | nil =>
    have same : c.mapHttp (·.appendBuffer []) = c := by simp [Connection.mapHttp, HttpConnection.appendBuffer]
    intro rest
    rw [List.flatten_nil, same]
    exact .inl rfl
  | cons span spans ih =>
    have first : Passes policy v method [announce span] c (getSettings v (announce span) c).2 :=
      one (other span) fun _ => by rw [appends]
    rw [appends] at first
    have both := first.append (ih (c := c.mapHttp (·.appendBuffer span)))
    simpa [Connection.mapHttp, HttpConnection.appendBuffer] using both

end Passes

/-- How far a connection has collected the headers of a message. -/
def CollectingAt (c : Connection σ) (buffer : Bytes) (headers : HttpHeaderSet) (position : Option Nat) : Prop :=
  c.http.collection = ⟨true, buffer, headers, position⟩

namespace CollectingAt
variable {method : LlhttpMethod} {buffer : Bytes} {headers : HttpHeaderSet} {position : Option Nat}

theorem append (reads : CollectingAt c buffer headers position) (span : Bytes) :
    CollectingAt (c.mapHttp (·.appendBuffer span)) (buffer ++ span) headers position := by
  simp only [CollectingAt, HttpConnection.collection, Collection.mk.injEq, Connection.mapHttp,
    HttpConnection.appendBuffer] at reads ⊢
  obtain ⟨on, rfl, rfl, rfl⟩ := reads
  exact ⟨on, rfl, rfl, rfl⟩

theorem begin (collecting : v.Collects method) (c : Connection σ) :
    CollectingAt (getSettings v .onMessageBegin c).2 [] c.http.mHeaders c.http.mCurrentHeader :=
  collecting.onMessageBegin (c.mapHttp .clearBuffer)

theorem urlComplete (collecting : v.Collects method) (reads : CollectingAt c buffer headers position) :
    CollectingAt (getSettings v (.onUrlComplete method) c).2 [] headers position := by
  have kept := (collecting.onUrl c.http.mBuffer c).trans reads
  simp only [CollectingAt, HttpConnection.collection, Collection.mk.injEq] at kept ⊢
  exact ⟨kept.1, rfl, kept.2.2⟩

theorem fieldComplete (collecting : v.Collects method) (reads : CollectingAt c buffer headers position) :
    CollectingAt (getSettings v .onHeaderFieldComplete c).2 [] (headers.emplace (buffer.map toLower) [])
      (some (headers.upperBound (buffer.map toLower))) := by
  have kept := (collecting.onHeaderField c.http.mBuffer c).trans reads
  simp only [HttpConnection.collection, Collection.mk.injEq] at kept
  obtain ⟨on, text, held, -⟩ := kept
  simp only [CollectingAt, getSettings, on, if_true, Connection.mapHttp, HttpConnection.collection,
    HttpConnection.emplaceHeader, HttpConnection.clearBuffer, text, held]

theorem valueComplete {place : Nat} (collecting : v.Collects method) (reads : CollectingAt c buffer headers (some place)) :
    CollectingAt (getSettings v .onHeaderValueComplete c).2 [] (headers.assign place buffer) (some place) := by
  have kept := (collecting.onHeaderValue c.http.mBuffer c).trans reads
  simp only [HttpConnection.collection, Collection.mk.injEq] at kept
  obtain ⟨on, text, held, pointed⟩ := kept
  simp only [CollectingAt, getSettings, on, if_true, Connection.mapHttp, HttpConnection.collection,
    HttpConnection.assignHeader, HttpConnection.clearBuffer, text, held, pointed]

variable (policy)

/-- Both halves of a header that is delivered with an empty buffer. -/
theorem field (collecting : v.Collects method) (reads : CollectingAt c [] headers position)
    (spans : List Bytes × List Bytes) :
    ∃ next place, Passes policy v method (fieldCallbacks spans) c next ∧
      CollectingAt next [] (headers.collect (spans.1.flatten, spans.2.flatten)) place := by
  have named := (reads.append spans.1.flatten).fieldComplete collecting
  have valued := (named.append spans.2.flatten).valueComplete collecting
  refine ⟨_, _, ?_, valued⟩
  have nameSpans : ∀ c : Connection σ, Passes policy v method (spans.1.map .onHeaderField) c _ :=
    fun _ => .spans .onHeaderField (fun _ => nofun) (fun _ _ => rfl) spans.1
  have nameEnd : ∀ c : Connection σ, Passes policy v method [.onHeaderFieldComplete] c _ :=
    fun _ => .one nofun fun proceeds => proceeds.onHeaderField _ _
  have valueSpans : ∀ c : Connection σ, Passes policy v method (spans.2.map .onHeaderValue) c _ :=
    fun _ => .spans .onHeaderValue (fun _ => nofun) (fun _ _ => rfl) spans.2
  have valueEnd : ∀ c : Connection σ, Passes policy v method [.onHeaderValueComplete] c _ :=
    fun _ => .one nofun fun proceeds => proceeds.onHeaderValue _ _
  simpa [fieldCallbacks] using (nameSpans c).append ((nameEnd _).append ((valueSpans _).append (valueEnd _)))

theorem fields (collecting : v.Collects method) (reads : CollectingAt c [] headers position)
    (fields : List (List Bytes × List Bytes)) :
    ∃ next place, Passes policy v method (fields.flatMap fieldCallbacks) c next ∧
      CollectingAt next []
        ((fields.map fun spans => (spans.1.flatten, spans.2.flatten)).foldl HttpHeaderSet.collect headers) place := by
  induction fields generalizing c headers position with
  | nil => exact ⟨c, position, fun _ => .inl rfl, reads⟩
  | cons spans fields ih =>
    obtain ⟨one, place, first, afterFirst⟩ := reads.field policy collecting spans
    obtain ⟨next, last, later, afterLater⟩ := ih afterFirst
    exact ⟨next, last, first.append later, afterLater⟩

end CollectingAt

/-- What `on_headers_complete` finds in a message: its headers on top of those the connection had. -/
theorem headersSeen_message (policy : InformationResult) {d : Delivery} (collecting : v.Collects d.method)
    (c : Connection σ) :
    headersSeen policy v d.callbacks c = [d.message.headers.foldl HttpHeaderSet.collect c.http.mHeaders] ∨
      headersSeen policy v d.callbacks c = [] ∧ ¬ v.Proceeds d.method := by
  have begun := CollectingAt.begin collecting c
  have located := (begun.append d.url.flatten).urlComplete collecting
  obtain ⟨next, place, passed, collected⟩ := located.fields policy collecting d.headers
  have start : Passes policy v d.method [.onMessageBegin] c _ := .one nofun fun proceeds => proceeds.onMessageBegin _
  have urlSpans : ∀ c : Connection σ, Passes policy v d.method (d.url.map .onUrl) c _ :=
    fun _ => .spans .onUrl (fun _ => nofun) (fun _ _ => rfl) d.url
  have urlEnd : ∀ c : Connection σ, Passes policy v d.method [.onUrlComplete d.method] c _ :=
    fun _ => .one nofun fun proceeds => proceeds.onUrl _ _
  have reached := start.append ((urlSpans _).append ((urlEnd _).append passed))
  have rest : .onHeadersComplete ∉ d.body.map .onBody ++ (d.trailers.flatMap fieldCallbacks ++ [.onMessageComplete]) := by
    simp [fieldCallbacks]
  have looked : headersSeen policy v (.onHeadersComplete :: (d.body.map .onBody ++
      (d.trailers.flatMap fieldCallbacks ++ [.onMessageComplete]))) next = [next.http.mHeaders] := by
    have nothing : headersSeen policy v (d.body.map .onBody ++ (d.trailers.flatMap fieldCallbacks ++ [.onMessageComplete]))
        (getSettings v .onHeadersComplete next).2 = [] := headersSeen_append rest [] _
    rw [headersSeen_cons, if_pos rfl, nothing, ite_self, List.append_nil]
  have held : next.http.mHeaders = d.message.headers.foldl HttpHeaderSet.collect c.http.mHeaders :=
    congrArg Collection.headers collected
  rw [← held, ← looked]
  simpa [Delivery.callbacks] using reached (.onHeadersComplete :: (d.body.map .onBody ++
    (d.trailers.flatMap fieldCallbacks ++ [.onMessageComplete])))

end Seen

namespace PluginConnection
variable {δ : Type} {policy : InformationResult}

theorem pluginHttpConnection_collects (δ : Type) : (pluginHttpConnection δ).Collects .httpPost where
  onMessageBegin _ := rfl
  onUrl _ _ := rfl
  onHeaderField _ _ := rfl
  onHeaderValue _ _ := rfl

theorem pluginHttpConnection_proceeds (δ : Type) : (pluginHttpConnection δ).Proceeds .httpPost where
  onMessageBegin _ := rfl
  onUrl _ _ := rfl
  onHeaderField _ _ := rfl
  onHeaderValue _ _ := rfl

/-- Between messages nothing is left of any header. -/
theorem serve_between (policy : InformationResult) {history : List Delivery} (posts : ∀ d ∈ history, d.method = .httpPost)
    {c : Connection (PluginConnection δ)} (idle : c.http.Idle) (clear : c.http.mHeaders = .empty) :
    (serve policy history c).http.Idle ∧ (serve policy history c).http.mHeaders = .empty := by
  induction history generalizing c with
  | nil => exact ⟨idle, clear⟩
  | cons d rest ih =>
    rw [serve_cons policy (posts d List.mem_cons_self) idle]
    exact ih (fun other member => posts other (List.mem_cons_of_mem d member)) (answered_idle _ _ _) rfl

/-- In a message that is refused `on_headers_complete` finds no header, if it is called at all. -/
theorem headersSeen_refused {d : Delivery} (other : d.method ≠ .httpPost) {c : Connection (PluginConnection δ)}
    (idle : c.http.Idle) : ∀ h ∈ headersSeen policy (pluginHttpConnection δ) d.callbacks c, h = .empty := by
  let located := (getSettings (pluginHttpConnection δ) .onMessageBegin c).2.mapHttp (·.appendBuffer d.url.flatten)
  have ready : located.http.Idle := ⟨idle.headers, idle.unsent, idle.unchunked⟩
  have start : Passes policy (pluginHttpConnection δ) .httpPost [.onMessageBegin] c _ := .one nofun fun _ => rfl
  have reached : Passes policy (pluginHttpConnection δ) .httpPost ([.onMessageBegin] ++ d.url.map .onUrl) c located :=
    start.append (.spans .onUrl (fun _ => nofun) (fun _ _ => rfl) d.url)
  have parts : d.callbacks = [.onMessageBegin] ++ d.url.map .onUrl ++
      .onUrlComplete d.method :: (d.quietCallbacks ++ [.onMessageComplete]) := by
    simpa using d.callbacks_eq []
  intro h member
  rw [parts] at member
  rcases reached (.onUrlComplete d.method :: (d.quietCallbacks ++ [.onMessageComplete])) with same | ⟨stopped, -⟩
  · rw [same, headersSeen_cons, if_neg nofun, List.nil_append, onUrl_refused other ready] at member
    split at member
    · cases member
    · rw [headersSeen_append (by simp)] at member
      obtain ⟨_, ⟨buffer, rfl⟩, rfl⟩ := headersSeen_invariant
        (P := fun state => ∃ buffer, state = drifting (located.http.uds.writes refusal.buffers) located.http.mFault buffer
          located.self) (fun callback inside state ⟨buffer, at_⟩ => by
            obtain ⟨later, step⟩ := quiet_step (d.quietCallbacks_quiet callback inside)
              (located.http.uds.writes refusal.buffers) located.http.mFault buffer located.self
            exact ⟨later, by rw [at_, step]⟩) ⟨[], rfl⟩ h member
      rfl
  · rw [stopped] at member
    cases member

/-- When `on_headers_complete` is called in a message that is not refused, `request_headers()` are its
headers and nothing else, however they came and whatever came before. In a message that the plugin refuses
they are empty. -/
theorem headers_collected (policy : InformationResult) :
    (∀ (σ : Type) (v : Virtuals σ) (d : Delivery), v.Collects d.method → ∀ c : Connection σ, c.http.mHeaders = .empty →
      ∀ h ∈ headersSeen policy v d.callbacks c, h.Represents d.message.lowerHeaders) ∧
    ∀ (δ : Type) (p : Plugin δ) (drivers : δ) (uds : UdsConnection) (history : List Delivery),
      (∀ earlier ∈ history, earlier.method = .httpPost) → ∀ d : Delivery,
        (d.method = .httpPost → ∃ h, headersSeen policy (pluginHttpConnection δ) d.callbacks
          (serve policy history (fresh p drivers uds)) = [h] ∧ h.Represents d.message.lowerHeaders) ∧
        (d.method ≠ .httpPost → ∀ h ∈ headersSeen policy (pluginHttpConnection δ) d.callbacks
          (serve policy history (fresh p drivers uds)), h = .empty) := by
  have represents : ∀ m : Message, HttpHeaderSet.Represents (m.headers.foldl HttpHeaderSet.collect .empty) m.lowerHeaders :=
    fun m => HttpHeaderSet.represents_of_refines (HttpHeaderSet.foldl_collect_refines .empty m.headers)
  refine ⟨fun σ v d collecting c clear h member => ?_, fun δ p drivers uds history posts d => ?_⟩
  · rcases headersSeen_message policy collecting c with seen | ⟨stopped, -⟩
    · rw [seen, clear] at member
      rw [List.mem_singleton.mp member]
      exact represents d.message
    · rw [stopped] at member
      cases member
  · obtain ⟨idle, clear⟩ := serve_between policy posts (HttpConnection.create_idle uds) (c := fresh p drivers uds) rfl
    refine ⟨fun post => ?_, fun other => headersSeen_refused other idle⟩
    have collecting : (pluginHttpConnection δ).Collects d.method := post ▸ pluginHttpConnection_collects δ
    rcases headersSeen_message policy collecting (serve policy history (fresh p drivers uds)) with seen | ⟨-, stopping⟩
    · rw [clear] at seen
      exact ⟨_, seen, represents d.message⟩
    · exact absurd (post ▸ pluginHttpConnection_proceeds δ) stopping

/-- A header that comes twice, under two spellings of its name. -/
def repeatedHeader : Delivery :=
  ⟨.httpPost, [bytes "/Plugin.Activate"], [([bytes "Ac", bytes "cept"], [bytes "a"]), ([bytes "ACCEPT"], [bytes "b"])], [], []⟩

theorem headers_collected_repeated :
    (∀ h ∈ headersSeen .ignored (pluginHttpConnection Nat) repeatedHeader.callbacks (fresh {} 0 ⟨3, fun _ => .accepts 9, []⟩),
      h.Represents [(bytes "accept", bytes "a"), (bytes "accept", bytes "b")]) ∧
    ∃ h, headersSeen .ignored (pluginHttpConnection Nat) repeatedHeader.callbacks
        (serve .ignored twoMessages (fresh {} 0 ⟨3, fun _ => .accepts 9, []⟩)) = [h] ∧
      h.Represents [(bytes "accept", bytes "a"), (bytes "accept", bytes "b")] := by
  obtain ⟨one, later⟩ := headers_collected .ignored
  refine ⟨one _ _ repeatedHeader (pluginHttpConnection_collects Nat) _ rfl, ?_⟩
  exact (later Nat {} 0 ⟨3, fun _ => .accepts 9, []⟩ twoMessages (by decide) repeatedHeader).1 rfl

/-- A request for headers only. -/
def headRequest : Delivery := ⟨.other 2, [bytes "/"], [([bytes "Ho", bytes "st"], [bytes "docker"])], [], []⟩

/-- The headers of a refused request are not there, where the parser goes on with it. -/
theorem headers_of_refused_request :
    (headersSeen .ignored (pluginHttpConnection Nat) headRequest.callbacks
        (serve .ignored [] (fresh {} 0 ⟨3, fun _ => .accepts 9, []⟩))).map (·.entries) = [[]] ∧
      headRequest.message.lowerHeaders = [(bytes "host", bytes "docker")] := by
  decide

end PluginConnection

end DockerPlugin

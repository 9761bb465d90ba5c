import DockerPlugin.ChunkedStreaming
import DockerPlugin.LengthResponses

namespace DockerPlugin
open Octets Http

/-- The ways of producing a response: `send_data` on blocks and then `end()`, which without a
block is `end()` alone, or `end(data, len)`. -/
inductive Production
  | stream (blocks : List Bytes)
  | whole (data : Bytes)
  deriving DecidableEq, Repr

namespace Production

def blocks : Production → List Bytes
  | stream blocks => blocks
  | whole data => [data]

/-- How many bytes are sent. -/
def size (way : Production) : Nat := way.blocks.flatten.length

end Production

/-- The codings that the fields of a message list, from first to last. -/
def transferCodings (fields : List Field) : List Bytes :=
  (valuesOf (bytes "transfer-encoding") fields).flatMap fun value =>
    ((value.splitOn 44).map trim).filter fun coding => !coding.isEmpty

/-- Whether the last one is the chunked coding. -/
def announcesChunked (fields : List Field) : Prop :=
  ∃ coding, (transferCodings fields).getLast? = some coding ∧ sameName coding (bytes "chunked") = true

/-- A body of so many bytes in the chunked coding, to its terminating chunk. -/
def ChunkFramed (size : Nat) (content : Bytes) : Prop :=
  ∃ payload, decodeChunked content = some (payload, []) ∧ payload.length = size

/-- The fields that say where a body ends. -/
def framingFields (headers : HttpHeaderSet) : Nat :=
  Multimap.count headers (bytes "content-length") + Multimap.count headers (bytes "transfer-encoding")

/-- Not both kinds of framing. -/
def OneFraming (headers : HttpHeaderSet) : Prop :=
  ¬ (headers.has (bytes "content-length") = true ∧ headers.has (bytes "transfer-encoding") = true)

/-- What the fields of a header block say about the bytes behind it is true: there is one framing,
not more than the caller asked for, and it is the chunked one if it is announced as that. -/
structure FramingAgrees (prepared sent : HttpHeaderSet) (size : Nat) (content : Bytes) : Prop where
  exclusive : OneFraming sent
  noSecond : framingFields sent ≤ max 1 (framingFields prepared)
  framed : ChunkFramed size content ↔ announcesChunked sent.entries

namespace HttpConnection

def produce (c : HttpConnection) : Production → HttpConnection
  | .stream blocks => c.stream blocks
  | .whole data => c.endWith data

/-- The response headers at the moment when the header block is built. -/
def sentHeaders (c : HttpConnection) : Production → HttpHeaderSet
  | .stream [] =>
    if !c.mResponseHeaders.has (bytes "content-length") then
      c.mResponseHeaders.set (bytes "content-length") (bytes "0")
    else c.mResponseHeaders
  | .stream _ => c.announceChunked.mResponseHeaders
  | .whole data => c.mResponseHeaders.set (bytes "content-length") (decimal data.length)

/-- The bytes behind the header block. -/
def content (c : HttpConnection) (way : Production) : Bytes :=
  if (c.sentHeaders way).get (bytes "transfer-encoding") = bytes "chunked" then streamBody way.blocks
  else way.blocks.flatten

/-- No coding is asked for, or the response is sent in blocks and its first coding is spelled as the
code spells it if and only if the last one is the chunked one. -/
def FramingFits (headers : HttpHeaderSet) (way : Production) : Prop :=
  headers.has (bytes "transfer-encoding") = true →
    (∃ block blocks, way = .stream (block :: blocks)) ∧
      (headers.get (bytes "transfer-encoding") = bytes "chunked" ↔ announcesChunked headers.entries)

end HttpConnection

theorem valuesOf_entries (h : HttpHeaderSet) (name : Bytes) : valuesOf name h.entries = h.getAll name := by
  simp only [valuesOf, HttpHeaderSet.getAll, Multimap.equalRange, sameName_eq_equivalent]

theorem not_announces {h : HttpHeaderSet} (absent : h.has (bytes "transfer-encoding") = false) :
    ¬ announcesChunked h.entries := by
  have none := (Multimap.count_eq_zero_iff h _).mp ((HttpHeaderSet.has_eq_false_iff h _).mp absent)
  have empty : h.getAll (bytes "transfer-encoding") = [] := by
    rw [HttpHeaderSet.getAll, Multimap.equalRange, List.filter_eq_nil_iff.mpr (by simpa using none)]
    rfl
  rintro ⟨coding, last, _⟩
  simp [transferCodings, valuesOf_entries, empty] at last

theorem announces_set (h : HttpHeaderSet) :
    announcesChunked (h.set (bytes "transfer-encoding") (bytes "chunked")).entries := by
  refine ⟨bytes "chunked", ?_, by decide⟩
  rw [transferCodings, valuesOf_entries, HttpHeaderSet.getAll_set]
  decide

theorem chunkFramed_streamBody (blocks : List Bytes) :
    ChunkFramed blocks.flatten.length (HttpConnection.streamBody blocks) := by
  refine ⟨_, HttpConnection.decodeChunked_streamBody blocks, ?_⟩
  induction blocks with
  | nil => rfl
  | cons block blocks ih =>
    rw [List.flatMap_cons, List.length_append, ih, HttpConnection.payload_length, List.flatten_cons, List.length_append]

/-- Data that is sent as it is cannot be taken for its own chunks. -/
theorem not_chunkFramed (data : Bytes) : ¬ ChunkFramed data.length data := by
  rintro ⟨payload, decoded, length⟩
  have shorter := readChunks_shorter decoded
  omega

namespace HttpConnection

theorem framed_iff (c : HttpConnection) (way : Production) :
    ChunkFramed way.size (c.content way) ↔ (c.sentHeaders way).get (bytes "transfer-encoding") = bytes "chunked" := by
  unfold content Production.size
  split
  · rename_i coded
    exact iff_of_true (chunkFramed_streamBody _) coded
  · rename_i plain
    exact iff_of_false (not_chunkFramed _) plain

/-- A header block to which a length was added agrees with its body unless there is a coding too. -/
theorem agrees_set_length (h : HttpHeaderSet) (value : Bytes) {size : Nat} {content : Bytes}
    (framed : ChunkFramed size content ↔
      (h.set (bytes "content-length") value).get (bytes "transfer-encoding") = bytes "chunked") :
    FramingAgrees h (h.set (bytes "content-length") value) size content ↔ h.has (bytes "transfer-encoding") = false := by
  have length := HttpHeaderSet.has_set h (bytes "content-length") value true
  have coding := HttpHeaderSet.has_set_other h lengths_apart value true
  constructor
  · intro agrees
    rw [← coding]
    exact Bool.eq_false_iff.mpr fun both => agrees.exclusive ⟨length, both⟩
  · intro absent
    rw [absent] at coding
    refine ⟨fun both => ?_, ?_, ?_⟩
    · rw [coding] at both
      exact absurd both.2 (by decide)
    · rw [framingFields, HttpHeaderSet.count_set, HttpHeaderSet.count_set_other h lengths_apart,
        (HttpHeaderSet.has_eq_false_iff h _).mp absent]
      exact le_max_left _ _
    · rw [framed, HttpHeaderSet.get_of_not_has coding]
      exact iff_of_false (by decide) (not_announces coding)

/-- A header block to which the chunked coding was added, where there was no length, agrees with its body. -/
theorem agrees_set_coding {h : HttpHeaderSet} (absent : h.has (bytes "content-length") = false) {size : Nat}
    {content : Bytes}
    (framed : ChunkFramed size content ↔
      (h.set (bytes "transfer-encoding") (bytes "chunked")).get (bytes "transfer-encoding") = bytes "chunked") :
    FramingAgrees h (h.set (bytes "transfer-encoding") (bytes "chunked")) size content := by
  have apart : Multimap.equivalent caseInsensitiveLess (bytes "content-length") (bytes "transfer-encoding") = false := by
    rw [Multimap.equivalent_comm, lengths_apart]
  refine ⟨fun both => ?_, ?_, ?_⟩
  · rw [HttpHeaderSet.has_set_other _ apart, absent] at both
    exact absurd both.1 (by decide)
  · rw [framingFields, HttpHeaderSet.count_set, HttpHeaderSet.count_set_other _ apart,
      (HttpHeaderSet.has_eq_false_iff _ _).mp absent]
    exact le_max_left _ _
  · rw [framed, HttpHeaderSet.get_set]
    exact iff_of_true rfl (announces_set _)

/-- A header block that is sent as the caller prepared it. -/
theorem agrees_unchanged {h : HttpHeaderSet} (one : OneFraming h) {size : Nat} {content : Bytes}
    (framed : ChunkFramed size content ↔ h.get (bytes "transfer-encoding") = bytes "chunked") :
    FramingAgrees h h size content ↔
      (h.get (bytes "transfer-encoding") = bytes "chunked" ↔ announcesChunked h.entries) :=
  ⟨fun agrees => framed.symm.trans agrees.framed, fun same => ⟨one, le_max_right _ _, framed.trans same⟩⟩

theorem unchanged_of_absent {h : HttpHeaderSet} (absent : h.has (bytes "transfer-encoding") = false) :
    h.get (bytes "transfer-encoding") = bytes "chunked" ↔ announcesChunked h.entries := by
  rw [HttpHeaderSet.get_of_not_has absent]
  exact iff_of_false (by decide) (not_announces absent)

theorem agrees_iff {c : HttpConnection} (one : OneFraming c.mResponseHeaders) (way : Production) :
    FramingAgrees c.mResponseHeaders (c.sentHeaders way) way.size (c.content way) ↔
      FramingFits c.mResponseHeaders way := by
  have framed := c.framed_iff way
  cases way with
  | whole data =>
    have fits : FramingFits c.mResponseHeaders (.whole data) ↔
        c.mResponseHeaders.has (bytes "transfer-encoding") = false := by
      simp [FramingFits]
    rw [fits]
    exact agrees_set_length _ _ framed
  | stream blocks =>
    cases blocks with
    | nil =>
      have fits : FramingFits c.mResponseHeaders (.stream []) ↔
          c.mResponseHeaders.has (bytes "transfer-encoding") = false := by
        simp [FramingFits]
      rw [fits]
      cases length : c.mResponseHeaders.has (bytes "content-length") with
      | false =>
        simp only [sentHeaders, length, Bool.not_false, if_true] at framed ⊢
        exact agrees_set_length _ _ framed
      | true =>
        have absent : c.mResponseHeaders.has (bytes "transfer-encoding") = false :=
          Bool.eq_false_iff.mpr fun coded => one ⟨length, coded⟩
        simp only [sentHeaders, length, Bool.not_true, Bool.false_eq_true, if_false] at framed ⊢
        rw [agrees_unchanged one framed]
        exact iff_of_true (unchanged_of_absent absent) absent
    | cons block blocks =>
      have fits : FramingFits c.mResponseHeaders (.stream (block :: blocks)) ↔
          (c.mResponseHeaders.has (bytes "transfer-encoding") = true →
            (c.mResponseHeaders.get (bytes "transfer-encoding") = bytes "chunked" ↔
              announcesChunked c.mResponseHeaders.entries)) := by
        simp [FramingFits]
      rw [fits]
      cases coded : c.mResponseHeaders.has (bytes "transfer-encoding") with
      | true =>
        simp only [sentHeaders, announceChunked, coded, Bool.not_true, Bool.and_false, Bool.false_eq_true,
          if_false] at framed ⊢
        rw [agrees_unchanged one framed]
        exact true_imp_iff.symm
      | false =>
        cases length : c.mResponseHeaders.has (bytes "content-length") with
        | true =>
          simp only [sentHeaders, announceChunked, length, Bool.not_true, Bool.false_and, Bool.false_eq_true,
            if_false] at framed ⊢
          rw [agrees_unchanged one framed]
          exact iff_of_true (unchanged_of_absent coded) False.elim
        | false =>
          simp only [sentHeaders, announceChunked, coded, length, Bool.not_false, Bool.and_self, if_true,
            setResponseHeader] at framed ⊢
          exact iff_of_true (agrees_set_coding length framed) fun there => Bool.noConfusion there

/-- What `end()` does to the response headers before they are sent. -/
def announceLength (c : HttpConnection) : HttpConnection :=
  if !c.mResponseHeaders.has (bytes "content-length") then c.setResponseHeader (bytes "content-length") (bytes "0")
  else c

/-- A connection whose response headers are ready to be sent. -/
def opening (c : HttpConnection) : List Bytes → HttpConnection
  | [] => c.announceLength
  | _ => c.announceChunked

theorem opening_frame (c : HttpConnection) (blocks : List Bytes) :
    c.opening blocks = { c with mResponseHeaders := c.sentHeaders (.stream blocks) } := by
  cases blocks with
  | nil =>
    simp only [opening, announceLength, sentHeaders]
    split <;> rfl
  | cons block blocks =>
    simp only [opening, announceChunked, sentHeaders]
    split <;> rfl

theorem stream_opening {c : HttpConnection} (unsent : c.mResponseHeadersSent = false) (blocks : List Bytes) :
    c.stream blocks = ((c.opening blocks).sendHeaders).stream blocks := by
  cases blocks with
  | nil =>
    have closed : ¬ c.mResponseHeadersSent = true := by simp [unsent]
    show c.end_ = (c.announceLength.sendHeaders).end_
    unfold end_
    rw [if_neg closed, if_pos (sendHeaders_sent _)]
    rfl
  | cons block blocks =>
    simp only [stream, List.foldl_cons, opening]
    rw [sendData_unsent unsent]

/-- What a response writes once its header block is out. -/
theorem stream_sent {c : HttpConnection} (sent : c.mResponseHeadersSent = true) (blocks : List Bytes) :
    (c.stream blocks).uds.written =
      c.uds.written ++ if c.mResponseChunked then streamBody blocks else blocks.flatten := by
  have folded := foldl_sendData_sent sent blocks
  have still : (blocks.foldl sendData c).mResponseHeadersSent = true := by rw [folded]; exact sent
  rw [stream, end_sent still, folded, cleared_uds, UdsConnection.writes_written, withUds_uds,
    UdsConnection.writes_written, List.append_assoc]
  congr 1
  cases coded : c.mResponseChunked with
  | true =>
    have writes : dataWrites true = fun block => chunkWrites block block.length block.length := rfl
    simp only [withUds, coded, writes, if_true, streamBody, List.flatten_singleton]
    congr 1
    simp only [List.flatMap, List.flatten_flatten, List.map_map]
    rfl
  | false =>
    have writes : dataWrites false = fun block => [block] := rfl
    simp [withUds, coded, writes]

theorem stream_written {c : HttpConnection} (unsent : c.mResponseHeadersSent = false)
    (unchunked : c.mResponseChunked = false) (blocks : List Bytes) :
    (c.stream blocks).uds.written = c.uds.written ++
      headerBlock c.mResponseStatus c.mResponseMessage (c.sentHeaders (.stream blocks)).entries ++
        c.content (.stream blocks) := by
  have open' : (c.opening blocks).mResponseHeadersSent = false := by rw [opening_frame]; exact unsent
  rw [stream_opening unsent, stream_sent (sendHeaders_sent _), sendHeaders_eq open', opening_frame]
  simp only [headersSent, unchunked, UdsConnection.writes_written, block, List.flatten_singleton, content,
    Production.blocks, Bool.false_eq_true, or_false, decide_eq_true_eq]

/-- The whole of what a response writes: a header block with these fields, and this content. -/
theorem produce_written {c : HttpConnection} (unsent : c.mResponseHeadersSent = false)
    (unchunked : c.mResponseChunked = false) (way : Production) :
    (c.produce way).uds.written = c.uds.written ++
      headerBlock c.mResponseStatus c.mResponseMessage (c.sentHeaders way).entries ++ c.content way := by
  cases way with
  | stream blocks => exact stream_written unsent unchunked blocks
  | whole data =>
    have closed : ¬ c.mResponseHeadersSent = true := by simp [unsent]
    let lengthy := c.setResponseHeader (bytes "content-length") (decimal data.length)
    have same : c.produce (.whole data) = lengthy.stream [data] := by
      simp only [produce, endWith, if_neg closed]
      rfl
    have headers : lengthy.sentHeaders (.stream [data]) = c.sentHeaders (.whole data) := by
      simp only [sentHeaders, announceChunked, lengthy, setResponseHeader, HttpHeaderSet.has_set, Bool.not_true,
        Bool.false_and, Bool.false_eq_true, if_false]
    rw [same, stream_written (c := lengthy) unsent unchunked, content, content, headers]
    rfl

/-- A response is framed as its header block says exactly if the caller asked for no coding, or asked
for one and sends the response in blocks, with a first coding that is literally `chunked` if and only
if its last one is that: `end()` and `end(data, len)` add a length to every coding, and a coding in
another spelling is announced and not applied. -/
theorem framing_agrees_iff {c : HttpConnection} (unsent : c.mResponseHeadersSent = false)
    (unchunked : c.mResponseChunked = false) (one : OneFraming c.mResponseHeaders) (way : Production) :
    (c.produce way).uds.written = c.uds.written ++
        headerBlock c.mResponseStatus c.mResponseMessage (c.sentHeaders way).entries ++ c.content way ∧
      (FramingAgrees c.mResponseHeaders (c.sentHeaders way) way.size (c.content way) ↔
        FramingFits c.mResponseHeaders way) :=
  ⟨produce_written unsent unchunked way, agrees_iff one way⟩

/-- A caller who asks for the chunked coding, in one spelling or another. -/
def codedConnection (coding : String) : HttpConnection :=
  (create ⟨3, fun _ => .accepts 6, []⟩).setResponseHeader (bytes "Transfer-Encoding") (bytes coding)

theorem framing_agrees_chunked :
    ((codedConnection "chunked").produce (.stream [bytes "ok"])).uds.written =
        (codedConnection "chunked").uds.written ++
        headerBlock (codedConnection "chunked").mResponseStatus (codedConnection "chunked").mResponseMessage
          ((codedConnection "chunked").sentHeaders (.stream [bytes "ok"])).entries ++
        (codedConnection "chunked").content (.stream [bytes "ok"]) ∧
      (FramingAgrees (codedConnection "chunked").mResponseHeaders
          ((codedConnection "chunked").sentHeaders (.stream [bytes "ok"])) (Production.stream [bytes "ok"]).size
          ((codedConnection "chunked").content (.stream [bytes "ok"])) ↔
        FramingFits (codedConnection "chunked").mResponseHeaders (.stream [bytes "ok"])) :=
  framing_agrees_iff rfl rfl (fun both => absurd both.1 (by decide)) (.stream [bytes "ok"])

/-- `end("ok")` behind a coding sends both framings, and a coding that begins with a capital letter is
announced but not applied. -/
theorem framing_disagrees :
    OneFraming (codedConnection "chunked").mResponseHeaders ∧
      ¬ FramingAgrees (codedConnection "chunked").mResponseHeaders
        ((codedConnection "chunked").sentHeaders (.whole (bytes "ok"))) 2
        ((codedConnection "chunked").content (.whole (bytes "ok"))) ∧
      ¬ FramingAgrees (codedConnection "Chunked").mResponseHeaders
        ((codedConnection "Chunked").sentHeaders (.stream [bytes "ok"])) 2
        ((codedConnection "Chunked").content (.stream [bytes "ok"])) := by
  refine ⟨fun both => absurd both.1 (by decide), fun agrees => agrees.exclusive (by decide), fun agrees => ?_⟩
  have announced : announcesChunked ((codedConnection "Chunked").sentHeaders (.stream [bytes "ok"])).entries :=
    ⟨bytes "Chunked", by decide, by decide⟩
  have plain : (codedConnection "Chunked").content (.stream [bytes "ok"]) = bytes "ok" := by decide
  have framed := agrees.framed.mpr announced
  rw [plain] at framed
  exact not_chunkFramed (bytes "ok") framed

end HttpConnection

end DockerPlugin

import DockerPlugin.ResponseWrites
import DockerPlugin.Library.HttpReaderLaws

namespace DockerPlugin
open Octets Http

theorem sameName_eq_equivalent (a b : Bytes) : sameName a b = Multimap.equivalent caseInsensitiveLess a b := by
  rw [Bool.eq_iff_iff, equivalent_iff, sameName, decide_eq_true_iff]

/-- A call of `response_headers().set`. -/
structure HeaderCall where
  key : Bytes
  value : Bytes
  replace : Bool

/-- What a call of `set` means for a list of header fields. -/
def HeaderCall.onFields (fields : List Field) (call : HeaderCall) : List Field :=
  (if call.replace then fields.filter fun field => !sameName call.key field.1 else fields) ++ [(call.key, call.value)]

/-- A response as its sender prepares it: the status, the headers and the body. -/
structure PreparedResponse where
  status : Int32
  msg : Bytes
  headers : List HeaderCall
  body : Bytes

namespace PreparedResponse

/-- `response_status`, the calls of `set`, and `end(data, len)`. -/
def send (c : HttpConnection) (r : PreparedResponse) : HttpConnection :=
  (r.headers.foldl (fun c call => c.setResponseHeader call.key call.value call.replace)
    (c.responseStatus r.status r.msg)).endWith r.body

/-- The fields the sender asked for, without any length of their own. -/
def fields (r : PreparedResponse) : List Field :=
  (r.headers.foldl HeaderCall.onFields []).filter fun field => !sameName (bytes "content-length") field.1

/-- A response that the protocol allows: a final status with a body, a reason of one line, and
headers that are fields other than `transfer-encoding`. -/
structure Valid (r : PreparedResponse) : Prop where
  low : 200 ≤ r.status.toInt
  high : r.status.toInt ≤ 599
  bodied : r.status.toInt ≠ 204 ∧ r.status.toInt ≠ 304
  reason : SingleLine r.msg
  named : ∀ call ∈ r.headers, call.key ≠ [] ∧ (∀ b ∈ call.key, isTokenChar b = true)
  uncoded : ∀ call ∈ r.headers, sameName (bytes "transfer-encoding") call.key = false
  single : ∀ call ∈ r.headers, SingleLine call.value
  front : ∀ call ∈ r.headers, ∀ b ∈ call.value.head?, isBlank b = false
  back : ∀ call ∈ r.headers, ∀ b ∈ call.value.getLast?, isBlank b = false

/-- A check that a header can be sent. -/
def checkCall (call : HeaderCall) : Bool :=
  !call.key.isEmpty && call.key.all isTokenChar && !sameName (bytes "transfer-encoding") call.key &&
    call.value.all (fun b => b ≠ 13 ∧ b ≠ 10) && call.value.head?.all (!isBlank ·) && call.value.getLast?.all (!isBlank ·)

theorem Valid.ofCalls {r : PreparedResponse} (low : 200 ≤ r.status.toInt) (high : r.status.toInt ≤ 599)
    (bodied : r.status.toInt ≠ 204 ∧ r.status.toInt ≠ 304) (reason : SingleLine r.msg)
    (checked : r.headers.all checkCall = true) : r.Valid := by
  have parts : ∀ call ∈ r.headers, ((((call.key ≠ [] ∧ (∀ b ∈ call.key, isTokenChar b = true)) ∧
      sameName (bytes "transfer-encoding") call.key = false) ∧ SingleLine call.value) ∧
      (∀ b ∈ call.value.head?, isBlank b = false)) ∧ ∀ b ∈ call.value.getLast?, isBlank b = false := by
    intro call member
    simpa [checkCall, SingleLine, List.all_eq_true, Option.all_eq_true] using List.all_eq_true.mp checked call member
  exact {
    low, high, bodied, reason
    named call member := (parts call member).1.1.1.1
    uncoded call member := (parts call member).1.1.1.2
    single call member := (parts call member).1.1.2
    front call member := (parts call member).1.2
    back call member := (parts call member).2 }

end PreparedResponse

/-- The reason that goes with a status: the message where one is given, else the phrase of the table, and
`OK` for a status that is not in it. -/
inductive ReasonOf (status : Int32) : Bytes → Bytes → Prop
  | given {msg : Bytes} (nonempty : msg ≠ []) : ReasonOf status msg msg
  | listed {phrase : Bytes} (entry : (status, phrase) ∈ httpStatusMap) : ReasonOf status [] phrase
  | unlisted (missing : ∀ e ∈ httpStatusMap, e.1 ≠ status) : ReasonOf status [] (bytes "OK")

theorem foldl_phrase (table : List (Int32 × Bytes)) (status : Int32) (found : Bytes) :
    (status, table.foldl (fun found e => if e.1 = status then e.2 else found) found) ∈ table ∨
      (∀ e ∈ table, e.1 ≠ status) ∧ table.foldl (fun found e => if e.1 = status then e.2 else found) found = found := by
  induction table generalizing found with
  | nil => exact Or.inr ⟨by simp, rfl⟩
  | cons e table ih =>
    rw [List.foldl_cons]
    rcases ih (if e.1 = status then e.2 else found) with later | ⟨missing, same⟩
    · exact Or.inl (List.mem_cons_of_mem e later)
    · rw [same]
      split
      · rename_i here
        exact Or.inl (here ▸ List.mem_cons_self)
      · rename_i other
        exact Or.inr ⟨List.forall_mem_cons.mpr ⟨other, missing⟩, rfl⟩

theorem statusMessage_reason (status : Int32) (msg : Bytes) :
    ReasonOf status msg (HttpConnection.statusMessage status msg) := by
  cases msg with
  | cons b rest => exact .given (List.cons_ne_nil b rest)
  | nil =>
    rcases foldl_phrase httpStatusMap status (bytes "OK") with entry | ⟨missing, same⟩
    · exact .listed entry
    · have silent : HttpConnection.statusMessage status [] = bytes "OK" := same
      rw [silent]
      exact .unlisted missing

namespace PreparedResponse

/-- The response that a reader should find: the status and its reason, the fields in some
order with one `content-length`, and the body. -/
structure ReadAs (r : PreparedResponse) (response : Response) : Prop where
  status : (response.status : Int) = r.status.toInt
  reason : ReasonOf r.status r.msg response.reason
  fields : response.fields.Perm (r.fields ++ [(bytes "content-length", decimal r.body.length)])
  body : response.body = r.body

end PreparedResponse

namespace HttpConnection

/-- No response is under way and no header has been prepared. -/
structure Idle (c : HttpConnection) : Prop where
  headers : c.mResponseHeaders = .empty
  unsent : c.mResponseHeadersSent = false
  unchunked : c.mResponseChunked = false

theorem cleared_idle (uds : UdsConnection) (fault : Bool) : (cleared uds fault).Idle := ⟨rfl, rfl, rfl⟩

theorem create_idle (uds : UdsConnection) : (create uds).Idle := ⟨rfl, rfl, rfl⟩

/-- The header set that a list of calls leaves. -/
def headersOf (calls : List HeaderCall) : HttpHeaderSet :=
  calls.foldl (fun h call => h.set call.key call.value call.replace) .empty

/-- A connection with these response headers prepared. -/
def withHeaders (c : HttpConnection) (headers : HttpHeaderSet) : HttpConnection :=
  { c with mResponseHeaders := headers }

theorem foldl_setResponseHeader (c : HttpConnection) (calls : List HeaderCall) :
    calls.foldl (fun c call => c.setResponseHeader call.key call.value call.replace) c =
      c.withHeaders (calls.foldl (fun h call => h.set call.key call.value call.replace) c.mResponseHeaders) := by
  induction calls generalizing c with
  | nil => rfl
  | cons call calls ih => exact ih _

theorem headersOf_has {calls : List HeaderCall} {key : Bytes}
    (none : ∀ call ∈ calls, sameName key call.key = false) : (headersOf calls).has key = false := by
  have general : ∀ h : HttpHeaderSet, h.has key = false →
      (calls.foldl (fun h call => h.set call.key call.value call.replace) h).has key = false := by
    induction calls with
    | nil => exact fun h absent => absent
    | cons call calls ih =>
      intro h absent
      have apart := none call List.mem_cons_self
      rw [sameName_eq_equivalent] at apart
      refine ih (fun other member => none other (List.mem_cons_of_mem _ member)) _ ?_
      rw [HttpHeaderSet.has_set_other h apart, absent]
  exact general .empty rfl

/-- The header block of a prepared response. -/
def headOf (r : PreparedResponse) : Bytes :=
  headerBlock r.status (statusMessage r.status r.msg)
    ((headersOf r.headers).set (bytes "content-length") (decimal r.body.length)).entries

/-- One prepared response sent on an idle connection: two writes, and the connection is idle
again. -/
theorem send_eq {c : HttpConnection} (idle : c.Idle) {r : PreparedResponse}
    (uncoded : ∀ call ∈ r.headers, sameName (bytes "transfer-encoding") call.key = false) :
    r.send c = cleared (c.uds.writes [headOf r, r.body]) c.mFault := by
  have started : (c.responseStatus r.status r.msg).mResponseHeaders = .empty := idle.headers
  let prepared := (c.responseStatus r.status r.msg).withHeaders (headersOf r.headers)
  have unsent : prepared.mResponseHeadersSent = false := idle.unsent
  have unchunked : prepared.mResponseChunked = false := idle.unchunked
  have plain : prepared.mResponseHeaders.has (bytes "transfer-encoding") = false := headersOf_has uncoded
  rw [PreparedResponse.send, foldl_setResponseHeader, started]
  exact endWith_eq unsent unchunked plain r.body

theorem set_perm {h : HttpHeaderSet} {fields : List Field} (same : h.entries.Perm fields) (call : HeaderCall) :
    (h.set call.key call.value call.replace).entries.Perm (call.onFields fields) := by
  refine (Multimap.emplace_perm _ _ _).trans (List.Perm.trans ?_ (List.perm_append_singleton _ _).symm)
  refine List.Perm.cons _ ?_
  cases call.replace with
  | true => simpa only [if_true, Multimap.erase, sameName_eq_equivalent] using same.filter _
  | false => exact same

/-- The header set holds the fields of the reference list. -/
theorem headersOf_perm (calls : List HeaderCall) :
    (headersOf calls).entries.Perm (calls.foldl HeaderCall.onFields []) := by
  have general : ∀ (h : HttpHeaderSet) (fields : List Field), h.entries.Perm fields →
      (calls.foldl (fun h call => h.set call.key call.value call.replace) h).entries.Perm
        (calls.foldl HeaderCall.onFields fields) := by
    induction calls with
    | nil => exact fun h fields same => same
    | cons call calls ih => exact fun h fields same => ih _ _ (set_perm same call)
  exact general .empty [] .nil

theorem onFields_mem {fields : List Field} {call : HeaderCall} {field : Field}
    (member : field ∈ call.onFields fields) : field ∈ fields ∨ field = (call.key, call.value) := by
  rcases List.mem_append.mp member with old | new
  · left
    split at old
    · exact (List.mem_filter.mp old).1
    · exact old
  · exact Or.inr (List.mem_singleton.mp new)

theorem foldl_onFields_mem {calls : List HeaderCall} {field : Field} (fields : List Field)
    (member : field ∈ calls.foldl HeaderCall.onFields fields) :
    field ∈ fields ∨ ∃ call ∈ calls, field = (call.key, call.value) := by
  induction calls generalizing fields with
  | nil => exact Or.inl member
  | cons call calls ih =>
    rcases ih _ member with old | ⟨later, inside, same⟩
    · rcases onFields_mem old with older | same
      · exact Or.inl older
      · exact Or.inr ⟨call, List.mem_cons_self, same⟩
    · exact Or.inr ⟨later, List.mem_cons_of_mem _ inside, same⟩

end HttpConnection

namespace PreparedResponse

theorem Valid.cleanField {r : PreparedResponse} (valid : r.Valid) {field : Field} (member : field ∈ r.fields) :
    CleanField field ∧ sameName (bytes "transfer-encoding") field.1 = false := by
  rcases HttpConnection.foldl_onFields_mem [] (List.mem_filter.mp member).1 with none | ⟨call, inside, rfl⟩
  · cases none
  · obtain ⟨nonempty, token⟩ := valid.named call inside
    exact ⟨⟨nonempty, token, valid.single call inside, trim_of_edges (valid.front call inside) (valid.back call inside)⟩,
      valid.uncoded call inside⟩

theorem trim_decimal (n : Nat) : trim (decimal n) = decimal n := by
  have digits : ∀ b ∈ decimal n, isBlank b = false := by
    intro b member
    have low := (numeral_printable (show 1 < 10 by decide) (by decide) member).1
    simp only [isBlank, decide_eq_false_iff_not]
    rintro (rfl | rfl) <;> exact absurd low (by decide)
  exact trim_of_edges (fun b first => digits b (List.mem_of_head? first))
    (fun b last => digits b (List.mem_of_getLast? last))

/-- The one length that `end(data, len)` announces. -/
def lengthField (data : Bytes) : Field := (bytes "content-length", decimal data.length)

theorem lengthField_clean (data : Bytes) : CleanField (lengthField data) where
  named := show bytes "content-length" ≠ [] by decide
  token := List.all_eq_true.mp (show (bytes "content-length").all isTokenChar = true by decide)
  single := SingleLine.numeral (by decide) (by decide) _
  trimmed := trim_decimal _

/-- The fields on the wire are those asked for, with one length. -/
theorem entries_perm (r : PreparedResponse) :
    ((HttpConnection.headersOf r.headers).set (bytes "content-length") (decimal r.body.length)).entries.Perm
      (r.fields ++ [lengthField r.body]) :=
  HttpConnection.set_perm (HttpConnection.headersOf_perm r.headers)
    ⟨bytes "content-length", decimal r.body.length, true⟩

theorem Valid.entries_clean {r : PreparedResponse} (valid : r.Valid) :
    ∀ field ∈ ((HttpConnection.headersOf r.headers).set (bytes "content-length") (decimal r.body.length)).entries,
      CleanField field := by
  intro field member
  rcases List.mem_append.mp (r.entries_perm.subset member) with asked | length
  · exact (valid.cleanField asked).1
  · rw [List.mem_singleton.mp length]
    exact lengthField_clean r.body

theorem Valid.entries_uncoded {r : PreparedResponse} (valid : r.Valid) :
    valuesOf (bytes "transfer-encoding")
      ((HttpConnection.headersOf r.headers).set (bytes "content-length") (decimal r.body.length)).entries = [] := by
  rw [valuesOf, List.map_eq_nil_iff, List.filter_eq_nil_iff]
  intro field member
  rcases List.mem_append.mp (r.entries_perm.subset member) with asked | length
  · simp [(valid.cleanField asked).2]
  · rw [List.mem_singleton.mp length]
    exact show ¬sameName (bytes "transfer-encoding") (bytes "content-length") = true by decide

theorem entries_length (r : PreparedResponse) :
    valuesOf (bytes "content-length")
      ((HttpConnection.headersOf r.headers).set (bytes "content-length") (decimal r.body.length)).entries =
        [decimal r.body.length] := by
  have asked : r.fields.filter (fun field => sameName (bytes "content-length") field.1) = [] := by
    rw [List.filter_eq_nil_iff]
    intro field member
    simpa using (List.mem_filter.mp member).2
  have same := ((r.entries_perm.filter fun field => sameName (bytes "content-length") field.1).map Prod.snd)
  rw [List.filter_append, asked, List.nil_append] at same
  exact List.perm_singleton.mp same

theorem Valid.forbidsBody {r : PreparedResponse} (valid : r.Valid) : Http.forbidsBody r.status.toInt.toNat = false := by
  have low := valid.low
  obtain ⟨created, modified⟩ := valid.bodied
  simp only [Http.forbidsBody, decide_eq_false_iff_not]
  omega

theorem foldl_statusMessage {table : List (Int32 × Bytes)} {status : Int32} {found : Bytes}
    (start : SingleLine found) (all : ∀ e ∈ table, SingleLine e.2) :
    SingleLine (table.foldl (fun found e => if e.1 = status then e.2 else found) found) := by
  induction table generalizing found with
  | nil => exact start
  | cons e table ih =>
    refine ih ?_ fun other member => all other (List.mem_cons_of_mem _ member)
    dsimp only
    split
    · exact all e List.mem_cons_self
    · exact start

theorem httpStatusMap_single : ∀ e ∈ httpStatusMap, SingleLine e.2 := by
  decide

theorem statusMessage_single {status : Int32} {msg : Bytes} (single : SingleLine msg) :
    SingleLine (HttpConnection.statusMessage status msg) := by
  unfold HttpConnection.statusMessage
  split
  · exact foldl_statusMessage (by decide) httpStatusMap_single
  · exact single

/-- What a prepared response puts on the wire. -/
def wire (r : PreparedResponse) : Bytes := HttpConnection.headOf r ++ r.body

/-- The response that is on the wire. -/
def response (r : PreparedResponse) : Response where
  status := r.status.toInt.toNat
  reason := HttpConnection.statusMessage r.status r.msg
  fields := ((HttpConnection.headersOf r.headers).set (bytes "content-length") (decimal r.body.length)).entries
  body := r.body

theorem Valid.readAs {r : PreparedResponse} (valid : r.Valid) : r.ReadAs r.response where
  status := Int.toNat_of_nonneg ((show (0 : Int) ≤ 200 by decide).trans valid.low)
  reason := statusMessage_reason r.status r.msg
  fields := r.entries_perm
  body := rfl

/-- One response at the front of a stream is read back, and the reader stops at the byte behind
it. -/
theorem Valid.readResponse_wire {r : PreparedResponse} (valid : r.Valid) (rest : Bytes) :
    readResponse (r.wire ++ rest) = some (r.response, rest) := by
  have low := valid.low
  have high := valid.high
  have code : signedDecimal r.status.toInt = decimal r.status.toInt.toNat := by
    rw [signedDecimal, if_neg (by omega)]
    congr 1
    omega
  have read := readResponse_text (by omega : 100 ≤ r.status.toInt.toNat) (by omega)
    (statusMessage_single valid.reason : SingleLine (HttpConnection.statusMessage r.status r.msg)) valid.entries_clean
    (r.body ++ rest)
  rw [readBody_length valid.forbidsBody valid.entries_uncoded r.entries_length, Option.map_some] at read
  rw [wire, HttpConnection.headOf, HttpConnection.headerBlock, code, List.append_assoc]
  exact read

theorem wire_ne_nil (r : PreparedResponse) : r.wire ≠ [] := by
  have version : bytes "HTTP/1.1 " ≠ [] := by decide
  simp [wire, HttpConnection.headOf, HttpConnection.headerBlock, version]

/-- The stream of several responses is read back as these responses to its last byte. -/
theorem readResponses_wire {rs : List PreparedResponse} (valid : ∀ r ∈ rs, r.Valid) {fuel : Nat}
    (enough : rs.length ≤ fuel) :
    ∃ responses, readResponses fuel (rs.flatMap wire) = some responses ∧ List.Forall₂ ReadAs rs responses := by
  induction rs generalizing fuel with
  | nil => exact ⟨[], by cases fuel <;> rfl, .nil⟩
  | cons r rs ih =>
    obtain ⟨less, rfl⟩ := Nat.exists_eq_add_one_of_ne_zero (show fuel ≠ 0 by simp at enough; omega)
    have first := (valid r List.mem_cons_self).readResponse_wire (rs.flatMap wire)
    obtain ⟨responses, others, readOthers⟩ :=
      @ih (fun other member => valid other (List.mem_cons_of_mem _ member)) less (by simpa using enough)
    refine ⟨r.response :: responses, ?_, .cons (valid r List.mem_cons_self).readAs readOthers⟩
    rw [List.flatMap_cons, readResponses_step r.wire_ne_nil first, others, Option.map_some]

/-- Responses sent one after the other leave their texts on the transport, in order. -/
theorem foldl_send {c : HttpConnection} (idle : c.Idle) {rs : List PreparedResponse} (valid : ∀ r ∈ rs, r.Valid) :
    ∃ buffers, (rs.foldl send c).uds = c.uds.writes buffers ∧ buffers.flatten = rs.flatMap wire := by
  induction rs generalizing c with
  | nil => exact ⟨[], rfl, rfl⟩
  | cons r rs ih =>
    have first := HttpConnection.send_eq idle (valid r List.mem_cons_self).uncoded
    have after : (r.send c).Idle := by
      rw [first]
      exact HttpConnection.cleared_idle _ _
    obtain ⟨buffers, later, text⟩ := ih after fun other member => valid other (List.mem_cons_of_mem _ member)
    refine ⟨[HttpConnection.headOf r, r.body] ++ buffers, ?_, ?_⟩
    · rw [List.foldl_cons, later, first, HttpConnection.cleared_uds, ← UdsConnection.writes_append]
    · simp only [List.flatten_append, text, List.flatMap_cons, wire, List.flatten_cons, List.flatten_nil,
        List.append_nil]

theorem length_le_flatMap_wire (rs : List PreparedResponse) : rs.length ≤ (rs.flatMap wire).length := by
  induction rs with
  | nil => exact Nat.zero_le _
  | cons r rs ih =>
    have positive := List.length_pos_iff_ne_nil.mpr r.wire_ne_nil
    simp only [List.flatMap_cons, List.length_append, List.length_cons]
    omega

/-- Whatever the lengths of the single sends, the byte stream of a connection that answers with
`end(data, len)` reads as exactly the responses that were sent. -/
theorem responses_read_back {uds : UdsConnection} (healthy : uds.Healthy) (fresh : uds.log = [])
    {rs : List PreparedResponse} (valid : ∀ r ∈ rs, r.Valid) :
    ∃ responses,
      readResponses (rs.foldl send (.create uds)).uds.accepted.length (rs.foldl send (.create uds)).uds.accepted =
        some responses ∧
      List.Forall₂ ReadAs rs responses := by
  obtain ⟨buffers, sent, text⟩ := foldl_send (HttpConnection.create_idle uds) valid
  have accepted : (rs.foldl send (.create uds)).uds.accepted = rs.flatMap wire := by
    rw [sent, (UdsConnection.writes_healthy (c := (HttpConnection.create uds).uds) healthy buffers).2, text]
    simp [HttpConnection.create, UdsConnection.accepted, fresh]
  rw [accepted]
  exact readResponses_wire valid (length_le_flatMap_wire rs)

/-- Two responses over a socket that takes two bytes at a time; the first one sets a wrong length,
and the body of the second one looks like a header section. -/
theorem responses_read_back_two :
    ∃ responses,
      readResponses
          ([⟨200, [], [⟨bytes "X-Id", bytes "7", false⟩, ⟨bytes "Content-Length", bytes "99", true⟩], bytes "hello"⟩,
            ⟨404, bytes "Gone away", [], bytes "A: b\r\n\r\n"⟩].foldl send
              (.create ⟨3, fun _ => .accepts 2, []⟩)).uds.accepted.length
          ([⟨200, [], [⟨bytes "X-Id", bytes "7", false⟩, ⟨bytes "Content-Length", bytes "99", true⟩], bytes "hello"⟩,
            ⟨404, bytes "Gone away", [], bytes "A: b\r\n\r\n"⟩].foldl send
              (.create ⟨3, fun _ => .accepts 2, []⟩)).uds.accepted = some responses ∧
      List.Forall₂ ReadAs
        [⟨200, [], [⟨bytes "X-Id", bytes "7", false⟩, ⟨bytes "Content-Length", bytes "99", true⟩], bytes "hello"⟩,
          ⟨404, bytes "Gone away", [], bytes "A: b\r\n\r\n"⟩] responses := by
  refine responses_read_back ⟨by decide, by simp⟩ rfl ?_
  simp only [List.forall_mem_cons, List.not_mem_nil, false_imp_iff, implies_true, and_true]
  constructor
  · exact .ofCalls (by decide) (by decide) (by decide) (by decide) (by decide)
  · exact .ofCalls (by decide) (by decide) (by decide) (by decide) (by decide)

end PreparedResponse

end DockerPlugin

import DockerPlugin.LengthResponses
import Mathlib.Data.List.Forall2

namespace DockerPlugin
open Octets Http

/-- A response as a handler of the plugin gives it: a status, the text, and whether the content
type of the plugin interface is announced. -/
structure Reply where
  status : Int32
  typed : Bool
  text : Bytes

def contentType : Bytes × Bytes := (bytes "content-type", bytes "application/vnd.docker.plugins.v1.1+json")

namespace Reply

def headers (r : Reply) : HttpHeaderSet :=
  ((if r.typed then HttpHeaderSet.set .empty contentType.1 contentType.2 else .empty) : HttpHeaderSet).set
    (bytes "content-length") (decimal r.text.length)

/-- The two buffers of a response: its header block and its text. -/
def buffers (r : Reply) : List Bytes :=
  [HttpConnection.headerBlock r.status (HttpConnection.statusMessage r.status []) r.headers.entries, r.text]

def wire (r : Reply) : Bytes := r.buffers.flatten

/-- A reply as a response that its sender prepared. -/
def prepared (r : Reply) : PreparedResponse where
  status := r.status
  msg := []
  headers := if r.typed then [⟨contentType.1, contentType.2, true⟩] else []
  body := r.text

theorem wire_prepared (r : Reply) : r.wire = r.prepared.wire := by
  have headers : r.headers =
      (HttpConnection.headersOf r.prepared.headers).set (bytes "content-length") (decimal r.text.length) := by
    obtain ⟨status, typed, text⟩ := r
    cases typed <;> rfl
  simp only [wire, buffers, headers, PreparedResponse.wire, HttpConnection.headOf, List.flatten_cons, List.flatten_nil,
    List.append_nil]
  rfl

end Reply

/-- The codes of a final answer whose sender may add content to it. -/
structure AllowsContent (status : Int) : Prop where
  low : 200 ≤ status
  high : status ≤ 599
  content : status ≠ 204 ∧ status ≠ 205 ∧ status ≠ 304

namespace AllowsContent

theorem ok : AllowsContent (200 : Int32).toInt := by constructor <;> decide

theorem badRequest : AllowsContent (400 : Int32).toInt := by constructor <;> decide

theorem notFound : AllowsContent (404 : Int32).toInt := by constructor <;> decide

theorem notAllowed : AllowsContent (405 : Int32).toInt := by constructor <;> decide

theorem serverError : AllowsContent (500 : Int32).toInt := by constructor <;> decide

end AllowsContent

theorem Reply.valid {r : Reply} (allows : AllowsContent r.status.toInt) : r.prepared.Valid := by
  have typed : PreparedResponse.checkCall ⟨contentType.1, contentType.2, true⟩ = true := by decide
  refine .ofCalls allows.low allows.high ⟨allows.content.1, allows.content.2.2⟩ (List.forall_mem_nil _) ?_
  simp only [prepared]
  split
  · simpa using typed
  · rfl

/-- A text that is one response wherever it stands in a stream, with content of the announced
length. -/
structure OneResponse (text : Bytes) (response : Response) : Prop where
  read : ∀ next, readResponse (text ++ next) = some (response, next)
  allows : AllowsContent response.status
  length : valuesOf (bytes "content-length") response.fields = [decimal response.body.length]

/-- No text is one response both alone and with something behind it. -/
theorem OneResponse.nothing_behind {text more : Bytes} {response other : Response} (one : OneResponse text response)
    (whole : OneResponse (text ++ more) other) : more = [] := by
  have alone := whole.read []
  rw [List.append_nil, one.read more] at alone
  exact (Prod.mk.inj (Option.some.inj alone)).2

namespace Reply

theorem oneResponse {r : Reply} (allows : AllowsContent r.status.toInt) : OneResponse r.wire r.prepared.response where
  read next := by
    rw [wire_prepared]
    exact (valid allows).readResponse_wire next
  allows := by
    rw [(valid allows).readAs.status]
    exact allows
  length := r.prepared.entries_length

/-- Replies are read back one by one. -/
theorem read_wires {replies : List Reply} (allowed : ∀ reply ∈ replies, AllowsContent reply.status.toInt) :
    ∃ responses, readResponses (replies.flatMap Reply.wire).length (replies.flatMap Reply.wire) = some responses ∧
      List.Forall₂ (fun (reply : Reply) response => reply.prepared.ReadAs response) replies responses := by
  have wires : replies.flatMap Reply.wire = (replies.map Reply.prepared).flatMap PreparedResponse.wire := by
    rw [List.flatMap_map]
    exact List.flatMap_congr fun reply _ => reply.wire_prepared
  have valid : ∀ r ∈ replies.map Reply.prepared, r.Valid := by
    intro r member
    obtain ⟨reply, inside, rfl⟩ := List.mem_map.mp member
    exact Reply.valid (allowed reply inside)
  obtain ⟨responses, read, same⟩ :=
    PreparedResponse.readResponses_wire valid (PreparedResponse.length_le_flatMap_wire _)
  rw [wires]
  exact ⟨responses, read, List.forall₂_map_left_iff.mp same⟩

/-- The code that is read from a reply is its status. -/
theorem status_of_read {r : Reply} {response : Response} {rest after : Bytes}
    (read : readResponse (r.wire ++ rest) = some (response, after)) : (response.status : Int) = r.status.toInt := by
  have single : SingleLine (bytes "HTTP/1.1 " ++ signedDecimal r.status.toInt ++ bytes " " ++
      HttpConnection.statusMessage r.status []) := by
    refine .append (.append (.append (by decide) (.signedDecimal _)) (by decide)) ?_
    exact PreparedResponse.statusMessage_single (List.forall_mem_nil _)
  have line : r.wire ++ rest = bytes "HTTP/1.1 " ++ signedDecimal r.status.toInt ++ bytes " " ++
      HttpConnection.statusMessage r.status [] ++ crlf ++
        ((r.headers.entries.map fun e => e.1 ++ bytes ": " ++ e.2 ++ crlf).flatten ++ crlf ++ r.text ++ rest) := by
    simp only [wire, buffers, HttpConnection.headerBlock, List.flatten_cons, List.flatten_nil, List.append_nil,
      List.append_assoc]
  rw [line] at read
  exact readStatusLine_code (readResponse_line single read)

/-- How a reply is spelled: a status line, the header fields, an empty line and the content. -/
def SpelledBy (r : Reply) (text : Bytes) : Prop :=
  ∃ reason, ReasonOf r.status [] reason ∧ text =
    bytes "HTTP/1.1 " ++ signedDecimal r.status.toInt ++ bytes " " ++ reason ++ crlf ++
      bytes "content-length: " ++ decimal r.text.length ++ crlf ++
        (if r.typed then bytes "content-type: application/vnd.docker.plugins.v1.1+json" ++ crlf else []) ++
          crlf ++ r.text

theorem wire_spelled (r : Reply) : r.SpelledBy r.wire := by
  refine ⟨_, statusMessage_reason r.status [], ?_⟩
  have length : bytes "content-length: " = bytes "content-length" ++ bytes ": " := by decide
  have type : bytes "content-type: application/vnd.docker.plugins.v1.1+json" =
      contentType.1 ++ bytes ": " ++ contentType.2 := by decide
  have entries : r.headers.entries =
      (bytes "content-length", decimal r.text.length) :: if r.typed then [contentType] else [] := by
    obtain ⟨status, typed, text⟩ := r
    cases typed <;> rfl
  simp only [wire, buffers, HttpConnection.headerBlock, entries, length, type]
  cases r.typed <;> simp

/-- A text that gives this reply, by its spelling and to whoever reads it. -/
structure GivenBy (r : Reply) (text : Bytes) : Prop where
  spelled : r.SpelledBy text
  read : ∃ response, OneResponse text response ∧ (response.status : Int) = r.status.toInt ∧ response.body = r.text

theorem wire_gives {r : Reply} (allows : AllowsContent r.status.toInt) : r.GivenBy r.wire where
  spelled := r.wire_spelled
  read := ⟨_, oneResponse allows, (valid allows).readAs.status, rfl⟩

end Reply

end DockerPlugin

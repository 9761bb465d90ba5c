import DockerPlugin.HttpConnection

namespace DockerPlugin
open Octets

namespace HttpConnection

/-- The state that `end()` leaves behind on a transport. The reason phrase is empty here,
while a new connection starts with `OK`. -/
def cleared (uds : UdsConnection) (fault : Bool) : HttpConnection :=
  { uds, mFault := fault, mResponseMessage := [] }

@[simp] theorem cleared_uds (uds : UdsConnection) (fault : Bool) : (cleared uds fault).uds = uds := rfl

/-- The buffers that the splitting loop writes. -/
def chunkWrites (data : Bytes) : Nat → Nat → List Bytes
  | 0, _ => []
  | fuel + 1, len =>
    if len = 0 then []
    else
      let smallLen := min len uint16Max
      [hexadecimal smallLen ++ crlf, data.take smallLen, crlf] ++ chunkWrites data fuel (len - smallLen)

/-- A connection whose transport has moved on. -/
def withUds (c : HttpConnection) (uds : UdsConnection) : HttpConnection := { c with uds }

@[simp] theorem withUds_uds (c : HttpConnection) (uds : UdsConnection) : (c.withUds uds).uds = uds := rfl

theorem write_eq (c : HttpConnection) (data : Bytes) : c.write data = c.withUds (c.uds.writes [data]) := rfl

theorem chunkLoop_eq (data : Bytes) (fuel len : Nat) (c : HttpConnection) :
    chunkLoop data fuel len c = c.withUds (c.uds.writes (chunkWrites data fuel len)) := by
  induction fuel generalizing len c with
  | zero => rfl
  | succ fuel ih =>
    simp only [chunkLoop, chunkWrites]
    split
    · rfl
    · rw [ih]
      rfl

/-- The state behind `send_headers` on a transport. -/
def headersSent (c : HttpConnection) (uds : UdsConnection) : HttpConnection :=
  { c with
    uds, mResponseHeadersSent := true, mResponseMessage := [], mResponseHeaders := .empty
    mResponseChunked := c.mResponseHeaders.get (bytes "transfer-encoding") = bytes "chunked" ∨ c.mResponseChunked }

/-- The header block that a connection is about to send. -/
def block (c : HttpConnection) : Bytes :=
  headerBlock c.mResponseStatus c.mResponseMessage c.mResponseHeaders.entries

theorem sendHeaders_eq {c : HttpConnection} (unsent : c.mResponseHeadersSent = false) :
    c.sendHeaders = c.headersSent (c.uds.writes [c.block]) := by
  unfold sendHeaders headersSent
  rw [if_neg (by simp [unsent])]
  by_cases coded : c.mResponseHeaders.get (bytes "transfer-encoding") = bytes "chunked"
  · simp only [write, coded, if_true, true_or, decide_true]
    rfl
  · simp only [write, coded, if_false, false_or, Bool.decide_eq_true]
    rfl

theorem sendHeaders_sent (c : HttpConnection) : c.sendHeaders.mResponseHeadersSent = true := by
  cases sent : c.mResponseHeadersSent with
  | false => rw [sendHeaders_eq sent, headersSent]
  | true => rw [sendHeaders, if_pos sent, sent]

/-- What `send_data` writes once the headers are out. -/
def dataWrites (chunked : Bool) (data : Bytes) : List Bytes :=
  if chunked then chunkWrites data data.length data.length else [data]

theorem sendData_sent {c : HttpConnection} (sent : c.mResponseHeadersSent = true) (data : Bytes) :
    c.sendData data = c.withUds (c.uds.writes (dataWrites c.mResponseChunked data)) := by
  unfold sendData dataWrites
  rw [if_pos sent]
  dsimp only
  by_cases chunked : c.mResponseChunked = true
  · rw [if_pos chunked, if_pos chunked, chunkLoop_eq]
  · rw [if_neg chunked, if_neg chunked, write_eq]

/-- What is done to the response headers before they are sent: `send_data` chooses the
chunked coding where no framing was announced. -/
def announceChunked (c : HttpConnection) : HttpConnection :=
  if !c.mResponseHeaders.has (bytes "content-length") && !c.mResponseHeaders.has (bytes "transfer-encoding") then
    c.setResponseHeader (bytes "transfer-encoding") (bytes "chunked")
  else c

theorem sendData_unsent {c : HttpConnection} (unsent : c.mResponseHeadersSent = false) (data : Bytes) :
    c.sendData data = c.announceChunked.sendHeaders.sendData data := by
  have closed : ¬ c.mResponseHeadersSent = true := by simp [unsent]
  unfold sendData
  rw [if_neg closed, if_pos (sendHeaders_sent _)]
  rfl

theorem end_sent {c : HttpConnection} (sent : c.mResponseHeadersSent = true) :
    c.end_ = cleared (c.uds.writes (if c.mResponseChunked then [bytes "0\r\n\r\n"] else [])) c.mFault := by
  unfold end_
  rw [if_pos sent]
  dsimp only
  by_cases chunked : c.mResponseChunked = true
  · rw [if_pos chunked, if_pos chunked]
    rfl
  · rw [if_neg chunked, if_neg chunked]
    rfl

theorem lengths_apart :
    Multimap.equivalent caseInsensitiveLess (bytes "transfer-encoding") (bytes "content-length") = false := by
  decide

/-- A complete response of known length: one header block and one write of the body. -/
theorem endWith_eq {c : HttpConnection} (unsent : c.mResponseHeadersSent = false)
    (unframed : c.mResponseChunked = false)
    (plain : c.mResponseHeaders.has (bytes "transfer-encoding") = false) (data : Bytes) :
    c.endWith data = cleared (c.uds.writes [headerBlock c.mResponseStatus c.mResponseMessage
      (c.mResponseHeaders.set (bytes "content-length") (decimal data.length)).entries, data]) c.mFault := by
  have closed : ¬ c.mResponseHeadersSent = true := by simp [unsent]
  have announced : (c.setResponseHeader (bytes "content-length") (decimal data.length)).announceChunked =
      c.setResponseHeader (bytes "content-length") (decimal data.length) := by
    unfold announceChunked setResponseHeader
    rw [HttpHeaderSet.has_set]
    rfl
  have uncoded : (c.mResponseHeaders.set (bytes "content-length") (decimal data.length)).get
      (bytes "transfer-encoding") = [] := by
    apply HttpHeaderSet.get_of_not_has
    rw [HttpHeaderSet.has_set_other _ lengths_apart, plain]
  have stillUnsent : (c.setResponseHeader (bytes "content-length") (decimal data.length)).mResponseHeadersSent =
      false := unsent
  unfold endWith
  rw [if_neg closed]
  dsimp only
  rw [sendData_unsent stillUnsent, announced, sendHeaders_eq stillUnsent, sendData_sent rfl, end_sent rfl]
  have direct : decide ([] = bytes "chunked" ∨ c.mResponseChunked = true) = false := by
    rw [unframed]
    decide
  simp only [headersSent, setResponseHeader, withUds, uncoded, direct, dataWrites]
  rfl

end HttpConnection

end DockerPlugin

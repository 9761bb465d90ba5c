import DockerPlugin.HttpHeaderSet
import DockerPlugin.UdsConnection

namespace DockerPlugin
open Octets

/-- The members of `http_connection`. The header iterator is the position it points at, and
`none` while it is value-initialised; `mFault` records that such an iterator was written
through. -/
structure HttpConnection where
  uds : UdsConnection
  mBuffer : Bytes := []
  mBufferBody : Bool := false
  mBufferHeaders : Bool := false
  mHeaders : HttpHeaderSet := .empty
  mCurrentHeader : Option Nat := none
  mFault : Bool := false
  mResponseStatus : Int32 := 200
  mResponseMessage : Bytes := bytes "OK"
  mResponseHeaders : HttpHeaderSet := .empty
  mResponseHeadersSent : Bool := false
  mResponseChunked : Bool := false

def httpStatusMap : List (Int32 × Bytes) := [
  (100, bytes "Continue"),
  (101, bytes "Switching Protocols"),
  (102, bytes "Processing"),
  (200, bytes "OK"),
  (201, bytes "Created"),
  (202, bytes "Accepted"),
  (203, bytes "Non-authoritative Information"),
  (204, bytes "No Content"),
  (205, bytes "Reset Content"),
  (206, bytes "Partial Content"),
  (207, bytes "Multi-Status"),
  (208, bytes "Already Reported"),
  (226, bytes "IM Used"),
  (300, bytes "Multiple Choices"),
  (301, bytes "Moved Permanently"),
  (302, bytes "Found"),
  (303, bytes "See Other"),
  (304, bytes "Not Modified"),
  (305, bytes "Use Proxy"),
  (307, bytes "Temporary Redirect"),
  (308, bytes "Permanent Redirect"),
  (400, bytes "Bad Request"),
  (401, bytes "Unauthorized"),
  (402, bytes "Payment Required"),
  (403, bytes "Forbidden"),
  (404, bytes "Not Found"),
  (405, bytes "Method Not Allowed"),
  (406, bytes "Not Acceptable"),
  (407, bytes "Proxy Authentication Required"),
  (408, bytes "Request Timeout"),
  (409, bytes "Conflict"),
  (410, bytes "Gone"),
  (411, bytes "Length Required"),
  (412, bytes "Precondition Failed"),
  (413, bytes "Payload Too Large"),
  (414, bytes "Request-URI Too Long"),
  (415, bytes "Unsupported Media Type"),
  (416, bytes "Requested Range Not Satisfiable"),
  (417, bytes "Expectation Failed"),
  (418, bytes "I'm a teapot"),
  (421, bytes "Misdirected Request"),
  (422, bytes "Unprocessable Entity"),
  (423, bytes "Locked"),
  (424, bytes "Failed Dependency"),
  (426, bytes "Upgrade Required"),
  (428, bytes "Precondition Required"),
  (429, bytes "Too Many Requests"),
  (431, bytes "Request Header Fields Too Large"),
  (444, bytes "Connection Closed Without Response"),
  (451, bytes "Unavailable For Legal Reasons"),
  (499, bytes "Client Closed Request"),
  (500, bytes "Internal Server Error"),
  (501, bytes "Not Implemented"),
  (502, bytes "Bad Gateway"),
  (503, bytes "Service Unavailable"),
  (504, bytes "Gateway Timeout"),
  (505, bytes "HTTP Version Not Supported"),
  (506, bytes "Variant Also Negotiates"),
  (507, bytes "Insufficient Storage"),
  (508, bytes "Loop Detected"),
  (510, bytes "Not Extended"),
  (511, bytes "Network Authentication Required"),
  (599, bytes "Network Connect Timeout Error")]

/-- `std::numeric_limits<uint16_t>::max()`, the longest chunk. -/
def uint16Max : Nat := 65535

namespace HttpConnection

/-- `http_connection(int sock)` over the transport it was accepted on. -/
def create (uds : UdsConnection) : HttpConnection := { uds }

def write (c : HttpConnection) (data : Bytes) : HttpConnection := { c with uds := (c.uds.write data).2 }

def close (c : HttpConnection) : HttpConnection := { c with uds := c.uds.close }

def body (c : HttpConnection) : Bytes := c.mBuffer

def statusMessage (status : Int32) (msg : Bytes) : Bytes :=
  if msg.isEmpty then
    httpStatusMap.foldl (fun found e => if e.1 = status then e.2 else found) (bytes "OK")
  else msg

def responseStatus (c : HttpConnection) (status : Int32) (msg : Bytes := []) : HttpConnection :=
  { c with mResponseStatus := status, mResponseMessage := statusMessage status msg }

/-- `response_headers().set(key, value, replace)`. -/
def setResponseHeader (c : HttpConnection) (key value : Bytes) (replace : Bool := true) : HttpConnection :=
  { c with mResponseHeaders := c.mResponseHeaders.set key value replace }

/-- The text of a header block as `send_headers` builds it. -/
def headerBlock (status : Int32) (message : Bytes) (headers : List (Bytes × Bytes)) : Bytes :=
  bytes "HTTP/1.1 " ++ signedDecimal status.toInt ++ bytes " " ++ message ++ crlf ++
    (headers.map fun e => e.1 ++ bytes ": " ++ e.2 ++ crlf).flatten ++ crlf

def sendHeaders (c : HttpConnection) : HttpConnection :=
  if c.mResponseHeadersSent then c
  else
    let c := c.write (headerBlock c.mResponseStatus c.mResponseMessage c.mResponseHeaders.entries)
    let c := { c with mResponseHeadersSent := true }
    let c :=
      if c.mResponseHeaders.get (bytes "transfer-encoding") = bytes "chunked" then
        { c with mResponseChunked := true }
      else c
    { c with mResponseMessage := [], mResponseHeaders := .empty }

/-- The splitting loop of `send_data`. Only `len` changes from round to round: every chunk is
taken from the front of `data`. -/
def chunkLoop (data : Bytes) : Nat → Nat → HttpConnection → HttpConnection
  | 0, _, c => c
  | fuel + 1, len, c =>
    if len = 0 then c
    else
      let smallLen := min len uint16Max
      let c := c.write (hexadecimal smallLen ++ crlf)
      let c := c.write (data.take smallLen)
      let c := c.write crlf
      chunkLoop data fuel (len - smallLen) c

def sendData (c : HttpConnection) (data : Bytes) : HttpConnection :=
  let c :=
    if c.mResponseHeadersSent then c
    else
      let c :=
        if !c.mResponseHeaders.has (bytes "content-length") && !c.mResponseHeaders.has (bytes "transfer-encoding") then
          c.setResponseHeader (bytes "transfer-encoding") (bytes "chunked")
        else c
      c.sendHeaders
  if c.mResponseChunked then chunkLoop data data.length data.length c else c.write data

/-- `end()`. -/
def end_ (c : HttpConnection) : HttpConnection :=
  let c :=
    if c.mResponseHeadersSent then c
    else
      let c :=
        if !c.mResponseHeaders.has (bytes "content-length") then
          c.setResponseHeader (bytes "content-length") (bytes "0")
        else c
      c.sendHeaders
  let c := if c.mResponseChunked then c.write (bytes "0\r\n\r\n") else c
  { c with
    mBuffer := [], mBufferBody := false, mBufferHeaders := false, mHeaders := .empty, mCurrentHeader := none
    mResponseStatus := 200, mResponseMessage := [], mResponseHeaders := .empty
    mResponseHeadersSent := false, mResponseChunked := false }

/-- `end(data, len)`. -/
def endWith (c : HttpConnection) (data : Bytes) : HttpConnection :=
  let c :=
    if c.mResponseHeadersSent then c
    else c.setResponseHeader (bytes "content-length") (decimal data.length)
  (c.sendData data).end_

end HttpConnection

end DockerPlugin

import DockerPlugin.HttpConnection

namespace DockerPlugin
open Octets

/-- An object of a class derived from `http_connection`: the base part and its own members. -/
structure Connection (σ : Type) where
  http : HttpConnection
  self : σ

inductive LlhttpMethod
  | httpPost
  | other (code : Nat)
  deriving DecidableEq, Repr

/-- The virtual methods of `http_connection`. A class overrides some of them; the others do
nothing and return zero. -/
structure Virtuals (σ : Type) where
  onMessageBegin : Connection σ → Int × Connection σ := fun c => (0, c)
  onUrl : LlhttpMethod → Bytes → Connection σ → Int × Connection σ := fun _ _ c => (0, c)
  onHeaderField : Bytes → Connection σ → Int × Connection σ := fun _ c => (0, c)
  onHeaderValue : Bytes → Connection σ → Int × Connection σ := fun _ c => (0, c)
  onHeadersComplete : Connection σ → Int × Connection σ := fun c => (0, c)
  onBody : Bytes → Connection σ → Int × Connection σ := fun _ c => (0, c)
  onMessageComplete : Connection σ → Int × Connection σ := fun c => (0, c)

/-- The callbacks that the parser makes, with the spans of text it hands over. -/
inductive Callback
  | onMessageBegin
  | onUrl (span : Bytes)
  | onUrlComplete (method : LlhttpMethod)
  | onHeaderField (span : Bytes)
  | onHeaderFieldComplete
  | onHeaderValue (span : Bytes)
  | onHeaderValueComplete
  | onHeadersComplete
  | onBody (span : Bytes)
  | onMessageComplete
  deriving DecidableEq, Repr

namespace HttpConnection

def bufferBody (c : HttpConnection) : HttpConnection := { c with mBufferBody := true }

def bufferHeaders (c : HttpConnection) : HttpConnection := { c with mBufferHeaders := true }

def clearBuffer (c : HttpConnection) : HttpConnection := { c with mBuffer := [] }

def appendBuffer (c : HttpConnection) (span : Bytes) : HttpConnection := { c with mBuffer := c.mBuffer ++ span }

/-- The buffered text becomes the lower-case name of a new request header. -/
def emplaceHeader (c : HttpConnection) : HttpConnection :=
  let name := c.mBuffer.map toLower
  { c with mCurrentHeader := some (c.mHeaders.upperBound name), mHeaders := c.mHeaders.emplace name [] }

/-- The buffered text becomes the value of the header the iterator points at. A
value-initialised iterator differs from `end()` and is written through all the same. -/
def assignHeader (c : HttpConnection) : HttpConnection :=
  match c.mCurrentHeader with
  | some position => { c with mHeaders := c.mHeaders.assign position c.mBuffer }
  | none => { c with mFault := true }

end HttpConnection

namespace Connection
variable {σ : Type}

def mapHttp (c : Connection σ) (f : HttpConnection → HttpConnection) : Connection σ := { c with http := f c.http }

end Connection

/-- The functions of `http_connection::get_settings`. -/
def getSettings {σ : Type} (v : Virtuals σ) : Callback → Connection σ → Int × Connection σ
  | .onMessageBegin, c => v.onMessageBegin (c.mapHttp .clearBuffer)
  | .onUrl span, c => (0, c.mapHttp (·.appendBuffer span))
  | .onUrlComplete method, c =>
    let (res, c) := v.onUrl method c.http.mBuffer c
    (res, c.mapHttp .clearBuffer)
  | .onHeaderField span, c => (0, c.mapHttp (·.appendBuffer span))
  | .onHeaderFieldComplete, c =>
    let (res, c) := v.onHeaderField c.http.mBuffer c
    let c := if c.http.mBufferHeaders then c.mapHttp .emplaceHeader else c
    (res, c.mapHttp .clearBuffer)
  | .onHeaderValue span, c => (0, c.mapHttp (·.appendBuffer span))
  | .onHeaderValueComplete, c =>
    let (res, c) := v.onHeaderValue c.http.mBuffer c
    let c := if c.http.mBufferHeaders then c.mapHttp .assignHeader else c
    (res, c.mapHttp .clearBuffer)
  | .onHeadersComplete, c => v.onHeadersComplete (c.mapHttp .clearBuffer)
  | .onMessageComplete, c =>
    if c.http.mBufferBody then
      let (res, c) := v.onBody c.http.mBuffer c
      if res ≠ 0 then (res, c) else v.onMessageComplete c
    else v.onMessageComplete (c.mapHttp .clearBuffer)
  | .onBody span, c => if c.http.mBufferBody then (0, c.mapHttp (·.appendBuffer span)) else v.onBody span c

/-- How the parser treats a non-zero result of its information-only callbacks, those that
announce the end of a URL, a header field or a header value. -/
inductive InformationResult
  | stops
  | ignored
  deriving DecidableEq, Repr

namespace Callback

def informationOnly : Callback → Bool
  | onUrlComplete _ | onHeaderFieldComplete | onHeaderValueComplete => true
  | _ => false

end Callback

/-- Whether the parser stops with an error at the result of a callback. -/
def stopsAt (policy : InformationResult) (callback : Callback) (res : Int) : Bool :=
  res ≠ 0 && !(callback.informationOnly && policy = .ignored)

/-- `llhttp_execute` over the callbacks that a text amounts to, and `on_read` around it: at
the first result that stops the parser the connection is closed. -/
def onRead {σ : Type} (policy : InformationResult) (v : Virtuals σ) : List Callback → Connection σ → Connection σ
  | [], c => c
  | callback :: rest, c =>
    let (res, c) := getSettings v callback c
    if stopsAt policy callback res then c.mapHttp .close else onRead policy v rest c

end DockerPlugin

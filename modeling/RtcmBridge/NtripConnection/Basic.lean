import RtcmBridge.Asio
import RtcmBridge.Automaton
import RtcmBridge.Configuration
import RtcmBridge.Ntrip2Nats.Session
import RtcmBridge.Response
import RtcmBridge.Rfc4648

/-!
# The connection of `ntrip2nats` to a caster

`ntripConnection` resolves, connects, requests a mountpoint and reads, each
step started by the completion handler of the one before; after a failure, or a
rejected response, `reconnect` schedules the next `connect`. The bytes after the
header block of an accepted response go to the consumption handler, which
`StreamSession::start` sets to its `handle_stream` before it starts the connection.

`ntripConnection.automaton` runs the handlers on the completions of the pending
operations, in any order. What each connection received and what it forwarded
is recorded in `transfers`.
-/

namespace RtcmBridge

open Asio

/-- What an established connection received, and the pieces of it passed to the
    consumption handler. -/
structure Transfer where
  received : Bytes := []
  forwarded : List Bytes := []

/-- The state of an `ntripConnection`. -/
structure NtripConnection where
  io : Io := {}
  request : Bytes := []
  responseBuffer : Bytes := []
  responseHeadersComplete : Bool := false
  delay : Int32
  /-- The session whose `handle_stream` is the consumption handler. -/
  session : Ntrip2Nats.StreamSession := {}
  /-- The connections established so far, the newest first. -/
  transfers : List Transfer := []

/-- `base64` over `EVP_EncodeBlock`, whose result is `none` if it writes nothing. -/
def base64 (evpEncodeBlock : Bytes → Option Bytes) (s : Bytes) : Bytes :=
  if s = [] then [] else (evpEncodeBlock s).getD []

/-- What `EVP_EncodeBlock` writes for a string that is not empty: its standard encoding. -/
def encodeBlock (s : Bytes) : Option Bytes := some (Rfc4648.encode s)

namespace NtripConnection

variable (options : Options) (source : NtripSource) (evpEncodeBlock : Bytes → Option Bytes)
  (c : NtripConnection)

/-! ### Records of the transfers -/

/-- A connection is established. -/
def establish : NtripConnection := { c with transfers := {} :: c.transfers }

/-- The newest connection delivers `data`. -/
def receive (data : Bytes) : NtripConnection :=
  { c with transfers := c.transfers.modifyHead fun t => { t with received := t.received ++ data } }

/-- The call of `consumption_handler_` with `data`. -/
def consume (data : Bytes) : NtripConnection :=
  { c with
    session := c.session.handleStream options.throughputLogEveryBytes data
    transfers := c.transfers.modifyHead fun t => { t with forwarded := t.forwarded ++ [data] } }

/-! ### The handlers -/

/-- `connect`, up to the start of the resolver. -/
def connect : NtripConnection :=
  { c with responseHeadersComplete := false, responseBuffer := [], io := c.io.asyncResolve }

/-- `reconnect`: what is pending is cancelled, the socket closed, and a timer started. -/
def reconnect : NtripConnection :=
  { c with
    responseHeadersComplete := false
    responseBuffer := []
    io := c.io.resolverCancel.timerCancel.socketCancel.socketClose.newTimerAsyncWait
    delay := min (c.delay * 2) options.reconnectMaxSec }

/-- `read`, up to the start of the read. -/
def read : NtripConnection := { c with io := c.io.asyncReadSome }

/-- `send_request`, which has nothing to send if the credentials cannot be encoded. -/
def sendRequest : NtripConnection :=
  let credentials := source.user ++ ascii ":" ++ source.pass
  let encodedCredentials := base64 evpEncodeBlock credentials
  if credentials ≠ [] ∧ encodedCredentials = [] then c.reconnect options
  else
    { c with
      request :=
        ascii "GET /" ++ source.name ++ ascii " HTTP/1.1\r\n" ++
        ascii "User-Agent: NTRIP-CppBridge\r\n" ++
        ascii "Authorization: Basic " ++ encodedCredentials ++ ascii "\r\n" ++
        ascii "Connection: keep-alive\r\n\r\n"
      io := c.io.asyncWrite }

/-- `handle_stream_bytes`. -/
def handleStreamBytes (data : Bytes) : NtripConnection :=
  if data.length = 0 then c
  else if c.responseHeadersComplete then c.consume options data
  else
    let c := { c with responseBuffer := c.responseBuffer ++ data }
    match find headersEndMark c.responseBuffer with
    | none => c
    | some headersEnd =>
      let headers := c.responseBuffer.take (headersEnd + 4)
      if !responseOk headers then c.reconnect options
      else
        let c := { c with responseHeadersComplete := true }
        let payloadOffset := headersEnd + 4
        let c := if payloadOffset < c.responseBuffer.length then
          c.consume options (c.responseBuffer.drop payloadOffset) else c
        { c with responseBuffer := [] }

/-- The handler of the operation of a kind, completing with `ec`. -/
def handler (kind : Kind) (ec : Ec) (data : Bytes) : NtripConnection :=
  if ec = .operationAborted then c
  else match kind with
  | .resolve => if ec = .ok then { c with io := c.io.asyncConnect } else c.reconnect options
  | .connect =>
    if ec = .ok then c.establish.sendRequest options source evpEncodeBlock else c.reconnect options
  | .write => if ec = .ok then c.read else c.reconnect options
  | .read =>
    if ec = .ok then ((c.receive data).handleStreamBytes options data).read else c.reconnect options
  | .wait => c.connect

/-- The connection from its `start` on, under all completions of its operations. -/
def automaton : Automaton NtripConnection Completion where
  init := connect { delay := options.reconnectMinSec }
  step c e := (c.io.complete e.i e.ec).map fun (op, io) =>
    handler options source evpEncodeBlock { c with io } op.kind e.ec e.data

end NtripConnection

end RtcmBridge

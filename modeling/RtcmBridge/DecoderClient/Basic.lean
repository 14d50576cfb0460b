import RtcmBridge.Asio
import RtcmBridge.Automaton
import RtcmBridge.Base64
import RtcmBridge.Framer.Basic
import RtcmBridge.Response

/-!
# The client of `rtcm_decoder_ntrip`

`NtripDecoderClient` resolves, connects, requests a mountpoint and reads, and
feeds the framer with what follows the header block. Its handlers do not tell
`operation_aborted` from other errors, and the handler of the timer does not
look at its error code at all.

`NtripDecoderClient.automaton` runs the handlers on the completions of the
pending operations, in any order. The signal handler clears `g_running` at any
moment, also between two loads in one handler: what counts is how many loads
come before it.
-/

namespace RtcmBridge

open Asio

/-- The arguments of the client. -/
structure NtripDecoderTarget where
  host : Bytes := []
  port : Int32 := 0
  mountpoint : Bytes := []
  user : Bytes := []
  pass : Bytes := []

/-- The state of an `NtripDecoderClient`. -/
structure NtripDecoderClient where
  io : Io := {}
  /-- The loads of `g_running` before a signal clears it, `none` if none does. -/
  loads : Option ℕ := none
  request : Bytes := []
  responseHeader : Bytes := []
  headerDone : Bool := false
  delayS : Int32 := 1
  framer : RtcmStreamFramer := {}
  /-- The error codes of the waits that `connect` was entered again from. -/
  reentries : List Ec := []

namespace NtripDecoderClient

variable (target : NtripDecoderTarget) (c : NtripDecoderClient)

/-- `g_running.load()`. -/
def load : Bool × NtripDecoderClient :=
  match c.loads with
  | none => (true, c)
  | some 0 => (false, c)
  | some (n + 1) => (true, { c with loads := some n })

/-- A load of `g_running` changes nothing else. -/
theorem load_snd (c : NtripDecoderClient) : ∃ loads, c.load.2 = { c with loads } := by
  rw [load]
  split <;> exact ⟨_, rfl⟩

/-- With more loads to come before a signal, `g_running` is set. -/
theorem load_of_lt {c : NtripDecoderClient} {k : ℕ} (h : ∀ n, c.loads = some n → k + 1 ≤ n) :
    ∃ loads, (∀ n, loads = some n → k ≤ n) ∧ c.load = (true, { c with loads }) := by
  rcases hn : c.loads with _ | _ | n
  · refine ⟨none, fun n hn => absurd hn (by simp), ?_⟩
    simp only [load, hn]
    rw [← hn]
  · exact absurd (h 0 hn) (by omega)
  · refine ⟨some n, fun m hm => ?_, by rw [load, hn]⟩
    have := h (n + 1) hn
    rw [← Option.some.inj hm]
    omega

/-- `connect`, up to the start of the resolver. -/
def connect : NtripDecoderClient :=
  let (running, c) := c.load
  if !running then c else { c with io := c.io.asyncResolve }

/-- `reconnect`: the socket is closed, and a timer started if the client is still to run. -/
def reconnect : NtripDecoderClient :=
  let c := { c with io := c.io.socketClose }
  let (running, c) := c.load
  if !running then c
  else { c with delayS := min (c.delayS * 2) 30, io := c.io.newTimerAsyncWait }

/-- `send_request`. -/
def sendRequest : NtripDecoderClient :=
  let auth := target.user ++ ascii ":" ++ target.pass
  let encoded := base64Encode auth
  { c with
    request :=
      ascii "GET /" ++ target.mountpoint ++ ascii " HTTP/1.1\r\n" ++
      ascii "Host: " ++ target.host ++ ascii ":" ++ ascii (toString target.port) ++ ascii "\r\n" ++
      ascii "User-Agent: NTRIP-Direct-Decoder/1.0\r\n" ++
      ascii "Ntrip-Version: Ntrip/2.0\r\n" ++
      ascii "Authorization: Basic " ++ encoded ++ ascii "\r\n" ++
      ascii "Connection: keep-alive\r\n\r\n"
    io := c.io.asyncWrite }

/-- `read_loop`, up to the start of the read. -/
def readLoop : NtripDecoderClient :=
  let (running, c) := c.load
  if !running then c else { c with io := c.io.asyncReadSome }

/-- `connect` starts to resolve, unless the decoder has been stopped. -/
theorem connect_eq : c.connect =
    if c.load.1 then { c.load.2 with io := c.load.2.io.asyncResolve } else c.load.2 := by
  rw [connect]
  rcases c.load with ⟨_ | _, c'⟩ <;> rfl

/-- `reconnect` closes the socket, and waits unless the decoder has been stopped. -/
theorem reconnect_eq : c.reconnect =
    if (load { c with io := c.io.socketClose }).1 then
      let c := (load { c with io := c.io.socketClose }).2
      { c with delayS := min (c.delayS * 2) 30, io := c.io.newTimerAsyncWait }
    else (load { c with io := c.io.socketClose }).2 := by
  rw [reconnect]
  rcases load { c with io := c.io.socketClose } with ⟨_ | _, c'⟩ <;> rfl

/-- `read_loop` starts a read, unless the decoder has been stopped. -/
theorem readLoop_eq : c.readLoop =
    if c.load.1 then { c.load.2 with io := c.load.2.io.asyncReadSome } else c.load.2 := by
  rw [readLoop]
  rcases c.load with ⟨_ | _, c'⟩ <;> rfl

/-- `on_bytes`. -/
def onBytes (data : Bytes) : NtripDecoderClient :=
  if !c.headerDone then
    let c := { c with responseHeader := c.responseHeader ++ data }
    match find headersEndMark c.responseHeader with
    | none => c
    | some pos =>
      let header := c.responseHeader.take (pos + 4)
      if !isOkResponse header then c.reconnect
      else
        let bodyStart := pos + 4
        let c := { c with headerDone := true }
        let c := if bodyStart < c.responseHeader.length then
          { c with framer := c.framer.push (c.responseHeader.drop bodyStart) } else c
        { c with responseHeader := [] }
  else { c with framer := c.framer.push data }

/-- The handler of the operation of a kind, completing with `ec`. -/
def handler (kind : Kind) (ec : Ec) (data : Bytes) : NtripDecoderClient :=
  match kind with
  | .resolve => if ec ≠ .ok then c.reconnect else { c with io := c.io.asyncConnect }
  | .connect =>
    if ec ≠ .ok then c.reconnect
    else { c with delayS := 1, responseHeader := [], headerDone := false }.sendRequest target
  | .write => if ec ≠ .ok then c.reconnect else c.readLoop
  | .read =>
    if ec ≠ .ok then
      let (running, c) := c.load
      if running then c.reconnect else c
    else (c.onBytes data).readLoop
  | .wait => connect { c with reentries := c.reentries ++ [ec] }

/-- The client from its `start` on, under all completions of its operations. -/
def automaton (loads : Option ℕ) : Automaton NtripDecoderClient Completion where
  init := connect { loads }
  step c e := (c.io.complete e.i e.ec).map fun (op, io) =>
    handler target { c with io } op.kind e.ec e.data

end NtripDecoderClient

end RtcmBridge

import RtcmBridge.Chunk
import RtcmBridge.NtripConnection.Basic

/-!
# The connection of `nats2ntrip` to a caster

As a source an `ntripConnection` calls Boost.Asio synchronously: a call blocks until it is
done, or throws. What the caster does meanwhile is a parameter of each call (`Peer`), and
what has been written to each TCP connection, and read from it, is recorded (`Wire`).

`ntripConnectionSource` succeeds if and only if the caster lets it connect, takes the whole
request, and accepts it, however its response is cut into pieces
(`ntripConnectionSource_ok_iff`).
-/

namespace RtcmBridge

/-- `ntripStatus`. -/
inductive NtripStatus
  | ok
  | err
  deriving DecidableEq

/-- A TCP connection: what has been written to it, and read from it. -/
structure Wire where
  written : Bytes := []
  read : Bytes := []

/-- What the other side does during a call. -/
structure Peer where
  /-- It can be connected to. -/
  connects : Bool := true
  /-- The number of bytes it takes before it fails. -/
  takes : ℕ := 0
  /-- What it sends before it fails. -/
  sends : List Bytes := []
  deriving DecidableEq

/-- What the calls throw. -/
inductive Exception
  /-- The `boost::system::system_error` of a call of Boost.Asio. -/
  | systemError
  | runtimeError (what : Bytes)

/-- The members of an `ntripConnection` that is a source. -/
structure SourceConnection where
  request : Bytes := []
  responseBuffer : Bytes := []
  responseHeadersComplete : Bool := false
  /-- The TCP connection of the socket, if it is open. -/
  socket : Option Wire := none
  /-- The earlier TCP connections, the newest first. -/
  closed : List Wire := []

/-- The caster has sent a header block, and accepts in it. -/
def AcceptedResponse (s : Bytes) : Prop :=
  ∃ k, find headersEndMark s = some k ∧ responseOk (s.take (k + 4)) = true

/-- More bytes do not make an accepted response a rejected one. -/
theorem AcceptedResponse.append {s : Bytes} (h : AcceptedResponse s) (t : Bytes) :
    AcceptedResponse (s ++ t) := by
  obtain ⟨k, hk, hok⟩ := h
  refine ⟨k, find_append hk t, ?_⟩
  rwa [List.take_append_of_le_length (find_mark_le hk)]

namespace SourceConnection

/-- A call that may throw, and has changed the connection then. -/
abbrev Call := EStateM Exception SourceConnection

variable (source : NtripSource) (evpEncodeBlock : Bytes → Option Bytes) (peer : Peer)
  (c : SourceConnection)

/-! ### Boost.Asio -/

/-- The TCP connections so far, the newest first. -/
def wires : List Wire := c.socket.toList ++ c.closed

/-- The socket is closed. -/
def close : SourceConnection := { c with socket := none, closed := c.wires }

/-- `boost::asio::write`. -/
def write (data : Bytes) : Call Unit := fun c =>
  match c.socket with
  | none => .error .systemError c
  | some wire =>
    let wire := { wire with written := wire.written ++ data.take peer.takes }
    let c := { c with socket := some wire }
    if peer.takes < data.length then .error .systemError c else .ok () c

/-- `boost::asio::read_until`, when `pieces` are still to come. -/
def readUntil (delim : Bytes) : List Bytes → Call Unit
  | [], c => if (find delim c.responseBuffer).isSome then .ok () c else .error .systemError c
  | piece :: pieces, c =>
    if (find delim c.responseBuffer).isSome then .ok () c
    else match c.socket with
      | none => .error .systemError c
      | some wire => readUntil delim pieces { c with
          socket := some { wire with read := wire.read ++ piece }
          responseBuffer := c.responseBuffer ++ piece }

/-! ### The calls -/

/-- `connect_source`. -/
def connectSource : Call Unit := do
  modify close
  if !peer.connects then throw .systemError
  modify fun c => { c with socket := some {} }

/-- The request of `send_source_request`. -/
def sourceRequest : Bytes :=
  ascii "POST /" ++ source.name ++ ascii " HTTP/1.1\r\n" ++
  ascii "Host: " ++ source.host ++ ascii ":" ++ ascii (toString source.port) ++ ascii "\r\n" ++
  ascii "User-Agent: NTRIP-CppBridge\r\n" ++
  ascii "Ntrip-Version: Ntrip/2.0\r\n" ++
  ascii "Authorization: Basic " ++
    base64 evpEncodeBlock (source.user ++ ascii ":" ++ source.pass) ++ ascii "\r\n" ++
  ascii "Transfer-Encoding: chunked\r\n" ++
  ascii "Connection: keep-alive\r\n\r\n"

/-- `send_source_request`. -/
def sendSourceRequest : Call Unit := do
  let credentials := source.user ++ ascii ":" ++ source.pass
  let encodedCredentials := base64 evpEncodeBlock credentials
  if credentials ≠ [] ∧ encodedCredentials = [] then
    throw (.runtimeError (ascii "Failed to encode NTRIP credentials"))
  modify fun c => { c with request := sourceRequest source evpEncodeBlock }
  write peer (← get).request

/-- `read_source_response`. -/
def readSourceResponse : Call Unit := do
  modify fun c => { c with responseHeadersComplete := false, responseBuffer := [] }
  readUntil headersEndMark peer.sends
  match find headersEndMark (← get).responseBuffer with
  | none => throw (.runtimeError (ascii "Invalid NTRIP source response"))
  | some headersEnd =>
    let headers := (← get).responseBuffer.take (headersEnd + 4)
    if !responseOk headers then
      throw (.runtimeError (ascii "NTRIP source rejected upload"))
    modify fun c => { c with responseHeadersComplete := true, responseBuffer := [] }

/-- `write_source`. A null pointer is `none`. -/
def writeSource (data : Option Bytes) : Call NtripStatus := do
  match data with
  | none => return .err
  | some data =>
    if data.length = 0 then return .err
    write peer (encodeChunk data)
    return .ok

/-- The status of a call whose exceptions are caught. -/
def caught (call : Call NtripStatus) (c : SourceConnection) : NtripStatus × SourceConnection :=
  match call c with
  | .ok status c => (status, c)
  | .error _ c => (.err, c)

/-- `ntripConnection_Source`. -/
def ntripConnectionSource : NtripStatus × SourceConnection :=
  c.caught do
    connectSource peer
    sendSourceRequest source evpEncodeBlock peer
    readSourceResponse peer
    return .ok

/-- `ntripConnection_Write`. -/
def ntripConnectionWrite (data : Option Bytes) : NtripStatus × SourceConnection :=
  c.caught (writeSource peer data)

/-! ### How the calls end -/

/-- The socket is on a TCP connection with `written` and `read`, after those in `closed`. -/
structure On (written read : Bytes) (closed : List Wire) (c : SourceConnection) : Prop where
  socket : c.socket = some ⟨written, read⟩
  closed : c.closed = closed

section Calls

variable {α β : Type} {x : Call α} {f : α → Call β} {a : α} {e : Exception}
  {c c' : SourceConnection} {written read buffer : Bytes} {closed : List Wire}

/-- A call that returns hands the connection on. -/
theorem bind_ok (h : x c = .ok a c') : (x >>= f) c = f a c' := by
  simp only [bind, EStateM.bind, h]

/-- One that throws ends the whole. -/
theorem bind_error (h : x c = .error e c') : (x >>= f) c = .error e c' := by
  simp only [bind, EStateM.bind, h]

/-- Without an exception, the status is that of the call. -/
theorem caught_ok {call : Call NtripStatus} {status : NtripStatus} (h : call c = .ok status c') :
    c.caught call = (status, c') := by
  rw [caught, h]

/-- With one, it is an error. -/
theorem caught_error {call : Call NtripStatus} (h : call c = .error e c') :
    c.caught call = (.err, c') := by
  rw [caught, h]

theorem bind_get {f : SourceConnection → Call β} : (get >>= f) c = f c c := rfl

theorem bind_modify {f : Unit → Call β} (g : SourceConnection → SourceConnection) :
    (modify g >>= f) c = f () (g c) := rfl

/-- A write ends with all of the data written, or throws when there is a part of them. -/
theorem write_cases (h : c.On written read closed) (data : Bytes) : ∃ c',
    c'.On (written ++ data.take peer.takes) read closed ∧
      write peer data c =
        if peer.takes < data.length then .error .systemError c' else .ok () c' := by
  refine ⟨{ c with socket := some ⟨written ++ data.take peer.takes, read⟩ }, ⟨rfl, h.closed⟩, ?_⟩
  rw [write, h.socket]

/-- The response is read up to the end of a header block, or as far as it goes without one. -/
theorem readUntil_cases (h : c.On written read closed) (delim : Bytes) (pieces : List Bytes) :
    (∃ r k c', r <+: pieces.flatten ∧ c'.On written (read ++ r) closed ∧
      c'.responseBuffer = c.responseBuffer ++ r ∧ find delim c'.responseBuffer = some k ∧
      readUntil delim pieces c = .ok () c') ∨
    ∃ c', find delim (c.responseBuffer ++ pieces.flatten) = none ∧
      c'.On written (read ++ pieces.flatten) closed ∧
      readUntil delim pieces c = .error .systemError c' := by
  induction pieces generalizing c read with
  | nil =>
    cases hfind : find delim c.responseBuffer with
    | none => exact .inr ⟨c, by simpa using hfind, by simpa using h, by simp [readUntil, hfind]⟩
    | some k =>
      exact .inl ⟨[], k, c, List.nil_prefix, by simpa using h, by simp, hfind,
        by simp [readUntil, hfind]⟩
  | cons piece pieces ih =>
    cases hfind : find delim c.responseBuffer with
    | some k =>
      exact .inl ⟨[], k, c, List.nil_prefix, by simpa using h, by simp, hfind,
        by simp [readUntil, hfind]⟩
    | none =>
      -- Without the delimiter, the next piece is read.
      have hstep : readUntil delim (piece :: pieces) c = readUntil delim pieces { c with
          socket := some ⟨written, read ++ piece⟩
          responseBuffer := c.responseBuffer ++ piece } := by
        simp [readUntil, hfind, h.socket]
      rw [hstep, List.flatten_cons, ← List.append_assoc, ← List.append_assoc]
      have hon : On written (read ++ piece) closed { c with
          socket := some ⟨written, read ++ piece⟩
          responseBuffer := c.responseBuffer ++ piece } := ⟨rfl, h.closed⟩
      rcases ih hon with ⟨r, k, c', hr, hon, hbuffer, hk, heq⟩ | hthrow
      · refine .inl ⟨piece ++ r, k, c', (List.prefix_append_right_inj piece).2 hr, ?_, ?_, hk, heq⟩
        · rwa [← List.append_assoc]
        · rw [hbuffer, List.append_assoc]
      · exact .inr hthrow

/-- `connect_source` closes the socket, and opens it anew. -/
theorem connectSource_cases (c : SourceConnection) :
    (peer.connects = true ∧ ∃ c', c'.On [] [] c.wires ∧ connectSource peer c = .ok () c') ∨
    (peer.connects = false ∧ ∃ e c', c'.wires = c.wires ∧ connectSource peer c = .error e c') := by
  cases hconnects : peer.connects with
  | true =>
    refine .inl ⟨rfl, { c.close with socket := some {} }, ⟨rfl, rfl⟩, ?_⟩
    rw [connectSource, bind_modify, hconnects]
    rfl
  | false =>
    refine .inr ⟨rfl, .systemError, c.close, rfl, ?_⟩
    rw [connectSource, bind_modify, hconnects]
    rfl

/-- The request is written, or the beginning of it. -/
theorem sendSourceRequest_cases (h : c.On [] [] closed) :
    (base64 evpEncodeBlock (source.user ++ ascii ":" ++ source.pass) ≠ [] ∧
      (sourceRequest source evpEncodeBlock).length ≤ peer.takes ∧
      ∃ c', c'.On (sourceRequest source evpEncodeBlock) [] closed ∧
        sendSourceRequest source evpEncodeBlock peer c = .ok () c') ∨
    (¬(base64 evpEncodeBlock (source.user ++ ascii ":" ++ source.pass) ≠ [] ∧
      (sourceRequest source evpEncodeBlock).length ≤ peer.takes) ∧
      ∃ e c' sent, sent <+: sourceRequest source evpEncodeBlock ∧ c'.On sent [] closed ∧
        sendSourceRequest source evpEncodeBlock peer c = .error e c') := by
  have hcredentials : source.user ++ ascii ":" ++ source.pass ≠ [] := by simp [ascii]
  rw [sendSourceRequest]
  by_cases hempty : base64 evpEncodeBlock (source.user ++ ascii ":" ++ source.pass) = []
  · -- Credentials that are not encoded are an error before anything is sent.
    refine .inr ⟨fun hno => hno.1 hempty,
      .runtimeError (ascii "Failed to encode NTRIP credentials"), c, [], List.nil_prefix, h, ?_⟩
    dsimp only
    rw [if_pos ⟨hcredentials, hempty⟩]
    rfl
  · dsimp only
    rw [if_neg fun hno => hempty hno.2, bind_modify, bind_get]
    obtain ⟨c', hon, heq⟩ := write_cases peer (c := { c with
      request := sourceRequest source evpEncodeBlock }) ⟨h.socket, h.closed⟩
      (sourceRequest source evpEncodeBlock)
    rw [List.nil_append] at hon
    dsimp only
    rw [heq]
    split_ifs with htakes
    · exact .inr ⟨fun hno => by omega, .systemError, c', _, List.take_prefix .., hon, rfl⟩
    · have hle := Nat.le_of_not_lt htakes
      rw [List.take_of_length_le hle] at hon
      exact .inl ⟨hempty, hle, c', hon, rfl⟩

/-- The response is accepted or not, whatever pieces it comes in. -/
theorem readSourceResponse_cases (h : c.On written [] closed) :
    (AcceptedResponse peer.sends.flatten ∧ ∃ r c', AcceptedResponse r ∧ c'.On written r closed ∧
      readSourceResponse peer c = .ok () c') ∨
    (¬AcceptedResponse peer.sends.flatten ∧ ∃ e c' r, c'.On written r closed ∧
      readSourceResponse peer c = .error e c') := by
  rw [readSourceResponse, bind_modify]
  rcases readUntil_cases (c := { c with responseHeadersComplete := false, responseBuffer := [] })
    ⟨h.socket, h.closed⟩ headersEndMark peer.sends with
    ⟨r, k, c', ⟨rest, hrest⟩, hon, hbuffer, hk, heq⟩ | ⟨c', hnone, hon, heq⟩
  · rw [bind_ok heq, bind_get]
    dsimp only
    rw [hk]
    dsimp only
    rw [bind_get]
    rw [List.nil_append] at hon
    have hr : c'.responseBuffer = r := hbuffer
    rw [hr] at hk ⊢
    cases hok : responseOk (r.take (k + 4)) with
    | true =>
      -- What has been read decides, as the block ends in it.
      have hacc : AcceptedResponse r := ⟨k, hk, hok⟩
      exact .inl ⟨hrest ▸ hacc.append rest, r,
        { c' with responseHeadersComplete := true, responseBuffer := [] }, hacc,
        ⟨hon.socket, hon.closed⟩, rfl⟩
    | false =>
      refine .inr ⟨?_, .runtimeError (ascii "NTRIP source rejected upload"), c', r, hon, rfl⟩
      rintro ⟨k', hk', hok'⟩
      rw [← hrest, find_append hk] at hk'
      cases hk'
      rw [← hrest, List.take_append_of_le_length (find_mark_le hk), hok] at hok'
      cases hok'
  · -- The stream ends before the header block does.
    refine .inr ⟨?_, .systemError, c', _, hon, bind_error heq⟩
    rintro ⟨k, hk, -⟩
    rw [List.nil_append] at hnone
    rw [hnone] at hk
    cases hk

/-! ### Opening the source -/

/-- The caster lets the source connect, takes its request and accepts it. -/
structure Opens (source : NtripSource) (evpEncodeBlock : Bytes → Option Bytes) (peer : Peer) :
    Prop where
  connects : peer.connects = true
  encoded : base64 evpEncodeBlock (source.user ++ ascii ":" ++ source.pass) ≠ []
  takes : (sourceRequest source evpEncodeBlock).length ≤ peer.takes
  accepts : AcceptedResponse peer.sends.flatten

/-- A source is open with its request written and accepted. Otherwise there is at most the
    beginning of the request on a new TCP connection. -/
theorem ntripConnectionSource_cases (c : SourceConnection) :
    (Opens source evpEncodeBlock peer ∧ ∃ r c', AcceptedResponse r ∧
      c'.On (sourceRequest source evpEncodeBlock) r c.wires ∧
      c.ntripConnectionSource source evpEncodeBlock peer = (.ok, c')) ∨
    (¬Opens source evpEncodeBlock peer ∧ ∃ c',
      (c'.wires = c.wires ∨ ∃ sent r, sent <+: sourceRequest source evpEncodeBlock ∧
        c'.On sent r c.wires) ∧
      c.ntripConnectionSource source evpEncodeBlock peer = (.err, c')) := by
  rw [ntripConnectionSource]
  rcases connectSource_cases peer c with ⟨hconnects, c₁, hon₁, h₁⟩ | ⟨hno, e, c₁, hwires, h₁⟩
  swap
  · refine .inr ⟨fun hopens => ?_, c₁, .inl hwires, caught_error (bind_error h₁)⟩
    rw [hopens.connects] at hno
    cases hno
  rcases sendSourceRequest_cases source evpEncodeBlock peer hon₁ with
    ⟨hencoded, htakes, c₂, hon₂, h₂⟩ | ⟨hno, e, c₂, sent, hsent, hon₂, h₂⟩
  swap
  · exact .inr ⟨fun hopens => hno ⟨hopens.encoded, hopens.takes⟩, c₂,
      .inr ⟨sent, [], hsent, hon₂⟩, caught_error ((bind_ok h₁).trans (bind_error h₂))⟩
  rcases readSourceResponse_cases peer hon₂ with
    ⟨haccepts, r, c₃, hr, hon₃, h₃⟩ | ⟨hno, e, c₃, r, hon₃, h₃⟩
  · exact .inl ⟨⟨hconnects, hencoded, htakes, haccepts⟩, r, c₃, hr, hon₃,
      caught_ok ((bind_ok h₁).trans ((bind_ok h₂).trans (bind_ok h₃)))⟩
  · exact .inr ⟨fun hopens => hno hopens.accepts, c₃, .inr ⟨_, r, List.prefix_rfl, hon₃⟩,
      caught_error ((bind_ok h₁).trans ((bind_ok h₂).trans (bind_error h₃)))⟩

/-- A message is written as a chunk, or the beginning of it is. -/
theorem ntripConnectionWrite_cases (h : c.On written read closed) {data : Bytes}
    (hne : data ≠ []) : ∃ c',
    c'.On (written ++ (encodeChunk data).take peer.takes) read closed ∧
      c.ntripConnectionWrite peer (some data) =
        (if peer.takes < (encodeChunk data).length then .err else .ok, c') := by
  have hlen : data.length ≠ 0 := mt List.length_eq_zero_iff.1 hne
  obtain ⟨c', hon, heq⟩ := write_cases peer h (encodeChunk data)
  refine ⟨c', hon, ?_⟩
  rw [ntripConnectionWrite, show writeSource peer (some data) =
    (do write peer (encodeChunk data); return .ok) from if_neg hlen]
  split_ifs at heq ⊢ with htakes
  · exact caught_error (bind_error heq)
  · exact caught_ok (bind_ok heq)

end Calls

end SourceConnection

end RtcmBridge

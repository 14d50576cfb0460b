import RtcmBridge.Bytes

/-!
# The sessions of `ntrip2nats`

A `StreamSession` is the consumption handler of one connection: what it is given
it publishes on its subject, and counts. Its calls of `natsConnection_Publish`
are recorded in `published`; their status only decides what is logged.
-/

namespace RtcmBridge.Ntrip2Nats

/-- A call of `natsConnection_Publish`: the data, and the length as an `int`. -/
structure Publish where
  data : Bytes
  dataLen : Int32
  deriving DecidableEq

/-- The state of a `StreamSession`. -/
structure StreamSession where
  total : UInt64 := 0
  lastLog : UInt64 := 0
  published : List Publish := []

namespace StreamSession

/-- `StreamSession::handle_stream`. The `int` it compares with is converted to
    `uint64_t` first. -/
def handleStream (throughputLogEveryBytes : Int32) (s : StreamSession) (data : Bytes) :
    StreamSession :=
  let s := { s with total := s.total + UInt64.ofNat data.length }
  let s := if s.total - s.lastLog ≥ throughputLogEveryBytes.toInt64.toUInt64 then
    { s with lastLog := s.total } else s
  { s with published := s.published ++ [⟨data, Int32.ofNat data.length⟩] }

variable (every : Int32) (s : StreamSession)

/-- The call that publishes `data`. -/
def publish (data : Bytes) : Publish := ⟨data, Int32.ofNat data.length⟩

theorem published_handleStream (data : Bytes) :
    (s.handleStream every data).published = s.published ++ [publish data] := by
  rw [handleStream]
  split_ifs <;> rfl

/-- Each piece is published, by a call of its own. -/
theorem published_foldl (pieces : List Bytes) :
    (pieces.foldl (handleStream every) s).published = s.published ++ pieces.map publish := by
  induction pieces generalizing s with
  | nil => exact (List.append_nil _).symm
  | cons piece pieces ih =>
    rw [List.foldl_cons, ih, published_handleStream, List.append_assoc, List.map_cons,
      List.singleton_append]

end StreamSession

end RtcmBridge.Ntrip2Nats

import RtcmBridge.Framer.Stream
import RtcmBridge.Ntrip2Nats.Session

/-!
# The decoder of a subject

`rtcm_decoder_nats` pushes the messages of its subscription into a framer. NATS
carries a message from a successful `natsConnection_Publish` to the subscriber.
-/

namespace RtcmBridge

open Ntrip2Nats RtcmStreamFramer

/-- A message of a subscription. -/
structure NatsMsg where
  data : Bytes

/-- `natsMsg_GetDataLength`. -/
def NatsMsg.dataLength (msg : NatsMsg) : Int32 := Int32.ofNat msg.data.length

/-- The message of a successful `natsConnection_Publish`. -/
def Ntrip2Nats.Publish.msg (p : Publish) : NatsMsg := ⟨p.data.take p.dataLen.toInt.toNat⟩

/-- `on_nats_msg`, on the framer of its context. -/
def onNatsMsg (framer : RtcmStreamFramer) (msg : NatsMsg) : RtcmStreamFramer :=
  framer.pushNats msg.data msg.dataLength.toInt

theorem toInt_ofNat_length {data : Bytes} (h : data.length < 2 ^ 31) :
    (Int32.ofNat data.length).toInt = data.length := by
  rw [Int32.toInt_ofNat_of_lt (by exact_mod_cast h)]

/-- Up to the lengths of an `int`, all that is published arrives. -/
theorem msg_publish {data : Bytes} (h : data.length < 2 ^ 31) :
    (StreamSession.publish data).msg = ⟨data⟩ := by
  rw [Publish.msg, StreamSession.publish, toInt_ofNat_length h, Int.toNat_natCast, List.take_length]

/-- A message published by the other program is pushed with its own length. -/
theorem onNatsMsg_framed (s : Bytes) {data : Bytes} (h : data.length < 2 ^ 31) :
    onNatsMsg (framed s) (StreamSession.publish data).msg = framed (s ++ data) := by
  rw [msg_publish h, onNatsMsg, NatsMsg.dataLength, toInt_ofNat_length h, pushNats_framed]

/-- The framer of a subscriber has received what the pieces are of. -/
theorem foldl_onNatsMsg (pieces : List Bytes) (h : ∀ piece ∈ pieces, piece.length < 2 ^ 31)
    (s : Bytes) :
    ((pieces.map StreamSession.publish).map Publish.msg).foldl onNatsMsg (framed s) =
      framed (s ++ pieces.flatten) := by
  induction pieces generalizing s with
  | nil => rw [List.flatten_nil, List.append_nil]; rfl
  | cons piece pieces ih =>
    rw [List.map_cons, List.map_cons, List.foldl_cons,
      onNatsMsg_framed s (h piece (List.mem_cons_self ..)),
      ih (fun p hp => h p (List.mem_cons_of_mem _ hp)), List.flatten_cons, List.append_assoc]

end RtcmBridge

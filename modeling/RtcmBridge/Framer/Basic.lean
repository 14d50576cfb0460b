import RtcmBridge.Bytes

/-!
# The RTCM framer

`RtcmStreamFramer` reassembles RTCM 3 frames from the bytes of a stream: it
looks for the preamble `0xD3`, reads the length, checks the CRC-24Q and hands
the payload to the decoder. The two decoders hold the same class, up to the
type of the length of a piece (`push`, of `rtcm_decoder_ntrip`, and `pushNats`,
of `rtcm_decoder_nats`).
-/

namespace RtcmBridge

/-! ## CRC-24Q -/

namespace crc24q

/-- The generator polynomial. -/
def poly : UInt32 := 0x1864CFB

/-- One turn of the inner loop: one bit. -/
def bit (crc : UInt32) : UInt32 :=
  let crc := crc <<< 1
  if crc &&& 0x1000000 ≠ 0 then crc ^^^ poly else crc

/-- One turn of the outer loop: one byte. -/
def byte (crc : UInt32) (b : UInt8) : UInt32 :=
  bit^[8] (crc ^^^ (b.toUInt32 <<< 16))

end crc24q

/-- The CRC-24Q of a byte string. -/
def crc24q (data : Bytes) : UInt32 := data.foldl crc24q.byte 0 &&& 0xFFFFFF

/-! ## The framer -/

/-- The state of a framer. The payloads handed to `decoder.decode` are recorded
    in `decoded`, in order. -/
structure RtcmStreamFramer where
  buf : Bytes := []
  framesOk : UInt64 := 0
  framesBadCrc : UInt64 := 0
  decoded : List Bytes := []

/-! ### A candidate frame at `p` -/

/-- The length announced after the preamble. -/
def payloadLen (p : Bytes) : ℕ := ((byteAt p 1).toNat &&& 0x03) <<< 8 ||| (byteAt p 2).toNat

/-- The length of a frame: the header, the payload, and the checksum. -/
def frameLen (p : Bytes) : ℕ := 3 + payloadLen p + 3

/-- The CRC the frame carries, big-endian. -/
def gotCrc (p : Bytes) : UInt32 :=
  (byteAt p (3 + payloadLen p)).toUInt32 <<< 16 |||
    (byteAt p (3 + payloadLen p + 1)).toUInt32 <<< 8 |||
    (byteAt p (3 + payloadLen p + 2)).toUInt32

/-- The CRC of the header and the payload. -/
def calcCrc (p : Bytes) : UInt32 := crc24q (p.take (3 + payloadLen p))

/-- What is between the header and the checksum. -/
def payload (p : Bytes) : Bytes := (p.drop 3).take (payloadLen p)

namespace RtcmStreamFramer

/-- The loop skipping to the next preamble. -/
def skipToPreamble (buf : Bytes) (i : ℕ) : ℕ :=
  if i < buf.length ∧ byteAt buf i ≠ 0xD3 then skipToPreamble buf (i + 1) else i
termination_by buf.length - i

theorem le_skipToPreamble (buf : Bytes) (i : ℕ) : i ≤ skipToPreamble buf i := by
  fun_induction skipToPreamble buf i with
  | case1 i _ ih => omega
  | case2 => exact le_rfl

/-- The loop of `push` over the buffer, from the index `i`: it returns the index
    it breaks at. -/
def scan (f : RtcmStreamFramer) (i : ℕ) : RtcmStreamFramer × ℕ :=
  let j := skipToPreamble f.buf i
  if j + 3 > f.buf.length then (f, j)
  else
    let p := f.buf.drop j
    if j + frameLen p > f.buf.length then (f, j)
    else if gotCrc p = calcCrc p then
      scan { f with framesOk := f.framesOk + 1, decoded := f.decoded ++ [payload p] }
        (j + frameLen p)
    else
      scan { f with framesBadCrc := f.framesBadCrc + 1 } (j + 1)
termination_by f.buf.length - i
decreasing_by
  · have := le_skipToPreamble f.buf i
    simp only [frameLen]
    omega
  · have := le_skipToPreamble f.buf i
    omega

/-- The size from which on the buffer is trimmed. -/
def maxBuffer : ℕ := 1024 * 1024

/-- The part of `push` after the new bytes are in the buffer. -/
def drain (f : RtcmStreamFramer) : RtcmStreamFramer :=
  let (f, i) := f.scan 0
  let f := if i > 0 then { f with buf := f.buf.drop i } else f
  if f.buf.length > maxBuffer then { f with buf := f.buf.drop (f.buf.length - maxBuffer) } else f

/-- `push` of `rtcm_decoder_ntrip`. -/
def push (f : RtcmStreamFramer) (data : Bytes) : RtcmStreamFramer :=
  if data.length = 0 then f else drain { f with buf := f.buf ++ data }

/-- `push` of `rtcm_decoder_nats`: the length is an `int`. -/
def pushNats (f : RtcmStreamFramer) (data : Bytes) (len : ℤ) : RtcmStreamFramer :=
  if len ≤ 0 then f else drain { f with buf := f.buf ++ data.take len.toNat }

end RtcmStreamFramer

end RtcmBridge

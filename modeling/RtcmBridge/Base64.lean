import RtcmBridge.Bytes

/-!
# The Base64 encoder of `rtcm_decoder_ntrip`

`base64_encode` shifts the bytes into an `int` and takes six bits at a time off
it. The accumulator is an `Int32`, with its wrap-around; the count of bits stays
between -6 and 8, and is an integer.
-/

namespace RtcmBridge

/-- The table of `base64_encode`. -/
def b64 : Bytes := ascii "ABCDEFGHIJKLMNOPQRSTUVWXYZabcdefghijklmnopqrstuvwxyz0123456789+/"

namespace base64Encode

/-- The character of the six low bits. -/
def digit (val : Int32) : UInt8 := byteAt b64 (val &&& 0x3F).toInt.toNat

/-- The inner loop: it takes six bits at a time while there are as many. -/
def emit (val : Int32) (valb : ℤ) (out : Bytes) : ℤ × Bytes :=
  if valb ≥ 0 then emit val (valb - 6) (out ++ [digit (val >>> .ofInt valb)]) else (valb, out)
termination_by (valb + 6).toNat

/-- The outer loop. -/
def loop : Bytes → Int32 → ℤ → Bytes → Int32 × ℤ × Bytes
  | [], val, valb, out => (val, valb, out)
  | c :: cs, val, valb, out =>
    let val := (val <<< 8) + Int32.ofNat c.toNat
    let (valb, out) := emit val (valb + 8) out
    loop cs val valb out

/-- The loop of the padding. -/
def pad (out : Bytes) : Bytes :=
  if out.length % 4 ≠ 0 then pad (out ++ ascii "=") else out
termination_by (4 - out.length % 4) % 4
decreasing_by
  rw [List.length_append, show (ascii "=").length = 1 from rfl]
  omega

end base64Encode

open base64Encode in
/-- `base64_encode`. -/
def base64Encode (s : Bytes) : Bytes :=
  let (val, valb, out) := loop s 0 (-6) []
  let out := if valb > -6 then out ++ [digit ((val <<< 8) >>> .ofInt (valb + 8))] else out
  pad out

end RtcmBridge

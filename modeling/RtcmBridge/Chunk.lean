import RtcmBridge.Digits
import RtcmBridge.Response

/-!
# The chunked coding

`encode_chunk` puts each write of an upload in a chunk: its size in hexadecimal
digits on a line of its own, the bytes, and the end of the line.
-/

namespace RtcmBridge

/-- `encode_chunk`. What `std::hex` writes is `printed 16`. -/
def encodeChunk (data : Bytes) : Bytes := printed 16 data.length ++ crlf ++ data ++ crlf

/-- The hexadecimal digits that `std::hex` writes. -/
def hexAlphabet : Bytes := ascii "0123456789abcdef"

/-- A size has no other characters than these digits. -/
theorem mem_hexAlphabet {n : ℕ} {b : UInt8} (h : b ∈ printed 16 n) : b ∈ hexAlphabet := by
  obtain ⟨d, hd, rfl⟩ := mem_printed (by decide) h
  interval_cases d <;> decide

end RtcmBridge

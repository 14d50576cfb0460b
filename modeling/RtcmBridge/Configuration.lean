import RtcmBridge.Bytes

/-!
# Options and sources

The records of `configuration` that the connections read. An `int` is an
`Int32`, with its wrap-around; where the program relies on no overflow, the
theorems say so.
-/

namespace RtcmBridge

/-- `configuration::Options`, with its defaults. -/
structure Options where
  readBufferBytes : Int32 := 4096
  reconnectMinSec : Int32 := 2
  reconnectMaxSec : Int32 := 32
  throughputLogEveryBytes : Int32 := 100 * 1024

/-- `configuration::NtripSource`. -/
structure NtripSource where
  user : Bytes := []
  pass : Bytes := []
  host : Bytes := []
  name : Bytes := []
  port : Int32 := 0

end RtcmBridge

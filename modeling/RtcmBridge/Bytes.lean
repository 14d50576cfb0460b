import Mathlib.Tactic

/-!
# Bytes

The programs handle `std::string`s and buffers of `char` as sequences of
bytes; so do the definitions here.
-/

namespace RtcmBridge

/-- A byte string. -/
abbrev Bytes := List UInt8

/-- The bytes of an ASCII literal. -/
def ascii (s : String) : Bytes := s.toList.map fun c => UInt8.ofNat c.toNat

/-- The byte at `p[k]` (only read within the bounds of `p`). -/
def byteAt (p : Bytes) (k : ℕ) : UInt8 := p.getD k 0

theorem byteAt_append {p m : Bytes} {k : ℕ} (h : k < p.length) :
    byteAt (p ++ m) k = byteAt p k := by
  simp [byteAt, List.getElem?_append_left h]

theorem byteAt_append_right (p m : Bytes) (k : ℕ) :
    byteAt (p ++ m) (p.length + k) = byteAt m k := by
  simp [byteAt, List.getElem?_append_right]

theorem byteAt_drop (s : Bytes) (j k : ℕ) : byteAt (s.drop j) k = byteAt s (j + k) := by
  simp [byteAt, List.getElem?_drop]

end RtcmBridge

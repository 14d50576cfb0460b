import RtcmBridge.Reading
import Mathlib.Tactic

/-!
# Fields

The bits of a field that holds a number of fixed width (`fieldBits`), and what is
read of them: `getU` and `getS` give the number back (`Reads.bind_fieldU`,
`Reads.bind_fieldS`).
-/

namespace RtcmBridge

open BitReader

/-- The bits of a field. -/
def fieldBits {w : ℕ} (v : BitVec w) : List Bool := natBits w v.toNat

@[simp]
theorem length_fieldBits {w : ℕ} (v : BitVec w) : (fieldBits v).length = w := length_natBits ..

theorem natOf_fieldBits {w : ℕ} (v : BitVec w) : natOf (fieldBits v) = v.toNat := by
  rw [fieldBits, natOf_natBits, Nat.mod_eq_of_lt v.isLt]

/-- An unsigned field is read as its value exactly if its bits are in place. -/
theorem unsigned_eq_iff {w : ℕ} {l : List Bool} (v : BitVec w) (hl : l.length = w) (hw : w ≤ 64) :
    unsigned l = .ofNat v.toNat ↔ l = fieldBits v := by
  rw [← natOf_fieldBits v]
  refine ⟨fun h => natOf_inj (by rw [hl, length_fieldBits]) ?_, fun h => by rw [h, unsigned]⟩
  have h' := congrArg UInt64.toNat h
  have hbits := BitReader.toNat_unsigned (l := fieldBits v) (by rwa [length_fieldBits])
  rw [unsigned] at hbits
  rwa [BitReader.toNat_unsigned (by rwa [hl]), hbits] at h'

/-- So is a signed one. -/
theorem signed_eq_iff {w : ℕ} {l : List Bool} (v : BitVec w) (hl : l.length = w) :
    signed l = v.toInt ↔ l = fieldBits v := by
  subst hl
  rw [signed, BitVec.toInt_inj]
  constructor
  · intro h
    refine natOf_inj (length_fieldBits v).symm ?_
    rw [natOf_fieldBits, ← h, BitVec.toNat_ofNat, Nat.mod_eq_of_lt (natOf_lt l)]
  · intro h
    have hnat := congrArg natOf h
    rw [natOf_fieldBits] at hnat
    exact BitVec.eq_of_toNat_eq (by rw [BitVec.toNat_ofNat, Nat.mod_eq_of_lt (natOf_lt l), hnat])

/-! ### Reading -/

theorem toNat_unsigned_fieldBits {w : ℕ} (v : BitVec w) (hw : w ≤ 64) :
    (unsigned (fieldBits v)).toNat = v.toNat := by
  rw [toNat_unsigned (by rwa [length_fieldBits]), natOf_fieldBits]

theorem signed_fieldBits {w : ℕ} (v : BitVec w) : signed (fieldBits v) = v.toInt :=
  (signed_eq_iff v (length_fieldBits v)).2 rfl

namespace Reads

variable {β : Type} {w : ℕ} {m : List Bool} {b : β} {text : String}

/-- A field, and then what comes behind it. -/
theorem bind_fieldU {f : UInt64 → Reading β} (v : BitVec w) (hw : w ≤ 64)
    (hf : ∀ u : UInt64, u.toNat = v.toNat → Reads (f u) m b) :
    Reads (RtcmBridge.need text (getU w) >>= f) (fieldBits v ++ m) b :=
  (need text (reads_getU (length_fieldBits v) hw)).bind (hf _ (toNat_unsigned_fieldBits v hw))

theorem bind_fieldS {f : ℤ → Reading β} (v : BitVec w) (hw : w < 64)
    (hf : Reads (f v.toInt) m b) :
    Reads (RtcmBridge.need text (getS w) >>= f) (fieldBits v ++ m) b := by
  rw [← signed_fieldBits v] at hf
  exact (need text (reads_getS (length_fieldBits v) hw)).bind hf

end Reads

end RtcmBridge

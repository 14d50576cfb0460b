import RtcmBridge.Msm.Safety
import Mathlib.Tactic

/-!
# The length of a MSM message

The masks of a message say how many bits it takes (`neededBits`). If there are as
many, `decode_msm` reads just these (`reads_of_needed`), and otherwise it reports
an error (`error_of_needed`): with the missing bits filled in, it would read on
behind the end.

The bits of a message are those of the whole payload, with the type.
-/

namespace RtcmBridge

open BitReader

theorem slice_add {α : Type*} (l : List α) (p v w : ℕ) :
    slice l p (v + w) = slice l p v ++ slice l (p + v) w := by
  rw [slice, slice, slice, List.take_add, List.drop_drop]

namespace Msm

/-- The types of the messages that `decode_msm` decodes. -/
def Supported (type : ℕ) : Prop := (1071 ≤ type ∧ type ≤ 1127) ∧ 4 ≤ type % 10 ∧ type % 10 ≤ 7

instance (type : ℕ) : Decidable (Supported type) := inferInstanceAs (Decidable (_ ∧ _))

/-- The bits of a satellite. -/
def satBits (type : ℕ) : ℕ := if type % 10 = 4 ∨ type % 10 = 6 then 18 else 36

/-- The bits of a cell. -/
def cellBits (type : ℕ) : ℕ :=
  match type % 10 with
  | 4 => 48
  | 5 => 63
  | 6 => 65
  | _ => 80

section Blocks

variable (type : ℕ) (bits : List Bool)

/-- The satellite mask of a message. -/
def satMaskOf : List Bool := slice bits 73 64

/-- The signal mask of a message. -/
def sigMaskOf : List Bool := slice bits 137 32

/-- The number of its satellites. -/
def nsatOf : ℕ := (satMaskOf bits).count true

/-- The number of its signals. -/
def nsigOf : ℕ := (sigMaskOf bits).count true

/-- The cell mask of a message, with a bit for each satellite and signal. -/
def cellMaskOf : List Bool := slice bits 169 (nsatOf bits * nsigOf bits)

/-- The number of its cells. -/
def ncellsOf : ℕ := (cellMaskOf bits).count true

/-- The length of the message, as its masks say it. -/
def neededBits : ℕ :=
  169 + nsatOf bits * nsigOf bits + satBits type * nsatOf bits + cellBits type * ncellsOf bits

/-- What is reported of the message. -/
def reportOf : Report :=
  .ofBlocks (.ofType type) (slice bits 12 157) (cellMaskOf bits)
    (slice bits (169 + nsatOf bits * nsigOf bits) (satBits type * nsatOf bits))
    (slice bits (169 + nsatOf bits * nsigOf bits + satBits type * nsatOf bits)
      (cellBits type * ncellsOf bits))

end Blocks

variable {type : ℕ} {bits : List Bool}

/-- The fields of a satellite take the bits that are counted for it. -/
theorem sum_satWidths (h : Supported type) : (Level.ofType type).satWidths.sum = satBits type := by
  obtain ⟨_, h₄, h₇⟩ := h
  rw [satBits]
  interval_cases hmod : type % 10 <;>
    simp [Level.satWidths, Level.rateBits, Level.ofType, hmod]

/-- So do those of a cell. -/
theorem sum_cellWidths (h : Supported type) :
    (Level.ofType type).cellWidths.sum = cellBits type := by
  obtain ⟨_, h₄, h₇⟩ := h
  rw [cellBits]
  interval_cases hmod : type % 10 <;>
    simp [Level.cellWidths, Level.rateBits, Level.prBits, Level.cpBits, Level.lockBits,
      Level.cnrBits, Level.ofType, hmod]

/-! ### The masks -/

/-- The number of satellites is that of the ones in the mask. -/
theorem popcount64_unsigned {m : List Bool} (h : m.length = 64) :
    popcount64 (unsigned m) = m.count true := by
  have hbits := natBits_natOf m
  rw [h] at hbits
  rw [popcount64, toNat_unsigned h.le, hbits]

/-- The number of signals is that of the ones in their mask. -/
theorem popcount32_unsigned {m : List Bool} (h : m.length = 32) :
    popcount32 (unsigned m).toUInt32 = m.count true := by
  have hbits := natBits_natOf m
  have hlt := natOf_lt m
  rw [h] at hbits hlt
  rw [popcount32, UInt64.toNat_toUInt32, toNat_unsigned (by omega), Nat.mod_eq_of_lt hlt, hbits]

theorem length_satMaskOf (h : 169 ≤ bits.length) : (satMaskOf bits).length = 64 :=
  length_slice (by omega)

theorem length_sigMaskOf (h : 169 ≤ bits.length) : (sigMaskOf bits).length = 32 :=
  length_slice (by omega)

/-- The masks that are read in the header. -/
theorem satMask_ofBits (bits : List Bool) :
    (Header.ofBits (slice bits 12 157)).satMask = unsigned (satMaskOf bits) :=
  congrArg unsigned (slice_slice bits (by decide))

theorem sigMask_ofBits (bits : List Bool) :
    (Header.ofBits (slice bits 12 157)).sigMask = unsigned (sigMaskOf bits) :=
  congrArg unsigned (slice_slice bits (by decide))

/-- The satellites of the header are those of the mask. -/
theorem nsat_ofBits (h : 169 ≤ bits.length) :
    (Header.ofBits (slice bits 12 157)).nsat = nsatOf bits := by
  rw [Header.nsat, satMask_ofBits, popcount64_unsigned (length_satMaskOf h), nsatOf]

/-- The signals as well. -/
theorem nsig_ofBits (h : 169 ≤ bits.length) :
    (Header.ofBits (slice bits 12 157)).nsig = nsigOf bits := by
  rw [Header.nsig, sigMask_ofBits, popcount32_unsigned (length_sigMaskOf h), nsigOf]

/-! ### Long enough -/

/-- A message that is long enough is decoded, from the bits that it needs. -/
theorem reads_of_needed (h : Supported type) (hlen : neededBits type bits ≤ bits.length) :
    Reads (decodeMsm type) (slice bits 12 (neededBits type bits - 12))
      (some (reportOf type bits)) := by
  rw [neededBits] at hlen ⊢
  set k := nsatOf bits * nsigOf bits with hk
  have hhead : (slice bits 12 157).length = headerWidths.sum := length_slice (by omega)
  have hmask : (cellMaskOf bits).length = k := length_slice (by omega)
  have hsats : (slice bits (169 + k) (satBits type * nsatOf bits)).length =
      satBits type * nsatOf bits := length_slice (by omega)
  have hcells : (slice bits (169 + k + satBits type * nsatOf bits)
      (cellBits type * ncellsOf bits)).length = cellBits type * ncellsOf bits :=
    length_slice (by omega)
  have hsplit : 169 + k + satBits type * nsatOf bits + cellBits type * ncellsOf bits - 12 =
      157 + (k + (satBits type * nsatOf bits + cellBits type * ncellsOf bits)) := by omega
  rw [hsplit, slice_add, slice_add, slice_add]
  refine reads_decodeMsm h.1 h.2 hhead ?_ ?_ ?_
  · rw [nsat_ofBits (by omega), nsig_ofBits (by omega)]
    exact hmask
  · rw [nsat_ofBits (by omega), sum_satWidths h]
    exact hsats.trans (Nat.mul_comm ..)
  · rw [sum_cellWidths h]
    exact hcells.trans (Nat.mul_comm ..)

/-! ### Too short -/

theorem neededBits_le (type : ℕ) (bits : List Bool) : neededBits type bits ≤ 2 ^ 18 := by
  have hsat : nsatOf bits ≤ 64 := List.count_le_length.trans (List.length_take_le ..)
  have hsig : nsigOf bits ≤ 32 := List.count_le_length.trans (List.length_take_le ..)
  have hcells : ncellsOf bits ≤ nsatOf bits * nsigOf bits :=
    List.count_le_length.trans (List.length_take_le ..)
  have hprod : nsatOf bits * nsigOf bits ≤ 64 * 32 := Nat.mul_le_mul hsat hsig
  have hsatBits : satBits type ≤ 36 := by rw [satBits]; split_ifs <;> decide
  have hcellBits : cellBits type ≤ 80 := by rw [cellBits]; split <;> decide
  have hsats : satBits type * nsatOf bits ≤ 36 * 64 := Nat.mul_le_mul hsatBits hsat
  have hcell : cellBits type * ncellsOf bits ≤ 80 * (64 * 32) :=
    Nat.mul_le_mul hcellBits (hcells.trans hprod)
  rw [neededBits]
  omega

/-- A message that is too short is too short for what it says, whatever is appended. -/
theorem lt_neededBits_append (hlen : bits.length < 169 ∨ bits.length < neededBits type bits)
    (more : List Bool) : bits.length < neededBits type (bits ++ more) := by
  by_cases h₁ : 169 ≤ bits.length
  · have hsat : nsatOf (bits ++ more) = nsatOf bits :=
      congrArg (List.count true) (slice_append_left (by omega))
    have hsig : nsigOf (bits ++ more) = nsigOf bits :=
      congrArg (List.count true) (slice_append_left (by omega))
    have hneed : bits.length < neededBits type bits := by omega
    rw [neededBits] at hneed ⊢
    rw [hsat, hsig]
    by_cases h₂ : 169 + nsatOf bits * nsigOf bits ≤ bits.length
    · have hcells : ncellsOf (bits ++ more) = ncellsOf bits := by
        rw [ncellsOf, cellMaskOf, hsat, hsig, slice_append_left h₂, ncellsOf, cellMaskOf]
      rwa [hcells]
    · omega
  · rw [neededBits]
    omega

/-- One that is not ends in an error, from whatever point the bits are missing. -/
theorem error_of_needed {payload : Bytes} (h : Supported type) (h₂ : 2 ≤ payload.length)
    (hlen : 8 * payload.length < 169 ∨
      8 * payload.length < neededBits type (bitsOf payload)) :
    ∃ text, ∀ br : BitReader, br.At ((bitsOf payload).drop 12) →
      decodeMsm type br = .error (.report text) := by
  -- Enough bytes of zeros behind the payload.
  set fill := List.replicate (2 ^ 15) (0 : UInt8) with hfill
  have hfillLen : fill.length = 2 ^ 15 := List.length_replicate ..
  set full := bitsOf payload ++ bitsOf fill with hfull
  have hbits : (bitsOf payload).length = 8 * payload.length := length_bitsOf _
  have hfullLen : full.length = 8 * payload.length + 8 * 2 ^ 15 := by
    rw [hfull, List.length_append, hbits, length_bitsOf, hfillLen]
  have hmax := neededBits_le type full
  have hshort : 8 * payload.length < neededBits type full := by
    rw [← hbits] at hlen ⊢
    exact lt_neededBits_append hlen _
  have hneed : neededBits type full ≤ full.length := by omega
  have hnew : (BitReader.new (payload ++ fill)).At (bitsOf (payload ++ fill)) :=
    at_new (by rw [List.length_append, hfillLen]; omega)
  obtain ⟨br, _, hat⟩ := getU_of_le (n := 12) hnew (by decide)
    (by rw [length_bitsOf, List.length_append]; omega)
  rw [bitsOf_append, List.drop_append_of_le_length (by omega)] at hat
  have hslice : (bitsOf payload).drop 12 ++ bitsOf fill =
      slice full 12 (neededBits type full - 12) ++
        (full.drop 12).drop (neededBits type full - 12) := by
    rw [slice, List.take_append_drop, hfull, List.drop_append_of_le_length (by omega)]
  refine (settles_decodeMsm type).error_of_short hat (reads_of_needed h hneed) hslice ?_
  rw [length_slice (by omega), List.length_drop, hbits]
  omega

end Msm

end RtcmBridge

import RtcmBridge.Msm.Basic
import Mathlib.Tactic

/-!
# The masks of a MSM message

The satellites and the signals of a message are the ones of two masks, its
cells the pairs of them (`flat_product`), and the cells that are present
(`presentCells`) the ones of a third mask.
-/

namespace RtcmBridge

theorem natBits_eq_map (w v : ℕ) :
    natBits w v = (List.range w).map fun i => v.testBit (w - 1 - i) := by
  refine List.ext_getElem? fun i => ?_
  by_cases hi : i < w
  · rw [getElem?_natBits hi, List.getElem?_map, List.getElem?_range hi, Option.map_some]
  · rw [List.getElem?_eq_none (by rw [length_natBits]; omega),
      List.getElem?_eq_none (by rw [List.length_map, List.length_range]; omega)]

/-- The number of ones among the bits that a test looks at. -/
theorem count_natBits {w v : ℕ} {p : ℕ → Bool} (h : ∀ i < w, p i = v.testBit (w - 1 - i)) :
    ((List.range w).filter p).length = (natBits w v).count true := by
  rw [natBits_eq_map, List.count_eq_countP, List.countP_map, List.countP_eq_length_filter]
  refine congrArg List.length (List.filter_congr fun i hi => ?_)
  rw [h i (List.mem_range.1 hi), Function.comp_apply, beq_true]

namespace Msm

/-- The test of the bit `k` of a mask. -/
theorem decide_bit {v : UInt64} {k : ℕ} (hk : k < 64) :
    decide ((v >>> .ofNat k) &&& 1 ≠ 0) = v.toNat.testBit k := by
  have hval : ((v >>> .ofNat k) &&& 1).toNat = (v.toNat.testBit k).toNat := by
    have hshift : (UInt64.ofNat k).toNat % 64 = k := by
      rw [UInt64.toNat_ofNat', Nat.mod_eq_of_lt (a := k) (by omega), Nat.mod_eq_of_lt hk]
    rw [UInt64.toNat_and, UInt64.toNat_shiftRight, hshift, Nat.toNat_testBit,
      Nat.shiftRight_eq_div_pow]
    exact Nat.and_one_is_mod _
  have hzero : (0 : UInt64).toNat = 0 := rfl
  have hiff : (v >>> .ofNat k) &&& 1 ≠ 0 ↔ v.toNat.testBit k = true := by
    rw [Ne, ← UInt64.toNat_inj, hval, hzero, Bool.toNat_eq_zero, Bool.not_eq_false]
  rw [decide_eq_decide.2 hiff, Bool.decide_coe]

/-- There are as many satellites as ones in the mask. -/
theorem length_satIds (v : UInt64) : (satIds v).length = popcount64 v := by
  rw [satIds, List.length_map]
  exact count_natBits fun i hi => decide_bit (by omega)

/-- There are as many signals as ones in theirs. -/
theorem length_sigIds (v : UInt64) : (sigIds v).length = popcount32 v.toUInt32 := by
  rw [sigIds, List.length_map]
  refine count_natBits fun i hi => ?_
  rw [decide_bit (by omega), UInt64.toNat_toUInt32, Nat.testBit_mod_two_pow,
    decide_eq_true (by omega), Bool.true_and]

/-! ### The cells -/

/-- The cells in the order of the mask. -/
theorem flat_product (m n : ℕ) :
    (List.range m ×ˢ List.range n).map (fun c => c.1 * n + c.2) = List.range (m * n) := by
  induction m with
  | zero => rw [Nat.zero_mul]; rfl
  | succ m ih =>
    have hsucc : List.range (m + 1) ×ˢ List.range n =
        List.range m ×ˢ List.range n ++ (List.range n).map (Prod.mk m) := by
      rw [List.range_succ]
      exact List.flatMap_append.trans (congrArg _ (List.flatMap_singleton ..))
    rw [hsucc, List.map_append, ih, List.map_map, Nat.succ_mul, List.range_add]
    rfl

/-- The bit of a cell in the mask of the cells. -/
def isPresent (nsig : ℕ) (mask : List Bool) (c : ℕ × ℕ) : Bool :=
  mask.getD (c.1 * nsig + c.2) false

/-- The cells that are present. -/
def presentCells (nsat nsig : ℕ) (mask : List Bool) : List (ℕ × ℕ) :=
  (List.range nsat ×ˢ List.range nsig).filter (isPresent nsig mask)

/-- There are as many cells as ones in the cell mask. -/
theorem length_presentCells {nsat nsig : ℕ} {mask : List Bool} (h : mask.length = nsat * nsig) :
    (presentCells nsat nsig mask).length = mask.count true := by
  have hmask : (List.range (nsat * nsig)).map (fun k => mask.getD k false) = mask := by
    refine List.ext_getElem (by rw [List.length_map, List.length_range, h]) fun k _ hk => ?_
    rw [List.getElem_map, List.getElem_range, List.getD_eq_getElem?_getD,
      List.getElem?_eq_getElem hk, Option.getD_some]
  calc (presentCells nsat nsig mask).length
      = ((List.range nsat ×ˢ List.range nsig).map fun c => c.1 * nsig + c.2).countP
          fun k => mask.getD k false := by
        rw [List.countP_map, List.countP_eq_length_filter]
        rfl
    _ = mask.count true := by
        conv_rhs => rw [← hmask]
        rw [flat_product, List.count_eq_countP, List.countP_map]
        simp [Function.comp_def]

end Msm

end RtcmBridge

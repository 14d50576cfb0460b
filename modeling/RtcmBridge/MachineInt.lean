import Mathlib.Tactic

/-!
# Machine integers

What the arithmetic of `int`, `size_t` and `uint64_t` computes where it does not
wrap around, beyond what the library has; and what becomes of an `int` that is
doubled time and again up to a bound.
-/

namespace RtcmBridge

/-- `x` is a value of an `int`. -/
def IsInt (x : ℤ) : Prop := -2 ^ 31 ≤ x ∧ x < 2 ^ 31

theorem toInt_min (a b : Int32) : (min a b).toInt = min a.toInt b.toInt := by
  change (if a ≤ b then a else b).toInt = _
  simp only [Int32.le_iff_toInt_le, min_def]
  split_ifs <;> rfl

theorem toInt_max (a b : Int32) : (max a b).toInt = max a.toInt b.toInt := by
  change (if a ≤ b then b else a).toInt = _
  simp only [Int32.le_iff_toInt_le, max_def]
  split_ifs <;> rfl

/-- An `int` that is not negative, converted to `uint64_t`. -/
theorem toNat_toUInt64 {a : Int32} (h : 0 ≤ a.toInt) :
    a.toInt64.toUInt64.toNat = a.toInt.toNat := by
  have h' : 0 ≤ a.toInt64 := Int64.le_iff_toInt_le.2 (by rw [Int32.toInt_toInt64]; exact h)
  rw [Int64.toNat_toUInt64_of_le h', Int64.toNatClampNeg, Int32.toInt_toInt64]

/-- A product within the range is the exact one. -/
theorem toInt_mul {a b : Int32} (h₁ : -2 ^ 31 ≤ a.toInt * b.toInt)
    (h₂ : a.toInt * b.toInt < 2 ^ 31) :
    (a * b).toInt = a.toInt * b.toInt := by
  rw [Int32.toInt_mul, Int.bmod_eq_of_le (by omega) (by omega)]

/-- So is a sum. -/
theorem toInt_add {a b : Int32} (h₁ : -2 ^ 31 ≤ a.toInt + b.toInt)
    (h₂ : a.toInt + b.toInt < 2 ^ 31) :
    (a + b).toInt = a.toInt + b.toInt := by
  rw [Int32.toInt_add, Int.bmod_eq_of_le (by omega) (by omega)]

/-- A shift to the left wraps around. -/
theorem toInt_shiftLeft_eight (a : Int32) : (a <<< 8).toInt = (a.toInt * 2 ^ 8).bmod (2 ^ 32) := by
  have hshift : (Int32.toBitVec 8).smod 32 = 8 := by decide
  have h8 : (8 : BitVec 32).toNat = 8 := rfl
  rw [← Int32.toInt_toBitVec, Int32.toBitVec_shiftLeft, hshift, BitVec.shiftLeft_eq',
    BitVec.toInt_shiftLeft, ← Int32.toInt_toBitVec, h8, Nat.shiftLeft_eq,
    BitVec.toInt_eq_toNat_bmod, Int.bmod_mul_bmod]
  rfl

/-- A shift to the right is a division, rounded down. -/
theorem toInt_shiftRight (a : Int32) {k : ℕ} (hk : k < 32) :
    (a >>> .ofInt k).toInt = a.toInt / 2 ^ k := by
  have hshift : ((Int32.ofInt k).toBitVec.smod 32).toNat = k := by interval_cases k <;> rfl
  rw [← Int32.toInt_toBitVec, Int32.toBitVec_shiftRight, BitVec.toInt_sshiftRight',
    Int.shiftRight_eq_div_pow, hshift, Int32.toInt_toBitVec]
  push_cast
  rfl

/-- The low six bits are the remainder modulo 64. -/
theorem toInt_and_sixtyThree (a : Int32) : (a &&& 0x3F).toInt = a.toInt % 64 := by
  have hmask : (Int32.toBitVec 63).toNat = 2 ^ 6 - 1 := rfl
  have hmod : (a.toBitVec.toNat : ℤ).bmod (2 ^ 32) % 64 = a.toBitVec.toNat % 64 := by
    rw [Int.bmod_def]
    split_ifs <;> omega
  rw [← Int32.toInt_toBitVec, Int32.toBitVec_and, BitVec.toInt_and, hmask,
    Nat.and_two_pow_sub_one_eq_mod, Int.bmod_eq_of_le (by omega) (by omega),
    ← Int32.toInt_toBitVec, BitVec.toInt_eq_toNat_bmod, hmod]
  rfl

theorem toNat_add {a b : UInt64} (h : a.toNat + b.toNat < 2 ^ 64) :
    (a + b).toNat = a.toNat + b.toNat := by
  rw [UInt64.toNat_add, Nat.mod_eq_of_lt h]

/-- A difference that is not negative is the exact one. -/
theorem toNat_sub {a b : UInt64} (h : b.toNat ≤ a.toNat) : (a - b).toNat = a.toNat - b.toNat :=
  UInt64.toNat_sub_of_le a b (UInt64.le_iff_toNat_le.2 h)

theorem ofInt_natCast (n : ℕ) : UInt64.ofInt n = .ofNat n := by
  have hmod : ((n : ℤ) % 2 ^ 64).toNat = n % 2 ^ 64 := by omega
  rw [UInt64.ofInt, hmod]
  exact UInt64.toNat_inj.1 (by rw [UInt64.toNat_ofNat', UInt64.toNat_ofNat', Nat.mod_mod])

/-- An `int` between `a` and `b` that is doubled, up to `b`. -/
theorem toInt_double_bounds {a : ℤ} {x b : Int32} (ha : 0 ≤ a) (hsmall : b.toInt < 2 ^ 30)
    (hx : a ≤ x.toInt ∧ x.toInt ≤ b.toInt) :
    a ≤ (min (x * 2) b).toInt ∧ (min (x * 2) b).toInt ≤ b.toInt := by
  have h2 : (2 : Int32).toInt = 2 := rfl
  rw [toInt_min, toInt_mul (by rw [h2]; omega) (by rw [h2]; omega), h2]
  omega

/-! ### Doubling up to a bound -/

/-- `a`, doubled `k` times, and at most `b`. -/
def doubled (a b : ℤ) (k : ℕ) : ℤ := min b (a * 2 ^ k)

section Doubled

variable {a b : ℤ} {j k : ℕ}

theorem doubled_zero (h : a ≤ b) : doubled a b 0 = a := by
  rw [doubled, pow_zero, mul_one, min_eq_right h]

/-- The doubled values stay between zero and the bound. -/
theorem doubled_bounds (ha : 0 ≤ a) (hb : 0 ≤ b) (k : ℕ) :
    0 ≤ doubled a b k ∧ doubled a b k ≤ b :=
  ⟨le_min hb (by positivity), min_le_left _ _⟩

/-- The bound is reached. -/
theorem doubled_eq_bound (ha : 0 < a) (hb : b < 2 ^ k) : doubled a b k = b :=
  min_eq_left (hb.le.trans (le_mul_of_one_le_left (by positivity) ha))

/-- The next value is twice the last one, within the bound. -/
theorem doubled_succ (hb : 0 ≤ b) (k : ℕ) :
    doubled a b (k + 1) = min (doubled a b k * 2) b := by
  rw [doubled, doubled, pow_succ, ← mul_assoc]
  generalize a * 2 ^ k = x
  omega

/-- Once at the bound, or from zero, the values stay. -/
theorem doubled_eq_of_le (ha : 0 ≤ a) (h : a = 0 ∨ b ≤ a * 2 ^ j) (hjk : j ≤ k) :
    doubled a b k = doubled a b j := by
  rcases h with rfl | h
  · rw [doubled, doubled, zero_mul, zero_mul]
  · have hgrow : a * 2 ^ j ≤ a * 2 ^ k :=
      mul_le_mul_of_nonneg_left (pow_le_pow_right₀ one_le_two hjk) ha
    rw [doubled, doubled, min_eq_left h, min_eq_left (h.trans hgrow)]

/-- Doubling further makes no difference only to zero and at the bound. -/
theorem doubled_eq_iff (ha : 0 ≤ a) (hjk : j < k) :
    doubled a b k = doubled a b j ↔ a = 0 ∨ b ≤ a * 2 ^ j := by
  refine ⟨fun h => ?_, fun h => doubled_eq_of_le ha h hjk.le⟩
  by_contra! hne
  have hlt : a * 2 ^ j < a * 2 ^ k :=
    mul_lt_mul_of_pos_left (pow_lt_pow_right₀ one_lt_two hjk) (ha.lt_of_ne' hne.1)
  rw [doubled, doubled, min_eq_right hne.2.le] at h
  exact (lt_min hne.2 hlt).ne' h

/-- An `int` is doubled once more. -/
theorem toInt_doubled_of_isInt {x b : Int32} (hb : 0 ≤ b.toInt) (hx : IsInt (x.toInt * 2))
    (h : x.toInt = doubled a b.toInt k) : (min (x * 2) b).toInt = doubled a b.toInt (k + 1) := by
  have h2 : (2 : Int32).toInt = 2 := rfl
  rw [toInt_min, toInt_mul (h2 ▸ hx.1) (h2 ▸ hx.2), h, h2, doubled_succ hb]

/-- The computed value is the exact one, if twice the bound does not overflow. -/
theorem toInt_doubled {x b : Int32} (ha : 0 ≤ a) (hb : 0 ≤ b.toInt) (hsmall : 2 * b.toInt < 2 ^ 31)
    (h : x.toInt = doubled a b.toInt k) :
    (min (x * 2) b).toInt = doubled a b.toInt (k + 1) := by
  obtain ⟨h₀, h₁⟩ := doubled_bounds ha hb k
  exact toInt_doubled_of_isInt hb ⟨by omega, by omega⟩ h

end Doubled

end RtcmBridge

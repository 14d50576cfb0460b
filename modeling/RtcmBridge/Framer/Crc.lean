import Mathlib.Data.Nat.Bitwise
import RtcmBridge.Framer.Basic
import RtcmBridge.Gf2

/-!
# The CRC-24Q

The register of `crc24q` is a division register of 24 bits with the generator
`crc24q.poly` (`crc24q.toNat_bit`): it stays below `2 ^ 24`, so that the 32-bit
shift loses no bit and the mask at the end changes nothing. `crc24q data` is the
remainder of the data, followed by 24 zeros, divided by the generator; so the
data followed by their checksum are a multiple of it (`crc24q_eq_iff_dvd`).
-/

namespace RtcmBridge

open Polynomial

namespace crc24q

/-- The generator, as a number. -/
abbrev generator : ℕ := poly.toNat

/-- The constant of the code is a generator of degree 24. -/
theorem generator_spec : Gf2.Generator 24 generator := ⟨by decide, by decide⟩

/-- The shift loses no bit of a register below `2 ^ 24`. -/
theorem toNat_shiftLeft_one {crc : UInt32} (h : crc.toNat < 2 ^ 24) :
    (crc <<< 1).toNat = 2 * crc.toNat := by
  rw [UInt32.toNat_shiftLeft]
  simp [Nat.shiftLeft_eq]
  omega

/-- The test of the code is that of the bit 24. -/
theorem and_carry_ne_zero_iff (crc : UInt32) :
    crc &&& 0x1000000 ≠ 0 ↔ crc.toNat.testBit 24 = true := by
  rw [Ne, ← UInt32.toNat_inj, UInt32.toNat_and]
  change ¬crc.toNat &&& 2 ^ 24 = 0 ↔ _
  rw [Nat.and_two_pow]
  cases crc.toNat.testBit 24 <;> simp

/-- A turn of the inner loop is a step of the division register. -/
theorem toNat_bit {crc : UInt32} (h : crc.toNat < 2 ^ 24) :
    (bit crc).toNat = Gf2.step 24 generator crc.toNat := by
  rw [bit, Gf2.step, ← toNat_shiftLeft_one h]
  simp only [and_carry_ne_zero_iff]
  split_ifs
  · rw [UInt32.toNat_xor]
  · rfl

/-- The inner loop is so many steps of the division. -/
theorem toNat_iterate_bit {crc : UInt32} (h : crc.toNat < 2 ^ 24) (k : ℕ) :
    (bit^[k] crc).toNat = (Gf2.step 24 generator)^[k] crc.toNat := by
  induction k with
  | zero => rfl
  | succ k ih =>
    have hlt := Gf2.iterate_step_lt generator_spec h k
    rw [Function.iterate_succ_apply', Function.iterate_succ_apply', toNat_bit (ih ▸ hlt), ih]

theorem toNat_shiftLeft_byte (b : UInt8) : (b.toUInt32 <<< 16).toNat = b.toNat * 2 ^ 16 := by
  have := b.toNat_lt
  rw [UInt32.toNat_shiftLeft]
  simp [Nat.shiftLeft_eq]
  omega

/-- A byte is added below the top of the register. -/
theorem xor_byte_lt {crc : UInt32} (h : crc.toNat < 2 ^ 24) (b : UInt8) :
    (crc ^^^ b.toUInt32 <<< 16).toNat < 2 ^ 24 := by
  have := b.toNat_lt
  rw [UInt32.toNat_xor, toNat_shiftLeft_byte]
  exact Nat.xor_lt_two_pow h (by omega)

/-- Between two bytes, the register has 24 bits. -/
theorem byte_lt {crc : UInt32} (h : crc.toNat < 2 ^ 24) (b : UInt8) :
    (byte crc b).toNat < 2 ^ 24 := by
  rw [byte, toNat_iterate_bit (xor_byte_lt h b)]
  exact Gf2.iterate_step_lt generator_spec (xor_byte_lt h b) 8

theorem foldl_byte_lt (data : Bytes) : (data.foldl byte 0).toNat < 2 ^ 24 := by
  induction data using List.reverseRecOn with
  | nil => decide
  | append_singleton data b ih =>
    rw [List.foldl_append]
    exact byte_lt ih b

/-- A byte multiplies what is in the register by `X ^ 8`, and is added in front
    of the zeros. -/
theorem residue_byte {crc : UInt32} (h : crc.toNat < 2 ^ 24) (b : UInt8) :
    Gf2.residue generator (Gf2.ofNat (byte crc b).toNat) =
      Gf2.residue generator (Gf2.ofNat crc.toNat * X ^ 8 + Gf2.ofNat b.toNat * X ^ 24) := by
  rw [byte, toNat_iterate_bit (xor_byte_lt h b), Gf2.residue_iterate_step, UInt32.toNat_xor,
    toNat_shiftLeft_byte, Gf2.ofNat_xor, Gf2.ofNat_mul_two_pow]
  simp only [map_add, map_mul, map_pow]
  ring

/-- The register holds what the data is, followed by 24 zeros. -/
theorem residue_foldl_byte (data : Bytes) :
    Gf2.residue generator (Gf2.ofNat (data.foldl byte 0).toNat) =
      Gf2.residue generator (Gf2.ofNat (natOf (bitsOf data)) * X ^ 24) := by
  induction data using List.reverseRecOn with
  | nil => simp [bitsOf]
  | append_singleton data b ih =>
    have hbits : bitsOf (data ++ [b]) = bitsOf data ++ natBits 8 b.toNat := by simp [bitsOf]
    rw [List.foldl_append, List.foldl_cons, List.foldl_nil, residue_byte (foldl_byte_lt data),
      hbits, Gf2.ofNat_natOf_append, length_natBits, natOf_natBits, Nat.mod_eq_of_lt b.toNat_lt]
    simp only [map_add, map_mul, map_pow] at ih ⊢
    rw [ih]
    ring

end crc24q

/-- The loop over the data is a fold over its bytes. -/
theorem crc24q_eq_foldl (data : Bytes) : crc24q data = data.foldl crc24q.byte 0 := by
  have hlt := crc24q.foldl_byte_lt data
  rw [crc24q, ← UInt32.toNat_inj, UInt32.toNat_and]
  change _ &&& (2 ^ 24 - 1) = _
  rw [Nat.and_two_pow_sub_one_eq_mod, Nat.mod_eq_of_lt hlt]

/-- The checksum has 24 bits. -/
theorem crc24q_lt (data : Bytes) : (crc24q data).toNat < 2 ^ 24 := by
  rw [crc24q_eq_foldl]
  exact crc24q.foldl_byte_lt data

/-- The checksum is congruent to the data, moved up by 24 bits. -/
theorem residue_crc24q (data : Bytes) :
    Gf2.residue crc24q.generator (Gf2.ofNat (crc24q data).toNat) =
      Gf2.residue crc24q.generator (Gf2.ofNat (natOf (bitsOf data)) * X ^ 24) := by
  rw [crc24q_eq_foldl, crc24q.residue_foldl_byte]

/-- The three bytes behind the data are their checksum exactly if the data and
    these bytes are a multiple of the generator. -/
theorem crc24q_eq_iff_dvd (data : Bytes) {check : Bytes} (h : check.length = 3) :
    (crc24q data).toNat = natOf (bitsOf check) ↔
      Gf2.ofNat crc24q.generator ∣ Gf2.ofNat (natOf (bitsOf (data ++ check))) := by
  have hlen : (bitsOf check).length = 24 := by rw [length_bitsOf, h]
  have hlt := natOf_lt (bitsOf check)
  rw [hlen] at hlt
  rw [bitsOf_append, Gf2.ofNat_natOf_append, hlen, ← CharTwo.sub_eq_add, ← Gf2.residue_eq_iff,
    ← residue_crc24q]
  constructor
  · exact fun heq => by rw [heq]
  · exact Gf2.eq_of_residue_eq crc24q.generator_spec (crc24q_lt data) hlt

/-! ## The checksum behind the data -/

/-- The three bytes of a checksum, big-endian. -/
def crcBytes (crc : UInt32) : Bytes := [(crc >>> 16).toUInt8, (crc >>> 8).toUInt8, crc.toUInt8]

theorem natOf_bitsOf_three (a b c : UInt8) :
    natOf (bitsOf [a, b, c]) = a.toNat * 65536 + b.toNat * 256 + c.toNat := by
  have ha := a.toNat_lt
  have hb := b.toNat_lt
  have hc := c.toNat_lt
  simp only [bitsOf, List.flatMap_cons, List.flatMap_nil, List.append_nil, natOf_append,
    List.length_append, length_natBits, natOf_natBits]
  omega

/-- The three bytes of a checksum are its 24 bits. -/
theorem natOf_bitsOf_crcBytes {crc : UInt32} (h : crc.toNat < 2 ^ 24) :
    natOf (bitsOf (crcBytes crc)) = crc.toNat := by
  rw [crcBytes, natOf_bitsOf_three]
  simp [Nat.shiftRight_eq_div_pow]
  omega

/-- The remainder is zero for the multiples of the generator. -/
theorem crc24q_eq_zero_iff (data : Bytes) :
    crc24q data = 0 ↔ Gf2.ofNat crc24q.generator ∣ Gf2.ofNat (natOf (bitsOf data)) := by
  have hres := residue_crc24q data
  constructor
  · intro h
    rw [h, UInt32.toNat_zero, Gf2.ofNat_zero, map_zero, eq_comm, Gf2.residue_eq_zero_iff] at hres
    exact Gf2.dvd_of_dvd_mul_X_pow (by decide) hres
  · intro h
    rw [Gf2.residue_eq_zero_iff.2 (h.mul_right _), ← map_zero (Gf2.residue crc24q.generator),
      ← Gf2.ofNat_zero] at hres
    exact UInt32.toNat_inj.1
      (Gf2.eq_of_residue_eq crc24q.generator_spec (crc24q_lt data) (by decide) hres)

/-- **The CRC-24Q is a remainder.** It is that of the data, followed by 24 zeros,
    divided by the polynomial with the bits `0x1864CFB`, which has the degree 24;
    the register stays below `2 ^ 24` through every byte, whatever came before, so
    that its shifts lose no bit and the mask changes nothing; and the CRC-24Q of
    the data followed by their checksum is zero. -/
theorem crc24q_eq_remainder :
    (Gf2.ofNat 0x1864CFB).Monic ∧ (Gf2.ofNat 0x1864CFB).natDegree = 24 ∧ ∀ data : Bytes,
      Gf2.ofNat (crc24q data).toNat =
        (Gf2.ofNat (natOf (bitsOf data)) * X ^ 24) %ₘ Gf2.ofNat 0x1864CFB ∧
      (∀ b : UInt8, ∀ k ≤ 8,
        let crc := crc24q.bit^[k] (data.foldl crc24q.byte 0 ^^^ b.toUInt32 <<< 16)
        crc.toNat < 2 ^ 24 ∧ (crc <<< 1).toNat = 2 * crc.toNat) ∧
      crc24q data = data.foldl crc24q.byte 0 ∧
      crc24q (data ++ crcBytes (crc24q data)) = 0 := by
  refine ⟨crc24q.generator_spec.monic, crc24q.generator_spec.natDegree, fun data =>
    ⟨?_, fun b k _ => ?_, crc24q_eq_foldl data, ?_⟩⟩
  · exact Gf2.ofNat_eq_modByMonic crc24q.generator_spec (crc24q_lt data) (residue_crc24q data)
  · have hxor := crc24q.xor_byte_lt (crc24q.foldl_byte_lt data) b
    have hlt := Gf2.iterate_step_lt crc24q.generator_spec hxor k
    rw [← crc24q.toNat_iterate_bit hxor] at hlt
    exact ⟨hlt, crc24q.toNat_shiftLeft_one hlt⟩
  · rw [crc24q_eq_zero_iff, ← crc24q_eq_iff_dvd data rfl, natOf_bitsOf_crcBytes (crc24q_lt data)]

end RtcmBridge

import RtcmBridge.Framer.RoundTrip

/-!
# Error detection

A frame whose payload and checksum are changed by a pattern of errors passes the
comparison of the checksums exactly if the pattern is a multiple of the
generator (`gotCrc_corrupted_iff`). The generator is one of the degree 24 with an
even number of ones, and the order of `X` modulo it is at least 178481, more
than a frame has bits (`crc24q.pow_ne_one`): no pattern of odd weight, of two
errors or of a burst of up to 24 bits passes.
-/

namespace RtcmBridge

open Polynomial

namespace crc24q

/-- `X` has the order `2 ^ 23 - 1 = 47 * 178481`, by squaring it 23 times. -/
theorem pow_order : Gf2.residue generator X ^ (47 * 178481) = 1 := by
  have hX : Gf2.ofNat 2 = X := by
    have := Gf2.ofNat_two_mul 1
    rwa [Nat.mul_one, Gf2.ofNat_one, mul_one] at this
  have hsquare : (fun v => Gf2.mulMod 24 generator v v)^[23] 2 = 2 := by decide +kernel
  have hpow := Gf2.residue_iterate_square generator_spec (r := 2) (by decide) 23
  rw [hsquare, hX, show 2 ^ 23 = 47 * 178481 + 1 by norm_num] at hpow
  exact Gf2.pow_eq_one_of_pow_succ_eq (by decide) hpow.symm

/-- The order of `X` is no divisor of 47. -/
theorem pow_47_ne_one : Gf2.residue generator X ^ 47 ≠ 1 := by
  intro h
  have hstep := Gf2.residue_iterate_step 24 generator 1 47
  rw [h, one_mul] at hstep
  have hlt := Gf2.iterate_step_lt generator_spec (r := 1) (by decide) 47
  exact absurd (Gf2.eq_of_residue_eq generator_spec hlt (by decide) hstep) (by decide +kernel)

/-- No power of `X` below the number of bits of a frame is one. -/
theorem pow_ne_one {d : ℕ} (hpos : 0 < d) (hlt : d < 178481) : Gf2.residue generator X ^ d ≠ 1 :=
  Gf2.pow_ne_one_of_lt (by norm_num) pow_order pow_47_ne_one hpos hlt

end crc24q

/-- The bytes `w` with the bits flipped that are set in `e`. -/
def flip (w e : Bytes) : Bytes := w.zipWith (· ^^^ ·) e

/-- The frame of a payload with errors behind its header. -/
def corrupted (p e : Bytes) : Bytes :=
  encodeHeader p ++ flip (p ++ crcBytes (crc24q (encodeHeader p ++ p))) e

/-- The patterns of odd weight, those of two errors, and the bursts of up to 24
    bits. -/
def Revealed (e : List Bool) : Prop :=
  Odd (e.count true) ∨ e.count true = 2 ∨
    ∃ a burst b, e = .replicate a false ++ burst ++ .replicate b false ∧
      burst.length ≤ 24 ∧ true ∈ burst

/-- Flipped bits do not change the length. -/
theorem length_flip {w e : Bytes} (h : e.length = w.length) : (flip w e).length = w.length := by
  rw [flip, List.length_zipWith, h, min_self]

/-- The errors are added. -/
theorem ofNat_flip {w e : Bytes} (h : e.length = w.length) :
    Gf2.ofNat (natOf (bitsOf (flip w e))) =
      Gf2.ofNat (natOf (bitsOf w)) + Gf2.ofNat (natOf (bitsOf e)) := by
  have hcons (b : UInt8) (l : Bytes) : Gf2.ofNat (natOf (bitsOf (b :: l))) =
      Gf2.ofNat b.toNat * X ^ (8 * l.length) + Gf2.ofNat (natOf (bitsOf l)) := by
    rw [← List.singleton_append, bitsOf_append, Gf2.ofNat_natOf_append, length_bitsOf]
    simp [bitsOf, natOf_natBits, Nat.mod_eq_of_lt b.toNat_lt]
  induction w generalizing e with
  | nil =>
    rw [List.eq_nil_of_length_eq_zero h]
    simp [flip, bitsOf]
  | cons b w ih =>
    rcases e with _ | ⟨c, e⟩
    · exact absurd h (by simp)
    · have hlen : e.length = w.length := Nat.succ.inj h
      rw [flip, List.zipWith_cons_cons]
      change Gf2.ofNat (natOf (bitsOf (_ :: flip w e))) = _
      rw [hcons, hcons, hcons, ih hlen, length_flip hlen, hlen, UInt8.toNat_xor, Gf2.ofNat_xor]
      ring

/-- No pattern of these is a multiple of the generator, in as many bits as a frame
    has. -/
theorem not_dvd_of_revealed {e : List Bool} (he : Revealed e) (hlen : e.length < 178481) :
    ¬Gf2.ofNat crc24q.generator ∣ Gf2.ofNat (natOf e) := by
  intro hdvd
  rcases he with hodd | htwo | ⟨a, burst, b, rfl, hburst, htrue⟩
  · refine Nat.not_even_iff_odd.2 hodd (Gf2.even_count_of_dvd (w := 25) ?_ ?_ hdvd) <;> decide
  · obtain ⟨d, hpos, hlt, hd⟩ := Gf2.pow_eq_one_of_dvd_two (by decide) htwo hdvd
    exact crc24q.pow_ne_one hpos (hlt.trans hlen) hd
  · exact Gf2.not_mem_of_dvd_burst crc24q.generator_spec (by decide) hburst hdvd htrue

section Corrupted

variable {p e : Bytes} (he : e.length = p.length + 3)

include he

/-- The errors decide whether the corrupted frame is a multiple of the generator:
    the frame is one. -/
theorem dvd_corrupted_iff : Gf2.ofNat crc24q.generator ∣
      Gf2.ofNat (natOf (bitsOf (corrupted p e))) ↔
    Gf2.ofNat crc24q.generator ∣ Gf2.ofNat (natOf (bitsOf e)) := by
  set check := crcBytes (crc24q (encodeHeader p ++ p)) with hcheck
  have hlen : e.length = (p ++ check).length := by
    rw [he, List.length_append]
    rfl
  have hframe : Gf2.ofNat crc24q.generator ∣
      Gf2.ofNat (natOf (bitsOf (encodeHeader p ++ (p ++ check)))) := by
    rw [← List.append_assoc, ← crc24q_eq_iff_dvd _ rfl, hcheck,
      natOf_bitsOf_crcBytes (crc24q_lt _)]
  rw [bitsOf_append, Gf2.ofNat_natOf_append] at hframe
  rw [corrupted, bitsOf_append, Gf2.ofNat_natOf_append, ofNat_flip hlen, length_bitsOf,
    length_flip hlen, ← length_bitsOf, ← add_assoc]
  exact dvd_add_right hframe

/-- The comparison of the checksums fails unless the errors are a multiple of the
    generator, whatever follows. -/
theorem gotCrc_corrupted_iff (hp : p.length ≤ 1023) (m : Bytes) :
    gotCrc (corrupted p e ++ m) = calcCrc (corrupted p e ++ m) ↔
      Gf2.ofNat crc24q.generator ∣ Gf2.ofNat (natOf (bitsOf e)) := by
  set w := flip (p ++ crcBytes (crc24q (encodeHeader p ++ p))) e with hw
  have hlen : w.length = p.length + 3 := by
    rw [hw, length_flip (by rw [he, List.length_append]; rfl), List.length_append]
    rfl
  -- The bytes behind the header: those of the payload, and the checksum.
  have hq : (w.take p.length).length = p.length := by rw [List.length_take]; omega
  have hcheck : (w.drop p.length).length = 3 := by rw [List.length_drop]; omega
  have hsplit : corrupted p e ++ m =
      encodeHeader p ++ (w.take p.length ++ (w.drop p.length ++ m)) := by
    rw [← List.append_assoc (w.take p.length), List.take_append_drop, ← List.append_assoc]
    rfl
  rw [hsplit, ← UInt32.toNat_inj, toNat_gotCrc_header hp m hq hcheck, calcCrc_header hp _ hq,
    eq_comm, crc24q_eq_iff_dvd _ hcheck, List.append_assoc, List.take_append_drop]
  exact dvd_corrupted_iff he

end Corrupted

/-- What the framer accepts as a frame has passed the comparison. -/
theorem gotCrc_of_verdict {s q : Bytes} {n : ℕ} (h : frames.verdict s = .advance n (.frame q)) :
    gotCrc s = calcCrc s := by
  change frameVerdict s = _ at h
  rw [frameVerdict] at h
  split_ifs at h with _ _ _ _ hcrc
  · exact absurd h (by simp)
  · exact hcrc
  · exact absurd h (by simp)

namespace RtcmStreamFramer

/-- **Error detection.** A frame of a payload of up to 1023 bytes, whose payload and
    checksum are changed by errors of odd weight, by two errors, or by a burst of
    up to 24 bits, fails the comparison of the checksums, whatever follows it;
    and wherever it is in a stream, received in any pieces, nothing is decoded
    at its offset. -/
theorem corrupted_not_accepted (p e : Bytes) (hp : p.length ≤ 1023) (he : e.length = p.length + 3)
    (hrev : Revealed (bitsOf e)) :
    (∀ m, gotCrc (corrupted p e ++ m) ≠ calcCrc (corrupted p e ++ m)) ∧
    ∀ (before after : Bytes) (ps : List Bytes),
      ps.flatten = before ++ (corrupted p e ++ after) →
      before.length ∉ accepted ps.flatten ∧
      (pushAll ps).decoded = (accepted ps.flatten).map (payloadAt ps.flatten) ∧
      (pushAllNats ps).decoded = (accepted ps.flatten).map (payloadAt ps.flatten) := by
  have hne (m : Bytes) : gotCrc (corrupted p e ++ m) ≠ calcCrc (corrupted p e ++ m) := by
    rw [Ne, gotCrc_corrupted_iff he hp]
    exact not_dvd_of_revealed hrev (by rw [length_bitsOf]; omega)
  refine ⟨hne, fun before after ps hps => ⟨fun hmem => ?_, ?_, ?_⟩⟩
  · obtain ⟨x, hx, hoff, q, hq⟩ := mem_accepted hmem
    have hv := (verdict_eq_frame_iff _ _ _ _).2 (frameAt_of_hit hx hq)
    rw [hoff, hps, List.drop_left] at hv
    exact hne after (gotCrc_of_verdict hv)
  · rw [pushAll_eq, decoded_eq_map_accepted]
  · rw [pushAllNats_eq, decoded_eq_map_accepted]

/-- A burst of four errors in a payload with a preamble in it, which stays as it is. -/
def burst : Bytes := [0x18, 0x00, 0x24, 0x00, 0x00, 0x00]

theorem revealed_burst : Revealed (bitsOf burst) :=
  .inr (.inr ⟨3, ((bitsOf burst).drop 3).take 19, 26, by decide, by decide, by decide⟩)

/-- An empty frame, and behind it a frame with this burst, cut inside the first CRC and behind
    the preamble inside the second payload. -/
def burstPieces : List Bytes :=
  [[0xD3, 0x00, 0x00, 0x47], [0xEA, 0x4B, 0xD3, 0x00, 0x03, 0x5B, 0xD3], [0x24, 0xA4, 0x77, 0xF0]]

theorem corrupted_not_accepted_burst : 6 ∉ accepted burstPieces.flatten ∧
    (pushAll burstPieces).decoded =
      (accepted burstPieces.flatten).map (payloadAt burstPieces.flatten) :=
  have h := (corrupted_not_accepted [0x43, 0xD3, 0x00] burst (by decide) rfl revealed_burst).2
    (encodeFrame []) [] burstPieces (by decide +kernel)
  ⟨h.1, h.2.1⟩

end RtcmStreamFramer

end RtcmBridge

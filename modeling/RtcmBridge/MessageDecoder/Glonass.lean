import RtcmBridge.MessageDecoder.RoundTrip
import Mathlib.Tactic

/-!
# The GLONASS messages

The messages 1020 and 1230 as they are encoded. `decode_1020` does not skip the
four bits in front of the time `tk`, and `decode_1230` reads the reserved bits as
the signal mask. So what is reported is what was encoded only if the bits that are
read instead happen to agree (`decode_glonass_iff`).
-/

namespace RtcmBridge.RtcmMessageDecoder

open BitReader

/-- The fields of the message 1020, up to the time. -/
structure Ephemeris where
  sat : BitVec 6
  channel : BitVec 5
  health : BitVec 1
  availability : BitVec 1
  p1 : BitVec 2
  hours : BitVec 5
  minutes : BitVec 6
  half : BitVec 1

/-- The fields of the message 1230, up to the signal mask. -/
structure Biases where
  station : BitVec 12
  indicator : BitVec 1
  reserved : BitVec 3
  mask : BitVec 4

/-- The messages, with the bits of the fields behind those that are to be reported. -/
inductive Glonass
  | m1020 (e : Ephemeris) (rest : List Bool)
  | m1230 (b : Biases) (rest : List Bool)

namespace Ephemeris

variable (e : Ephemeris)

/-- The bits between the channel and the time. -/
def skipped : List Bool := fieldBits e.health ++ (fieldBits e.availability ++ fieldBits e.p1)

/-- The time of the ephemeris: hours, minutes and half minutes. -/
def tk : List Bool := fieldBits e.hours ++ (fieldBits e.minutes ++ fieldBits e.half)

/-- The bits of the message up to the time. -/
def bits : List Bool := fieldBits e.sat ++ (fieldBits e.channel ++ (e.skipped ++ e.tk))

/-- What is to be reported. -/
def items : List Item :=
  [.number " sat=R" e.sat.toNat, .number " freq_ch=" (e.channel.toNat - 7),
    .number " tk=" e.hours.toNat, .number ":" e.minutes.toNat, .number ":" (e.half.toNat * 30)]

/-- What is reported: the time is read four bits too early. -/
def reported : List Item :=
  let early := e.skipped ++ e.tk
  [.number " sat=R" e.sat.toNat, .number " freq_ch=" (e.channel.toNat - 7),
    .number " tk=" (natOf (slice early 0 5)), .number ":" (natOf (slice early 5 6)),
    .number ":" (natOf (slice early 11 1) * 30)]

end Ephemeris

namespace Biases

variable (b : Biases)

/-- The bits of the message up to the mask. -/
def bits : List Bool :=
  fieldBits b.station ++ (fieldBits b.indicator ++ (fieldBits b.reserved ++ fieldBits b.mask))

/-- What is to be reported. -/
def items : List Item :=
  [.number " staid=" b.station.toNat, .number " code_phase_mask=" b.mask.toNat,
    .number " ext=" b.indicator.toNat]

/-- What is reported: the mask is read from the reserved bits. -/
def reported : List Item :=
  [.number " staid=" b.station.toNat, .number " code_phase_mask=" b.reserved.toNat,
    .number " ext=" b.indicator.toNat]

end Biases

namespace Glonass

/-- The type of the message. -/
def type : Glonass → ℕ
  | m1020 .. => 1020
  | m1230 .. => 1230

/-- The message in the layout of the standard. -/
def bits : Glonass → List Bool
  | m1020 e rest => natBits 12 1020 ++ (e.bits ++ rest)
  | m1230 b rest => natBits 12 1230 ++ (b.bits ++ rest)

/-- The payload of the message. -/
def encode (m : Glonass) : Bytes := pack m.bits

/-- What a summary should show of it. -/
def items : Glonass → List Item
  | m1020 e _ => e.items
  | m1230 b _ => b.items

/-- What the summary shows of it. -/
def reported : Glonass → List Item
  | m1020 e _ => e.reported
  | m1230 b _ => b.reported

/-- What is read is what was encoded: the time repeats the four bits in front of it,
    and the mask is the number in the reserved bits. -/
def Agrees : Glonass → Prop
  | m1020 e _ => e.tk = e.skipped ++ (e.skipped ++ e.skipped)
  | m1230 b _ => b.mask.toNat = b.reserved.toNat

instance : (m : Glonass) → Decidable m.Agrees
  | m1020 e _ => inferInstanceAs (Decidable (e.tk = _))
  | m1230 b _ => inferInstanceAs (Decidable (b.mask.toNat = _))

end Glonass

/-! ### What is reported -/

theorem length_skipped (e : Ephemeris) : e.skipped.length = 4 := by simp [Ephemeris.skipped]

theorem length_tk (e : Ephemeris) : e.tk.length = 12 := by simp [Ephemeris.tk]

/-- `decode1020` takes the twelve bits behind the channel for the time of day, four too early. -/
theorem reads_decode1020 (e : Ephemeris) :
    Reads (decode1020 1020)
      (fieldBits e.sat ++ (fieldBits e.channel ++ (e.skipped ++ e.tk).take 12))
      (some e.reported) := by
  have hlen : ((e.skipped ++ e.tk).take 12).length = 5 + (6 + (1 + 0)) := by
    rw [List.length_take, List.length_append, length_skipped, length_tk]
    rfl
  rw [decode1020, if_neg (by decide)]
  refine Reads.bind_fieldU (w := 6) _ (by decide) fun _ hsat => ?_
  refine Reads.bind_fieldU (w := 5) _ (by decide) fun _ hchannel => ?_
  refine Reads.bind_unsigned (by decide) hlen fun hlen => ?_
  refine Reads.bind_unsigned (by decide) hlen fun hlen => ?_
  refine Reads.bind_unsigned (by decide) hlen fun hlen => ?_
  have hhalf (l : List Bool) (h : l.length ≤ 1) : (unsigned l * 30).toNat = natOf l * 30 := by
    have hlt := (natOf_lt l).trans_le (Nat.pow_le_pow_right two_pos h)
    have h30 : (30 : UInt64).toNat = 30 := rfl
    rw [UInt64.toNat_mul, toNat_unsigned (by omega), h30, Nat.mod_eq_of_lt (by omega)]
  rw [hsat, hchannel, toNat_unsigned ((List.length_take_le ..).trans (by decide)),
    toNat_unsigned ((List.length_take_le ..).trans (by decide)), hhalf _ (List.length_take_le ..)]
  have hreported : e.reported = [.number " sat=R" e.sat.toNat,
      .number " freq_ch=" (e.channel.toNat - 7),
      .number " tk=" (natOf (((e.skipped ++ e.tk).take 12).take 5)),
      .number ":" (natOf ((((e.skipped ++ e.tk).take 12).drop 5).take 6)),
      .number ":" (natOf (((((e.skipped ++ e.tk).take 12).drop 5).drop 6).take 1) * 30)] := by
    simp [Ephemeris.reported, slice, List.take_take, List.drop_take]
  rw [hreported]
  exact .pure_of_length _ hlen

/-- `decode1230` reports the reserved bits as the mask. -/
theorem reads_decode1230 (b : Biases) :
    Reads (decode1230 1230)
      (fieldBits b.station ++ (fieldBits b.indicator ++ fieldBits b.reserved))
      (some b.reported) := by
  rw [decode1230, if_neg (by decide), ← List.append_nil (fieldBits b.reserved)]
  refine Reads.bind_fieldU (w := 12) _ (by decide) fun _ hstation => ?_
  refine Reads.bind_fieldU (w := 1) _ (by decide) fun _ hindicator => ?_
  refine Reads.bind_fieldU (w := 3) _ (by decide) fun _ hreserved => ?_
  rw [hstation, hindicator, hreserved]
  exact .pure _

namespace Glonass

variable (m : Glonass)

/-- A payload that starts with the bits of the message is of its type. -/
theorem messageType_of_bits {payload : Bytes} (h : m.bits <+: bitsOf payload) :
    messageType payload = m.type := by
  obtain ⟨rest, hrest⟩ := h
  have htake : (bitsOf payload).take 12 = natBits 12 m.type := by
    rw [← hrest]
    cases m <;> rw [bits, List.append_assoc, List.take_left' (length_natBits ..)] <;> rfl
  rw [messageType, htake, natOf_natBits]
  cases m <;> rfl

/-- The decoder of the type reads the first fields of the message. -/
theorem exists_reads : ∃ decoder l, Decodes m.type decoder ∧
    Reads (decoder m.type) l (some m.reported) ∧ l <+: m.bits.drop 12 := by
  cases m with
  | m1020 e rest =>
    refine ⟨_, _, decodes1020 rfl, reads_decode1020 e, ?_⟩
    rw [bits, List.drop_left' (length_natBits ..), Ephemeris.bits, List.append_assoc,
      List.append_assoc, List.prefix_append_right_inj, List.prefix_append_right_inj]
    exact (List.take_prefix ..).trans (List.prefix_append ..)
  | m1230 b rest =>
    refine ⟨_, _, decodes1230 rfl, reads_decode1230 b, ?_⟩
    rw [bits, List.drop_left' (length_natBits ..), Biases.bits]
    simp only [List.append_assoc, List.prefix_append_right_inj]
    exact List.prefix_append ..

/-- The whole decoder prints the head and what the decoder of the type reports. -/
theorem decode_eq_reported (more : Bytes) (hroom : 8 * (m.encode ++ more).length + 64 < 2 ^ 64) :
    decode (m.encode ++ more) =
      .ok (headItems m.type (m.encode ++ more).length ++ m.reported) := by
  obtain ⟨fill, hfill⟩ := bitsOf_pack m.bits
  have hbits : bitsOf (m.encode ++ more) = m.bits ++ (fill ++ bitsOf more) := by
    rw [bitsOf_append, encode, hfill, List.append_assoc]
  have hprefix : m.bits <+: bitsOf (m.encode ++ more) := by
    rw [hbits]
    exact List.prefix_append ..
  have htype := m.messageType_of_bits hprefix
  have hlen : 2 ≤ (m.encode ++ more).length := by
    refine two_le_length ?_
    rw [htype]
    cases m <;> simp [type]
  have h12 : 12 ≤ m.bits.length := by cases m <;> simp [bits]
  obtain ⟨decoder, l, hdec, hread, hl⟩ := m.exists_reads
  rw [← htype] at hdec hread ⊢
  refine decode_of_reads hlen hroom hdec hread ?_
  rw [hbits, List.drop_append_of_le_length h12]
  exact hl.trans (List.prefix_append ..)

end Glonass

/-! ### Where it is what was encoded -/

/-- A string behind four others begins as the whole only if it repeats these. -/
theorem take_append_eq_iff {q t : List Bool} (hq : q.length = 4) :
    (q ++ t).take 12 = t ↔ t = q ++ (q ++ q) := by
  have htake : (q ++ t).take 12 = q ++ t.take 8 := by
    rw [List.take_append, List.take_of_length_le (by omega), hq]
  rw [htake]
  constructor
  · intro h
    have h8 : t.take 8 = q ++ t.take 4 := by
      conv_lhs => rw [← h, List.take_append, List.take_of_length_le (by omega), hq, List.take_take]
      rfl
    have h4 : t.take 4 = q := by
      conv_lhs => rw [← h, List.take_left' hq]
    rw [← h, h8, h4]
  · intro h
    have h8 : t.take 8 = q ++ q := by
      rw [h, ← List.append_assoc, List.take_left' (by rw [List.length_append, hq])]
    rw [h8, h]

/-- A run of bits has the value of a field exactly if it is the field's bits. -/
theorem natOf_eq_iff {w : ℕ} {l : List Bool} (v : BitVec w) (hl : l.length = w) :
    natOf l = v.toNat ↔ l = fieldBits v := by
  rw [← natOf_fieldBits v]
  exact ⟨natOf_inj (by rw [hl, length_fieldBits]), congrArg natOf⟩

/-- The time shown is the one sent exactly if that repeats the four skipped bits. -/
theorem Ephemeris.reported_eq_iff (e : Ephemeris) :
    e.reported = e.items ↔ e.tk = e.skipped ++ (e.skipped ++ e.skipped) := by
  set early := e.skipped ++ e.tk with hearly
  have hlen : early.length = 16 := by rw [hearly, List.length_append, length_skipped, length_tk]
  have hhours : (slice early 0 5).length = 5 := length_slice (by omega)
  have hminutes : (slice early 5 6).length = 6 := length_slice (by omega)
  have hhalf : (slice early 11 1).length = 1 := length_slice (by omega)
  have hitems : e.reported = e.items ↔ natOf (slice early 0 5) = e.hours.toNat ∧
      natOf (slice early 5 6) = e.minutes.toNat ∧ natOf (slice early 11 1) = e.half.toNat := by
    simp only [reported, items, ← hearly, List.cons.injEq, Item.number.injEq, true_and, and_true,
      Int.natCast_inj]
    omega
  have hsplit : early.take 12 = slice early 0 5 ++ (slice early 5 6 ++ slice early 11 1) := by
    have h := slice_add early 0 5 (6 + 1)
    rwa [slice_add] at h
  rw [hitems, natOf_eq_iff _ hhours, natOf_eq_iff _ hminutes, natOf_eq_iff _ hhalf,
    ← take_append_eq_iff (length_skipped e), ← hearly, hsplit, tk]
  constructor
  · rintro ⟨h₁, h₂, h₃⟩
    rw [h₁, h₂, h₃]
  · intro h
    obtain ⟨h₁, h⟩ := List.append_inj h (by rw [hhours, length_fieldBits])
    obtain ⟨h₂, h₃⟩ := List.append_inj h (by rw [hminutes, length_fieldBits])
    exact ⟨h₁, h₂, h₃⟩

/-- The mask shown is the one sent exactly if that has the value of the reserved bits. -/
theorem Biases.reported_eq_iff (b : Biases) :
    b.reported = b.items ↔ b.mask.toNat = b.reserved.toNat := by
  simp [reported, items, eq_comm]

/-- A GLONASS message is reported as it was encoded if and only if the bits that are
    read instead of the time, or of the signal mask, agree with it. -/
theorem decode_glonass_iff (m : Glonass) (more : Bytes)
    (hroom : 8 * (m.encode ++ more).length + 64 < 2 ^ 64) :
    decode (m.encode ++ more) =
        .ok (headItems m.type (m.encode ++ more).length ++ m.items) ↔ m.Agrees := by
  rw [m.decode_eq_reported more hroom, Except.ok.injEq, List.append_right_inj]
  cases m with
  | m1020 e rest => exact e.reported_eq_iff
  | m1230 b rest => exact b.reported_eq_iff

/-- The ephemeris of the satellite 3 on the channel 1, at half past ten. -/
def halfPastTen : Glonass := .m1020 ⟨3, 8, 0, 0, 0, 10, 30, 0⟩ (.replicate 321 false)

/-- Biases of the station 5 for all four signals. -/
def fourSignals : Glonass := .m1230 ⟨5, 1, 0, 15⟩ (.replicate 64 false)

theorem decode_glonass_iff_fourSignals : 8 * (fourSignals.encode ++ []).length + 64 < 2 ^ 64 ∧
    (decode (fourSignals.encode ++ []) =
      .ok (headItems 1230 (fourSignals.encode ++ []).length ++ fourSignals.items) ↔
        fourSignals.Agrees) :=
  ⟨by decide, decode_glonass_iff fourSignals [] (by decide)⟩

/-- The time is reported as 0:41:30, and none of the signals. -/
theorem glonass_misread :
    decode halfPastTen.encode = .ok (headItems 1020 halfPastTen.encode.length ++
      [.number " sat=R" 3, .number " freq_ch=" 1, .number " tk=" 0, .number ":" 41,
        .number ":" 30]) ∧
    decode fourSignals.encode = .ok (headItems 1230 fourSignals.encode.length ++
      [.number " staid=" 5, .number " code_phase_mask=" 0, .number " ext=" 1]) ∧
    ¬∀ m : Glonass, decode m.encode = .ok (headItems m.type m.encode.length ++ m.items) := by
  have hlen : halfPastTen.encode.length = 45 := by
    have hbits (e : Ephemeris) (rest : List Bool) :
        (Glonass.m1020 e rest).bits.length = 39 + rest.length := by
      simp [Glonass.bits, Ephemeris.bits, length_skipped, length_tk]
      omega
    rw [halfPastTen, Glonass.encode, length_pack, hbits, List.length_replicate]
  have htime := halfPastTen.decode_eq_reported [] (by rw [List.append_nil, hlen]; decide)
  have hmask := fourSignals.decode_eq_reported [] (by decide)
  rw [List.append_nil] at htime hmask
  have hreported : halfPastTen.reported = [.number " sat=R" 3, .number " freq_ch=" 1,
      .number " tk=" 0, .number ":" 41, .number ":" 30] := by decide
  have hitems : halfPastTen.reported ≠ halfPastTen.items := by decide
  refine ⟨hreported ▸ htime, hmask, fun h => hitems ?_⟩
  exact List.append_cancel_left (Except.ok.inj (htime.symm.trans (h halfPastTen)))

end RtcmBridge.RtcmMessageDecoder

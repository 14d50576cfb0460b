import RtcmBridge.Framer.Crc
import RtcmBridge.Framer.Resync

/-!
# Framing round trip

A payload of up to 1023 bytes in its frame (`encodeFrame`), and a stream of such
frames with other bytes between them (`encodeFrames`). As the framer goes from a
frame straight to the byte behind it, it is never misled by what the payloads
and the checksums contain: it hands over the payloads, and nothing else.
-/

namespace RtcmBridge

/-- The header of a frame: the preamble, and the length in 10 bits behind six
    zeros. -/
def encodeHeader (payload : Bytes) : Bytes :=
  [0xD3, .ofNat (payload.length / 256), .ofNat (payload.length % 256)]

/-- A payload in its frame, with the CRC-24Q of the header and the payload behind
    them. -/
def encodeFrame (payload : Bytes) : Bytes :=
  encodeHeader payload ++ payload ++ crcBytes (crc24q (encodeHeader payload ++ payload))

/-- Frames, each with other bytes before it. -/
def encodeFrames (fs : List (Bytes × Bytes)) : Bytes :=
  fs.flatMap fun f => f.1 ++ encodeFrame f.2

/-! ## One frame -/

theorem length_encodeHeader (p : Bytes) : (encodeHeader p).length = 3 := rfl

theorem length_encodeFrame (p : Bytes) : (encodeFrame p).length = 3 + p.length + 3 := by
  rw [encodeFrame, List.length_append, List.length_append]
  rfl

section Candidate

-- A candidate behind the header of the payload `p`: as many bytes `q`, and three
-- more for the checksum.
variable {p q check : Bytes} (hp : p.length ≤ 1023) (m : Bytes)

include hp

/-- The header announces the length of the payload, whatever follows it. -/
theorem payloadLen_header : payloadLen (encodeHeader p ++ m) = p.length := by
  rw [payloadLen_eq]
  change (UInt8.ofNat (p.length / 256)).toNat % 4 * 256 + (UInt8.ofNat (p.length % 256)).toNat = _
  rw [UInt8.toNat_ofNat', UInt8.toNat_ofNat']
  omega

variable (hq : q.length = p.length)

include hq

/-- The checksum is computed over header and payload. -/
theorem calcCrc_header :
    calcCrc (encodeHeader p ++ (q ++ m)) = crc24q (encodeHeader p ++ q) := by
  have hlen : (encodeHeader p ++ q).length = 3 + p.length := by
    rw [List.length_append, length_encodeHeader, hq]
  rw [calcCrc, payloadLen_header hp, ← List.append_assoc, ← hlen, List.take_left]

/-- The payload is what stands behind the header. -/
theorem payload_header : payload (encodeHeader p ++ (q ++ m)) = q := by
  rw [payload, payloadLen_header hp, ← length_encodeHeader p, List.drop_left, ← hq, List.take_left]

/-- The check bytes are what stands behind the payload. -/
theorem toNat_gotCrc_header (hcheck : check.length = 3) :
    (gotCrc (encodeHeader p ++ (q ++ (check ++ m)))).toNat = natOf (bitsOf check) := by
  have hbyte (k : ℕ) : byteAt (encodeHeader p ++ (q ++ (check ++ m))) (3 + p.length + k) =
      byteAt (check ++ m) k := by
    rw [← length_encodeHeader p, ← hq, Nat.add_assoc, byteAt_append_right, byteAt_append_right]
  obtain ⟨a, b, c, rfl⟩ := List.length_eq_three.1 hcheck
  have h₀ := hbyte 0
  rw [Nat.add_zero] at h₀
  rw [toNat_gotCrc, payloadLen_header hp, h₀, hbyte, hbyte, natOf_bitsOf_three]
  rfl

/-- What the framer decides about a candidate that has its announced length. -/
theorem verdict_header (hcheck : check.length = 3) :
    frames.verdict (encodeHeader p ++ (q ++ (check ++ m))) =
      if (crc24q (encodeHeader p ++ q)).toNat = natOf (bitsOf check)
      then .advance (3 + p.length + 3) (.frame q) else .advance 1 .badCrc := by
  have hlen : 3 + p.length + 3 ≤ (encodeHeader p ++ (q ++ (check ++ m))).length := by
    simp only [List.length_append, length_encodeHeader, hq, hcheck]
    omega
  have hcrc : gotCrc (encodeHeader p ++ (q ++ (check ++ m))) =
      calcCrc (encodeHeader p ++ (q ++ (check ++ m))) ↔
        (crc24q (encodeHeader p ++ q)).toNat = natOf (bitsOf check) := by
    rw [← UInt32.toNat_inj, toNat_gotCrc_header hp m hq hcheck, calcCrc_header hp _ hq, eq_comm]
  have hpre : byteAt (encodeHeader p ++ (q ++ (check ++ m))) 0 = 0xD3 := rfl
  refine (frameVerdict_of_preamble fun _ => hpre).trans ?_
  rw [frameLen, payloadLen_header hp, payload_header hp _ hq, if_neg (by omega),
    if_neg (by omega)]
  simp only [hcrc]

end Candidate

/-- A frame is recognised, whatever follows it. -/
theorem verdict_encodeFrame {p : Bytes} (hp : p.length ≤ 1023) (m : Bytes) :
    frames.verdict (encodeFrame p ++ m) = .advance (encodeFrame p).length (.frame p) := by
  have hcrc := natOf_bitsOf_crcBytes (crc24q_lt (encodeHeader p ++ p))
  rw [length_encodeFrame, encodeFrame, List.append_assoc, List.append_assoc,
    verdict_header hp m rfl rfl, if_pos hcrc.symm]

/-! ## Streams of frames -/

/-- Bytes that are no preambles are scanned one by one. -/
theorem scan_gap {g : Bytes} (hg : 0xD3 ∉ g) (m : Bytes) :
    frames.outs (g ++ m) = .replicate g.length .garbage ++ frames.outs m ∧
      frames.rest (g ++ m) = frames.rest m := by
  induction g with
  | nil => exact ⟨rfl, rfl⟩
  | cons b g ih =>
    rw [List.mem_cons, not_or] at hg
    have hv : frames.verdict (b :: (g ++ m)) = .advance 1 .garbage := by
      change frameVerdict (b :: (g ++ m)) = .advance 1 .garbage
      have hb : byteAt (b :: (g ++ m)) 0 ≠ 0xD3 := Ne.symm hg.1
      rw [frameVerdict, if_neg (by simp), if_pos hb]
    obtain ⟨h₁, h₂⟩ := ih hg.2
    rw [List.cons_append, frames.outs_of_advance hv, frames.rest_of_advance hv]
    exact ⟨congrArg _ h₁, h₂⟩

/-- A frame at the front is found, and the scan goes on behind it. -/
theorem scan_encodeFrame {p : Bytes} (hp : p.length ≤ 1023) (m : Bytes) :
    frames.outs (encodeFrame p ++ m) = .frame p :: frames.outs m ∧
      frames.rest (encodeFrame p ++ m) = frames.rest m := by
  have hv := verdict_encodeFrame hp m
  rw [frames.outs_of_advance hv, frames.rest_of_advance hv, List.drop_left]
  exact ⟨rfl, rfl⟩

/-- What the scanner sees in frames with other bytes between them. -/
def seenIn (fs : List (Bytes × Bytes)) : List Seen :=
  fs.flatMap fun f => .replicate f.1.length .garbage ++ [.frame f.2]

/-- The frames have payloads of up to 1023 bytes, and no preamble is in the bytes
    before them. -/
def WellFormed (fs : List (Bytes × Bytes)) : Prop := ∀ f ∈ fs, f.2.length ≤ 1023 ∧ 0xD3 ∉ f.1

/-- Frames with garbage before them are all found, in their order. -/
theorem scan_encodeFrames {fs : List (Bytes × Bytes)} (hfs : WellFormed fs) (m : Bytes) :
    frames.outs (encodeFrames fs ++ m) = seenIn fs ++ frames.outs m ∧
      frames.rest (encodeFrames fs ++ m) = frames.rest m := by
  induction fs with
  | nil => exact ⟨rfl, rfl⟩
  | cons f fs ih =>
    obtain ⟨hlen, hgap⟩ := hfs f List.mem_cons_self
    obtain ⟨h₁, h₂⟩ := ih fun g hg => hfs g (List.mem_cons_of_mem _ hg)
    obtain ⟨h₃, h₄⟩ := scan_gap hgap (encodeFrame f.2 ++ (encodeFrames fs ++ m))
    obtain ⟨h₅, h₆⟩ := scan_encodeFrame hlen (encodeFrames fs ++ m)
    have hcons : encodeFrames (f :: fs) ++ m =
        f.1 ++ (encodeFrame f.2 ++ (encodeFrames fs ++ m)) := by
      simp [encodeFrames]
    rw [hcons, h₃, h₄, h₅, h₆, h₁, h₂]
    exact ⟨by simp [seenIn], rfl⟩

namespace RtcmStreamFramer

theorem foldl_see_garbage (f : RtcmStreamFramer) (n : ℕ) :
    (List.replicate n Seen.garbage).foldl see f = f := by
  induction n with
  | zero => rfl
  | succ n ih => rw [List.replicate_succ, List.foldl_cons, see, ih]

/-- The counters count every frame and every byte of the gaps. -/
theorem foldl_see_seenIn (f : RtcmStreamFramer) (fs : List (Bytes × Bytes)) :
    (seenIn fs).foldl see f = { f with
      framesOk := f.framesOk + .ofNat fs.length
      decoded := f.decoded ++ fs.map Prod.snd } := by
  induction fs generalizing f with
  | nil => simp [seenIn]
  | cons x fs ih =>
    have hcons : seenIn (x :: fs) =
        .replicate x.1.length .garbage ++ (.frame x.2 :: seenIn fs) := by
      simp [seenIn]
    rw [hcons, List.foldl_append, foldl_see_garbage, List.foldl_cons, ih, List.length_cons,
      UInt64.ofNat_add, UInt64.add_comm (.ofNat fs.length), ← UInt64.add_assoc]
    simp [see]

/-- A framer that has received frames with other bytes between them. -/
theorem framed_encodeFrames {fs : List (Bytes × Bytes)} (hfs : WellFormed fs) {tail : Bytes}
    (htail : 0xD3 ∉ tail) :
    framed (encodeFrames fs ++ tail) =
      { framesOk := .ofNat fs.length, decoded := fs.map Prod.snd } := by
  obtain ⟨h₁, h₂⟩ := scan_encodeFrames hfs tail
  obtain ⟨h₃, h₄⟩ := scan_gap htail []
  have hw : frames.verdict [] = .wait := rfl
  rw [List.append_nil, frames.outs_of_wait hw, List.append_nil] at h₃
  rw [List.append_nil, frames.rest_of_wait hw] at h₄
  rw [framed, h₁, h₂, h₃, h₄, List.foldl_append, foldl_see_seenIn, foldl_see_garbage]
  simp

/-- What is decoded from a stream is decoded whatever follows. -/
theorem decoded_framed_append (s m : Bytes) :
    (framed s).decoded <+: (framed (s ++ m)).decoded := by
  rw [decoded_framed, decoded_framed, (frames.outs_append s m).1, List.filterMap_append]
  exact List.prefix_append _ _

/-- **Framing round trip.** From frames of payloads of up to 1023 bytes, with bytes
    other than preambles before, between and after them, received in any pieces,
    exactly the payloads are decoded, in order, none is counted as corrupted and
    nothing is left over; and a payload is decoded as soon as the pieces received
    contain its frame. -/
theorem push_roundTrip (fs : List (Bytes × Bytes)) (tail : Bytes)
    (hlen : ∀ f ∈ fs, f.2.length ≤ 1023) (hgap : ∀ f ∈ fs, 0xD3 ∉ f.1) (htail : 0xD3 ∉ tail)
    (ps : List Bytes) (hps : ps.flatten = encodeFrames fs ++ tail) :
    (∀ f ∈ [pushAll ps, pushAllNats ps], f.decoded = fs.map Prod.snd ∧
      f.framesOk = .ofNat fs.length ∧ f.framesBadCrc = 0 ∧ f.buf = []) ∧
    ∀ i k, (encodeFrames (fs.take i)).length ≤ (ps.take k).flatten.length →
      ∀ f ∈ [pushAll (ps.take k), pushAllNats (ps.take k)],
        (fs.take i).map Prod.snd <+: f.decoded := by
  have hfs : WellFormed fs := fun f hf => ⟨hlen f hf, hgap f hf⟩
  constructor
  · rw [pushAll_eq, pushAllNats_eq, hps, framed_encodeFrames hfs htail]
    simp
  · intro i k hik
    -- The pieces received start with the first `i` frames.
    have hsplit : ps.flatten = encodeFrames (fs.take i) ++ (encodeFrames (fs.drop i) ++ tail) := by
      rw [hps, ← List.append_assoc, encodeFrames, encodeFrames, encodeFrames,
        ← List.flatMap_append, List.take_append_drop]
    have hpre : (ps.take k).flatten <+: ps.flatten :=
      ⟨(ps.drop k).flatten, by rw [← List.flatten_append, List.take_append_drop]⟩
    obtain ⟨m, hm⟩ := List.prefix_of_prefix_length_le ⟨_, hsplit.symm⟩ hpre hik
    have hframed := framed_encodeFrames
      (fun f hf => hfs f (List.mem_of_mem_take (i := i) hf)) (List.not_mem_nil (a := 0xD3))
    have hdec := decoded_framed_append (encodeFrames (fs.take i)) m
    rw [← List.append_nil (encodeFrames (fs.take i)), hframed, List.append_nil, hm] at hdec
    rw [pushAll_eq, pushAllNats_eq]
    simpa using hdec

/-- An empty frame, and one with a preamble in its payload, each behind other bytes. -/
def twoFrames : List (Bytes × Bytes) := [([0x20], []), ([0x0D, 0x0A], [0x43, 0xD3, 0x00])]

/-- The two frames and a byte behind them, cut inside the first CRC, and at the preamble inside
    the second payload. -/
def twoFramePieces : List Bytes :=
  [[0x20, 0xD3, 0x00, 0x00, 0x47], [0xEA, 0x4B, 0x0D, 0x0A, 0xD3, 0x00, 0x03, 0x43],
    [0xD3, 0x00, 0xA4, 0x77, 0xF0, 0x2A]]

/-- The payloads are decoded, the first one before the last piece has been received. -/
theorem push_roundTrip_twoFrames :
    (pushAll twoFramePieces).decoded = [[], [0x43, 0xD3, 0x00]] ∧
      (pushAllNats twoFramePieces).decoded = [[], [0x43, 0xD3, 0x00]] ∧
      [[]] <+: (pushAll (twoFramePieces.take 2)).decoded := by
  obtain ⟨hall, hfirst⟩ := push_roundTrip twoFrames [0x2A] (by decide) (by decide) (by decide)
    twoFramePieces (by decide +kernel)
  exact ⟨(hall _ List.mem_cons_self).1,
    (hall _ (List.mem_cons_of_mem _ List.mem_cons_self)).1,
    hfirst 1 2 (by decide +kernel) _ List.mem_cons_self⟩

end RtcmStreamFramer

end RtcmBridge

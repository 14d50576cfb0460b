import RtcmBridge.Framer.Stream

/-!
# Soundness and resynchronisation of the framer

The hits of the scanner's run tell which intervals of the stream the framer
accepted: disjoint ones, each a frame with the right checksum. A candidate holds
the scanner back by 1028 bytes at most, so a frame that is that far from the end
of the stream was scanned, and it was accepted unless an accepted frame covers
its first byte.
-/

namespace RtcmBridge

/-- The 10-bit length after a preamble at the offset `j`. -/
def lengthAt (s : Bytes) (j : ℕ) : ℕ :=
  (byteAt s (j + 1)).toNat % 4 * 256 + (byteAt s (j + 2)).toNat

/-- A CRC-valid frame starts at the offset `j` and is contained in `s`: a
    preamble, a 10-bit length, a payload of that length, and the CRC-24Q of all
    this as a big-endian 24-bit value. -/
structure FrameAt (s : Bytes) (j : ℕ) : Prop where
  preamble : byteAt s j = 0xD3
  contained : j + (3 + lengthAt s j + 3) ≤ s.length
  crc : (byteAt s (j + (3 + lengthAt s j))).toNat * 65536 +
      (byteAt s (j + (3 + lengthAt s j + 1))).toNat * 256 +
      (byteAt s (j + (3 + lengthAt s j + 2))).toNat =
    (crc24q ((s.drop j).take (3 + lengthAt s j))).toNat

/-- The payload of a frame at the offset `j`. -/
def payloadAt (s : Bytes) (j : ℕ) : Bytes := (s.drop (j + 3)).take (lengthAt s j)

/-- The length of a frame at `j` is that in the header there. -/
theorem payloadLen_drop (s : Bytes) (j : ℕ) : payloadLen (s.drop j) = lengthAt s j := by
  rw [payloadLen_eq, byteAt_drop, byteAt_drop, lengthAt]

theorem payload_drop (s : Bytes) (j : ℕ) : payload (s.drop j) = payloadAt s j := by
  rw [payload, payloadLen_drop, List.drop_drop, payloadAt]

theorem toNat_gotCrc (p : Bytes) : (gotCrc p).toNat =
    (byteAt p (3 + payloadLen p)).toNat * 65536 + (byteAt p (3 + payloadLen p + 1)).toNat * 256 +
      (byteAt p (3 + payloadLen p + 2)).toNat := by
  have h (a b c : UInt8) : (a.toUInt32 <<< 16 ||| b.toUInt32 <<< 8 ||| c.toUInt32).toNat =
      a.toNat * 65536 + b.toNat * 256 + c.toNat := by
    have ha := a.toNat_lt
    have hb := b.toNat_lt
    have hc := c.toNat_lt
    -- The three bytes do not overlap, so that `|||` adds them.
    have h₁ : (a.toUInt32 <<< 16).toNat = (a.toNat <<< 8) <<< 8 := by
      simp [UInt32.toNat_shiftLeft, Nat.shiftLeft_eq]
      omega
    have h₂ : (b.toUInt32 <<< 8).toNat = b.toNat <<< 8 := by
      simp [UInt32.toNat_shiftLeft, Nat.shiftLeft_eq]
      omega
    rw [UInt32.toNat_or, UInt32.toNat_or, h₁, h₂, ← Nat.shiftLeft_or_distrib,
      ← Nat.shiftLeft_add_eq_or_of_lt hb, UInt8.toNat_toUInt32, ← Nat.shiftLeft_add_eq_or_of_lt hc,
      Nat.shiftLeft_eq, Nat.shiftLeft_eq]
    ring
  exact h _ _ _

/-- The scanner accepts exactly the valid frames. -/
theorem verdict_eq_frame_iff (s : Bytes) (j n : ℕ) (q : Bytes) :
    frames.verdict (s.drop j) = .advance n (.frame q) ↔
      FrameAt s j ∧ n = 3 + lengthAt s j + 3 ∧ q = payloadAt s j := by
  have hlen : (s.drop j).length = s.length - j := List.length_drop
  have hcrc : gotCrc (s.drop j) = calcCrc (s.drop j) ↔
      (byteAt s (j + (3 + lengthAt s j))).toNat * 65536 +
        (byteAt s (j + (3 + lengthAt s j + 1))).toNat * 256 +
        (byteAt s (j + (3 + lengthAt s j + 2))).toNat =
      (crc24q ((s.drop j).take (3 + lengthAt s j))).toNat := by
    rw [← UInt32.toNat_inj, toNat_gotCrc, calcCrc, payloadLen_drop, byteAt_drop, byteAt_drop,
      byteAt_drop]
  change frameVerdict _ = _ ↔ _
  rw [frameVerdict, frameLen, payload_drop, payloadLen_drop, byteAt_drop, Nat.add_zero, hlen]
  constructor
  · intro h
    split_ifs at h with h₀ h₁ h₂ h₃ h₄
    all_goals simp only [Verdict.advance.injEq, reduceCtorEq, and_false, Seen.frame.injEq] at h
    exact ⟨⟨not_not.1 h₁, by omega, hcrc.1 h₄⟩, h.1.symm, h.2.symm⟩
  · rintro ⟨⟨h₁, h₂, h₃⟩, rfl, rfl⟩
    rw [if_neg (by omega), if_neg (not_not.2 h₁), if_neg (by omega), if_neg (by omega),
      if_pos (hcrc.2 h₃)]

namespace RtcmStreamFramer

/-- The payload of a hit that is a frame. -/
def payloadOf : Seen → Option Bytes
  | .frame p => some p
  | _ => none

/-- The payloads decoded so far are those of the frames seen. -/
theorem decoded_framed (s : Bytes) : (framed s).decoded = (frames.outs s).filterMap payloadOf := by
  have h (f : RtcmStreamFramer) (xs : List Seen) :
      (xs.foldl see f).decoded = f.decoded ++ xs.filterMap payloadOf := by
    induction xs generalizing f with
    | nil => simp
    | cons x xs ih => cases x <;> simp [ih, see, payloadOf, List.filterMap_cons]
  exact h {} _

/-- The offsets of the frames accepted in the stream `s`. -/
def accepted (s : Bytes) : List ℕ :=
  (frames.run 0 s).1.filterMap fun x => (payloadOf x.out).map fun _ => x.off

/-- Anything that is not a frame is scanned byte by byte. -/
theorem len_eq_one {p : Bytes} {n : ℕ} {x : Seen} (h : frames.verdict p = .advance n x)
    (hx : payloadOf x = none) : n = 1 := by
  change frameVerdict p = _ at h
  rw [frameVerdict] at h
  split_ifs at h <;> obtain ⟨rfl, rfl⟩ := Verdict.advance.inj h
  · rfl
  · exact absurd hx (by simp [payloadOf])
  · rfl

/-- A hit that is a frame is a valid frame of the stream, at its offset. -/
theorem frameAt_of_hit {s : Bytes} {x : Hit Seen} (hx : x ∈ (frames.run 0 s).1) {q : Bytes}
    (hq : payloadOf x.out = some q) :
    FrameAt s x.off ∧ x.len = 3 + lengthAt s x.off + 3 ∧ q = payloadAt s x.off := by
  have hv := frames.verdict_of_mem_run 0 s x hx
  rcases hout : x.out with _ | _ | q'
  · exact absurd hq (by rw [hout]; exact Option.some_ne_none q ∘ Eq.symm)
  · exact absurd hq (by rw [hout]; exact Option.some_ne_none q ∘ Eq.symm)
  · rw [hout, payloadOf, Option.some.injEq] at hq
    rw [hout, Nat.sub_zero, hq] at hv
    exact (verdict_eq_frame_iff s x.off x.len q).1 hv

/-- Every accepted place is that of a hit with a payload. -/
theorem mem_accepted {s : Bytes} {j : ℕ} (hj : j ∈ accepted s) :
    ∃ x ∈ (frames.run 0 s).1, x.off = j ∧ ∃ q, payloadOf x.out = some q := by
  obtain ⟨x, hx, h⟩ := List.mem_filterMap.1 hj
  obtain ⟨q, hq, rfl⟩ := Option.map_eq_some_iff.1 h
  exact ⟨x, hx, rfl, q, hq⟩

/-- A hit with a payload is at an accepted place. -/
theorem accepted_of_hit {s : Bytes} {x : Hit Seen} (hx : x ∈ (frames.run 0 s).1) {q : Bytes}
    (hq : payloadOf x.out = some q) : x.off ∈ accepted s :=
  List.mem_filterMap.2 ⟨x, hx, by rw [hq]; rfl⟩

/-- The payloads decoded are those at the accepted offsets. -/
theorem decoded_eq_map_accepted (s : Bytes) :
    (framed s).decoded = (accepted s).map (payloadAt s) := by
  rw [decoded_framed, accepted, Scanner.outs, List.filterMap_map, List.map_filterMap]
  refine List.filterMap_congr fun x hx => ?_
  rcases hq : payloadOf x.out with _ | q
  · simp [hq]
  · simp [hq, (frameAt_of_hit hx hq).2.2]

/-- The accepted frames stand one behind the other, without an overlap. -/
theorem pairwise_accepted (s : Bytes) :
    (accepted s).Pairwise fun a b => a + (3 + lengthAt s a + 3) ≤ b := by
  refine List.pairwise_filterMap.2 ((frames.tiles_run 0 s).pairwise.imp_of_mem ?_)
  intro x y hx hy hxy a ha b hb
  obtain ⟨q, hq, rfl⟩ := Option.map_eq_some_iff.1 ha
  obtain ⟨_, _, rfl⟩ := Option.map_eq_some_iff.1 hb
  rw [← (frameAt_of_hit hx hq).2.1]
  exact hxy

/-- A scan that goes no further than a complete frame, or a longest frame before
    the end of the stream, does not wait there. -/
theorem lt_consumed {s : Bytes} {j : ℕ} (hj : FrameAt s j) (hlen : j + 1028 ≤ s.length) :
    j < s.length - (frames.rest s).length := by
  have hw := frames.verdict_rest s
  have hle := frames.length_rest_le s
  rw [frames.rest_eq_drop] at hw
  by_contra hge
  -- Where the scan has stopped no frame is complete, and no more than 1028 bytes follow.
  rcases Nat.eq_or_lt_of_le (not_lt.1 hge) with heq | hlt
  · have := (verdict_eq_frame_iff s j _ _).2 ⟨hj, rfl, rfl⟩
    rw [← heq, hw] at this
    exact absurd this (by simp)
  · have := length_rest_le s
    omega

/-- Every valid frame that is not inside an accepted one, and is far enough from
    the end of the stream not to be held up, is accepted. -/
theorem accepted_of_frameAt {s : Bytes} {j : ℕ} (hj : FrameAt s j)
    (hin : ∀ a ∈ accepted s, a < j → a + (3 + lengthAt s a + 3) ≤ j)
    (hlen : j + 1028 ≤ s.length) : j ∈ accepted s := by
  have htiles := frames.tiles_run 0 s
  have hcons := lt_consumed hj hlen
  rw [Scanner.rest] at hcons
  -- The hit over `j` starts at `j`: it would otherwise be longer than a byte,
  -- that is an accepted frame around `j`.
  obtain ⟨x, hx, hxj, hjx⟩ := htiles.exists_mem (Nat.zero_le j) (by omega)
  have hv := frames.verdict_of_mem_run 0 s x hx
  rw [Nat.sub_zero] at hv
  have hoff : x.off = j := by
    rcases Nat.eq_or_lt_of_le hxj with heq | hlt
    · exact heq
    · rcases hq : payloadOf x.out with _ | q
      · have := len_eq_one hv hq
        omega
      · have := hin _ (accepted_of_hit hx hq) hlt
        rw [(frameAt_of_hit hx hq).2.1] at hjx
        omega
  rw [hoff, (verdict_eq_frame_iff s j _ _).2 ⟨hj, rfl, rfl⟩, Verdict.advance.injEq] at hv
  exact hoff ▸ accepted_of_hit hx (q := payloadAt s j) (by rw [← hv.2]; rfl)

/-- Soundness and resynchronisation, for every stream and every way of cutting
    it: the frames handed to the decoder are disjoint valid frames of the
    stream, in order; and every valid frame that is not inside an earlier
    accepted one, with 1028 bytes of the stream after its first, is one of them. -/
theorem push_resynchronises (ps : List Bytes) : ∃ offs : List ℕ,
    (pushAll ps).decoded = offs.map (payloadAt ps.flatten) ∧
    (pushAllNats ps).decoded = offs.map (payloadAt ps.flatten) ∧
    offs.Pairwise (fun a b => a + (3 + lengthAt ps.flatten a + 3) ≤ b) ∧
    (∀ a ∈ offs, FrameAt ps.flatten a) ∧
    ∀ j, FrameAt ps.flatten j →
      (∀ a ∈ offs, a < j → a + (3 + lengthAt ps.flatten a + 3) ≤ j) →
      j + 1028 ≤ ps.flatten.length → j ∈ offs := by
  refine ⟨accepted ps.flatten, ?_, ?_, pairwise_accepted _, fun a ha => ?_,
    fun j hj hin hlen => accepted_of_frameAt hj hin hlen⟩
  · rw [pushAll_eq, decoded_eq_map_accepted]
  · rw [pushAllNats_eq, decoded_eq_map_accepted]
  · obtain ⟨x, hx, rfl, q, hq⟩ := mem_accepted ha
    exact (frameAt_of_hit hx hq).1

end RtcmStreamFramer

end RtcmBridge

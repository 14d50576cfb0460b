import RtcmBridge.Framer.Basic
import RtcmBridge.Scanner

/-!
# The framer on a stream

The framer is a resumable scanner (`frames`): at the head of its buffer it
waits for a frame to be complete, or advances over a byte that is not a
preamble, over the preamble of a corrupted candidate, or over a whole frame.

`framed s` is what a framer that has received the stream `s` is, from a single
run of the scanner on the whole of `s`. Each `push` takes `framed s` to
`framed (s ++ data)` (`push_framed`): the framer refines the scanner, so that
the way the stream is cut does not matter.
-/

namespace RtcmBridge

/-- What the framer sees at an index it scans. -/
inductive Seen
  | garbage
  | badCrc
  | frame (payload : Bytes)

/-! ## Candidate frames -/

/-- The length has ten bits: two of the second byte and all of the third. -/
theorem payloadLen_eq (p : Bytes) :
    payloadLen p = (byteAt p 1).toNat % 4 * 256 + (byteAt p 2).toNat := by
  have h : (byteAt p 1).toNat &&& 0x03 = (byteAt p 1).toNat % 4 :=
    Nat.and_two_pow_sub_one_eq_mod _ 2
  rw [payloadLen, h, ← Nat.shiftLeft_add_eq_or_of_lt (byteAt p 2).toNat_lt, Nat.shiftLeft_eq]

/-- So a payload has at most 1023 bytes. -/
theorem payloadLen_le (p : Bytes) : payloadLen p ≤ 1023 := by
  have := (byteAt p 2).toNat_lt
  rw [payloadLen_eq]
  omega

/-- And a frame at most 1029. -/
theorem frameLen_le (p : Bytes) : frameLen p ≤ 1029 := by
  have := payloadLen_le p
  rw [frameLen]
  omega

/-- The length is known from the header on. -/
theorem payloadLen_append {p : Bytes} (h : 3 ≤ p.length) (m : Bytes) :
    payloadLen (p ++ m) = payloadLen p := by
  rw [payloadLen, payloadLen, byteAt_append (by omega), byteAt_append (by omega)]

theorem frameLen_append {p : Bytes} (h : 3 ≤ p.length) (m : Bytes) :
    frameLen (p ++ m) = frameLen p := by
  rw [frameLen, frameLen, payloadLen_append h]

section Complete

variable {p : Bytes} (h : frameLen p ≤ p.length) (m : Bytes)

include h

/-- A complete frame has its header. -/
theorem three_le_of_complete : 3 ≤ p.length := by
  rw [frameLen] at h
  omega

/-- The check bytes of a complete frame do not depend on what follows. -/
theorem gotCrc_append : gotCrc (p ++ m) = gotCrc p := by
  have h3 := three_le_of_complete h
  rw [frameLen] at h
  rw [gotCrc, gotCrc, payloadLen_append h3, byteAt_append (by omega), byteAt_append (by omega),
    byteAt_append (by omega)]

/-- Nor does its checksum. -/
theorem calcCrc_append : calcCrc (p ++ m) = calcCrc p := by
  have h3 := three_le_of_complete h
  rw [frameLen] at h
  rw [calcCrc, calcCrc, payloadLen_append h3, List.take_append_of_le_length (by omega)]

/-- Nor does its payload. -/
theorem payload_append : payload (p ++ m) = payload p := by
  have h3 := three_le_of_complete h
  rw [frameLen] at h
  rw [payload, payload, payloadLen_append h3, List.drop_append_of_le_length h3,
    List.take_append_of_le_length (by rw [List.length_drop]; omega)]

end Complete

/-! ## The scanner -/

/-- What the framer decides at the head `p` of what is left of its buffer. -/
def frameVerdict (p : Bytes) : Verdict Seen :=
  if p.length = 0 then .wait
  else if byteAt p 0 ≠ 0xD3 then .advance 1 .garbage
  else if p.length < 3 then .wait
  else if p.length < frameLen p then .wait
  else if gotCrc p = calcCrc p then .advance (frameLen p) (.frame (payload p))
  else .advance 1 .badCrc

/-- A step of the scan takes at least one byte, and no more than there are. -/
theorem frameVerdict_bounds {p : Bytes} {n : ℕ} {b : Seen} (h : frameVerdict p = .advance n b) :
    0 < n ∧ n ≤ p.length := by
  rw [frameVerdict] at h
  split_ifs at h <;> simp only [Verdict.advance.injEq] at h
  all_goals
    obtain ⟨rfl, _⟩ := h
    try simp only [frameLen] at *
    omega

/-- More bytes do not change a verdict that has been passed. -/
theorem frameVerdict_stable {p : Bytes} {n : ℕ} {b : Seen} (h : frameVerdict p = .advance n b)
    (m : Bytes) : frameVerdict (p ++ m) = .advance n b := by
  have hb := frameVerdict_bounds h
  have h0 : ¬(p ++ m).length = 0 := by rw [List.length_append]; omega
  have hp : ¬p.length = 0 := by omega
  rw [frameVerdict] at h ⊢
  rw [if_neg h0, byteAt_append (by omega)]
  rw [if_neg hp] at h
  split_ifs at h with h1 h2 h3 h4
  · rw [if_pos h1, h]
  -- A complete candidate is the same whatever follows it.
  all_goals
    rw [if_neg h1, if_neg (by rw [List.length_append]; omega), frameLen_append (by omega),
      if_neg (by rw [List.length_append]; omega), gotCrc_append (by omega),
      calcCrc_append (by omega)]
  · rw [if_pos h4, payload_append (by omega), h]
  · rw [if_neg h4, h]

/-- The framer, as a scanner. -/
def frames : Scanner UInt8 Seen where
  verdict := frameVerdict
  bounds := frameVerdict_bounds
  stable := frameVerdict_stable

/-- The verdict once the loop has skipped to a preamble, or to the end. -/
theorem frameVerdict_of_preamble {p : Bytes} (hp : 0 < p.length → byteAt p 0 = 0xD3) :
    frameVerdict p =
      if p.length < 3 then .wait
      else if p.length < frameLen p then .wait
      else if gotCrc p = calcCrc p then .advance (frameLen p) (.frame (payload p))
      else .advance 1 .badCrc := by
  rw [frameVerdict]
  by_cases h0 : p.length = 0
  · rw [if_pos h0, if_pos (by omega)]
  · rw [if_neg h0, if_neg (not_not.2 (hp (by omega)))]

/-- Fewer bytes are left over than the longest frame has. -/
theorem length_le_of_wait {p : Bytes} (h : frameVerdict p = .wait) : p.length ≤ 1028 := by
  have := frameLen_le p
  rw [frameVerdict] at h
  split_ifs at h <;> omega

/-! ## The framer refines the scanner -/

namespace RtcmStreamFramer

/-- What `push` does about what it sees. -/
def see (f : RtcmStreamFramer) : Seen → RtcmStreamFramer
  | .garbage => f
  | .badCrc => { f with framesBadCrc := f.framesBadCrc + 1 }
  | .frame p => { f with framesOk := f.framesOk + 1, decoded := f.decoded ++ [p] }

@[simp]
theorem buf_see (f : RtcmStreamFramer) (x : Seen) : (f.see x).buf = f.buf := by
  cases x <;> rfl

/-- What is found changes counters and output, not the buffer. -/
@[simp]
theorem buf_foldl_see (f : RtcmStreamFramer) (xs : List Seen) : (xs.foldl see f).buf = f.buf := by
  induction xs generalizing f with
  | nil => rfl
  | cons x xs ih => rw [List.foldl_cons, ih, buf_see]

/-- The bytes skipped before a preamble are garbage to the scanner. -/
theorem skipToPreamble_spec (f : RtcmStreamFramer) (i : ℕ) (hi : i ≤ f.buf.length) :
    skipToPreamble f.buf i ≤ f.buf.length ∧
      (frames.outs (f.buf.drop i)).foldl see f =
        (frames.outs (f.buf.drop (skipToPreamble f.buf i))).foldl see f ∧
      frames.rest (f.buf.drop i) = frames.rest (f.buf.drop (skipToPreamble f.buf i)) := by
  fun_induction skipToPreamble f.buf i with
  | case1 i h ih =>
    have hv : frames.verdict (f.buf.drop i) = .advance 1 .garbage := by
      change frameVerdict _ = _
      rw [frameVerdict, if_neg (by rw [List.length_drop]; omega), byteAt_drop, Nat.add_zero,
        if_pos h.2]
    obtain ⟨h₁, h₂, h₃⟩ := ih (by omega)
    rw [frames.outs_of_advance hv, frames.rest_of_advance hv, List.drop_drop]
    exact ⟨h₁, h₂, h₃⟩
  | case2 i h => exact ⟨hi, rfl, rfl⟩

/-- The loop stops at the end of the buffer or at a preamble. -/
theorem byteAt_skipToPreamble (buf : Bytes) (i : ℕ) (h : skipToPreamble buf i < buf.length) :
    byteAt buf (skipToPreamble buf i) = 0xD3 := by
  fun_induction skipToPreamble buf i with
  | case1 i _ ih => exact ih h
  | case2 i hn => exact not_not.1 fun hne => hn ⟨h, hne⟩

/-- The loop of `push` is a run of the scanner. -/
theorem scan_eq (f : RtcmStreamFramer) (i : ℕ) (hi : i ≤ f.buf.length) :
    f.scan i = ((frames.outs (f.buf.drop i)).foldl see f,
      f.buf.length - (frames.rest (f.buf.drop i)).length) := by
  -- The skipped bytes are garbage; at the preamble, the tests of the loop are
  -- those of the verdict.
  have hv (f : RtcmStreamFramer) (i : ℕ) :=
    frameVerdict_of_preamble (p := f.buf.drop (skipToPreamble f.buf i)) fun h => by
      rw [List.length_drop] at h
      rw [byteAt_drop, Nat.add_zero, byteAt_skipToPreamble _ _ (by omega)]
  fun_induction scan f i with
  | case1 f i j h =>
    obtain ⟨hj, h₁, h₂⟩ := skipToPreamble_spec f i hi
    have hw : frames.verdict (f.buf.drop j) = .wait := by
      refine (hv f i).trans ?_
      rw [if_pos (by rw [List.length_drop]; omega)]
    rw [h₁, h₂, frames.outs_of_wait hw, frames.rest_of_wait hw, List.length_drop]
    exact Prod.ext rfl (by show j = _; omega)
  | case2 f i j h p h' =>
    obtain ⟨hj, h₁, h₂⟩ := skipToPreamble_spec f i hi
    have hw : frames.verdict p = .wait := by
      refine (hv f i).trans ?_
      rw [if_neg (by rw [List.length_drop]; omega),
        if_pos (show p.length < frameLen p by rw [List.length_drop]; omega)]
    rw [h₁, h₂, frames.outs_of_wait hw, frames.rest_of_wait hw, List.length_drop]
    exact Prod.ext rfl (by show j = _; omega)
  | case3 f i j h p h' hc ih =>
    obtain ⟨hj, h₁, h₂⟩ := skipToPreamble_spec f i hi
    have ha : frames.verdict p = .advance (frameLen p) (.frame (payload p)) := by
      refine (hv f i).trans ?_
      rw [if_neg (by rw [List.length_drop]; omega),
        if_neg (show ¬p.length < frameLen p by rw [List.length_drop]; omega), if_pos hc]
    rw [h₁, h₂, frames.outs_of_advance ha, frames.rest_of_advance ha, List.drop_drop]
    exact ih (by show j + frameLen p ≤ f.buf.length; omega)
  | case4 f i j h p h' hc ih =>
    obtain ⟨hj, h₁, h₂⟩ := skipToPreamble_spec f i hi
    have ha : frames.verdict p = .advance 1 .badCrc := by
      refine (hv f i).trans ?_
      rw [if_neg (by rw [List.length_drop]; omega),
        if_neg (show ¬p.length < frameLen p by rw [List.length_drop]; omega), if_neg hc]
    rw [h₁, h₂, frames.outs_of_advance ha, frames.rest_of_advance ha, List.drop_drop]
    exact ih (by show j + 1 ≤ f.buf.length; omega)

/-- What is pending is shorter than the longest frame. -/
theorem length_rest_le (l : Bytes) : (frames.rest l).length ≤ 1028 :=
  length_le_of_wait (frames.verdict_rest l)

/-- What the erasure after the loop leaves is what the scanner leaves. -/
theorem erase_scan (f : RtcmStreamFramer) :
    (if (f.scan 0).2 > 0 then { (f.scan 0).1 with buf := (f.scan 0).1.buf.drop (f.scan 0).2 }
      else (f.scan 0).1) = { (frames.outs f.buf).foldl see f with buf := frames.rest f.buf } := by
  have hs := f.scan_eq 0 (Nat.zero_le _)
  have hrest := frames.rest_eq_drop f.buf
  rw [List.drop_zero] at hs
  rw [hs]
  generalize hg : (frames.outs f.buf).foldl see f = g
  have hbuf : g.buf = f.buf := hg ▸ buf_foldl_see f _
  rw [hbuf, ← hrest]
  split_ifs with hi
  · rfl
  · -- Erasing nothing is what the code leaves out.
    have hzero : f.buf.length - (frames.rest f.buf).length = 0 := Nat.eq_zero_of_not_pos hi
    rw [hrest, hzero, List.drop_zero, ← hbuf]

/-- What is pending fits the buffer, which is never trimmed. -/
theorem length_rest_le_maxBuffer (l : Bytes) : ¬(frames.rest l).length > maxBuffer := by
  have := length_rest_le l
  rw [maxBuffer]
  omega

/-- What `push` does with its buffer: it sees all that the scanner sees in it,
    and keeps what the scanner leaves. There is never enough left to be trimmed. -/
theorem drain_eq (f : RtcmStreamFramer) :
    f.drain = { (frames.outs f.buf).foldl see f with buf := frames.rest f.buf } := by
  rw [drain]
  change (if _ then _ else _) = _
  rw [erase_scan, if_neg (length_rest_le_maxBuffer f.buf)]

/-- A framer that has received the stream `s`, scanned in one go. -/
def framed (s : Bytes) : RtcmStreamFramer :=
  { (frames.outs s).foldl see {} with buf := frames.rest s }

theorem framed_nil : framed [] = {} := by
  have hw : frames.verdict [] = .wait := rfl
  rw [framed, frames.outs_of_wait hw, frames.rest_of_wait hw]
  rfl

theorem foldl_see_buf (f : RtcmStreamFramer) (xs : List Seen) (b : Bytes) :
    xs.foldl see { f with buf := b } = { xs.foldl see f with buf := b } := by
  induction xs generalizing f with
  | nil => rfl
  | cons x xs ih =>
    have hx : see { f with buf := b } x = { f.see x with buf := b } := by cases x <;> rfl
    rw [List.foldl_cons, hx, ih, List.foldl_cons]

/-- A push takes a framer from a stream to the longer one. -/
theorem drain_framed (s data : Bytes) :
    drain { framed s with buf := (framed s).buf ++ data } = framed (s ++ data) := by
  obtain ⟨h₁, h₂⟩ := frames.outs_append s data
  rw [drain_eq]
  simp only [framed, foldl_see_buf, h₁, h₂, List.foldl_append]

/-- A push after a stream is the push of the longer stream. -/
theorem push_framed (s data : Bytes) : (framed s).push data = framed (s ++ data) := by
  rw [push]
  split_ifs with h
  · rw [List.eq_nil_of_length_eq_zero h, List.append_nil]
  · exact drain_framed s data

/-- A push of `len` of the bytes at `data`. -/
theorem pushNats_framed_take (s data : Bytes) (len : ℤ) :
    (framed s).pushNats data len = framed (s ++ data.take len.toNat) := by
  rw [pushNats]
  split_ifs with h
  · rw [Int.toNat_of_nonpos h, List.take_zero, List.append_nil]
  · exact drain_framed s _

/-- A push of all the bytes at `data`, by the framer of the other program. -/
theorem pushNats_framed (s data : Bytes) :
    (framed s).pushNats data data.length = framed (s ++ data) := by
  rw [pushNats_framed_take, Int.toNat_natCast, List.take_length]

/-- Pushing a stream in pieces into a fresh framer. -/
def pushAll (ps : List Bytes) : RtcmStreamFramer := ps.foldl push {}

/-- Pushing a stream in pieces into a fresh framer, each with its length. -/
def pushAllNats (ps : List Bytes) : RtcmStreamFramer :=
  ps.foldl (fun f p => f.pushNats p p.length) {}

/-- A sequence of pushes, each of the bytes `sent`, takes a fresh framer to the stream
    they add up to. -/
theorem foldl_framed {α : Type*} {push : RtcmStreamFramer → α → RtcmStreamFramer}
    {sent : α → Bytes} (hpush : ∀ s a, push (framed s) a = framed (s ++ sent a)) (as : List α) :
    as.foldl push {} = framed (as.flatMap sent) := by
  -- The induction is on the pieces, from any stream received before them.
  have h (s : Bytes) : as.foldl push (framed s) = framed (s ++ as.flatMap sent) := by
    induction as generalizing s with
    | nil => rw [List.flatMap_nil, List.append_nil, List.foldl_nil]
    | cons a as ih => rw [List.foldl_cons, hpush, ih, List.flatMap_cons, List.append_assoc]
  rw [← framed_nil, h, List.nil_append]

/-- Whatever the pieces, the framer is that of the whole stream. -/
theorem pushAll_eq (ps : List Bytes) : pushAll ps = framed ps.flatten := by
  rw [pushAll, foldl_framed push_framed, List.flatMap_id']

theorem pushAllNats_eq (ps : List Bytes) : pushAllNats ps = framed ps.flatten := by
  rw [pushAllNats, foldl_framed pushNats_framed, List.flatMap_id']

/-- The way a stream is cut into pushes does not matter: the payloads decoded,
    the counters and the bytes left in the buffer are those of pushing it whole. -/
theorem push_fragmentation (s : Bytes) (ps qs : List Bytes) (hp : ps.flatten = s)
    (hq : qs.flatten = s) :
    (pushAll ps = pushAll qs ∧ pushAll ps = push {} s) ∧
      pushAllNats ps = pushAllNats qs ∧ pushAllNats ps = pushNats {} s s.length := by
  have hwhole : push {} s = framed s := by rw [← framed_nil, push_framed, List.nil_append]
  have hwholeNats : pushNats {} s s.length = framed s := by
    rw [← framed_nil, pushNats_framed, List.nil_append]
  rw [pushAll_eq, pushAll_eq, pushAllNats_eq, pushAllNats_eq, hp, hq, hwhole, hwholeNats]
  exact ⟨⟨rfl, rfl⟩, rfl, rfl⟩

/-- Two frames, cut inside the first header and at the preamble inside the second payload, and
    cut inside both of their CRCs. -/
theorem push_fragmentation_twoFrames :
    pushAll [[0xD3, 0x00], [0x00, 0x47, 0xEA, 0x4B, 0xD3, 0x00, 0x03, 0x43],
        [0xD3, 0x00, 0xA4, 0x77, 0xF0]] =
      pushAll [[0xD3, 0x00, 0x00, 0x47], [], [0xEA, 0x4B, 0xD3, 0x00, 0x03, 0x43, 0xD3, 0x00, 0xA4],
        [0x77, 0xF0]] :=
  (push_fragmentation [0xD3, 0x00, 0x00, 0x47, 0xEA, 0x4B, 0xD3, 0x00, 0x03, 0x43, 0xD3, 0x00,
    0xA4, 0x77, 0xF0] _ _ rfl rfl).1.1

end RtcmStreamFramer

end RtcmBridge

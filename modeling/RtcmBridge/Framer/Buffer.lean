import RtcmBridge.Framer.Stream

/-!
# The buffer of the framer

What is in the buffer between two pushes: the end of what has been received, an
incomplete candidate for a frame (`Pending`), of fewer than 1029 bytes.

`checkedDrain` is `drain` with `none` where a byte `p[k]` is not in the buffer or the
buffer is trimmed. It is never `none` (`checkedDrain_eq`).
-/

namespace RtcmBridge

/-! ## Accesses -/

/-- The bytes `p[k]`, …, `p[k + n - 1]`. -/
def checkedBytes (p : Bytes) (k n : ℕ) : Option Bytes := (List.range n).mapM fun j => p[k + j]?

/-- `payload_len`. -/
def checkedPayloadLen (p : Bytes) : Option ℕ := do
  let b₁ ← p[1]?
  let b₂ ← p[2]?
  some ((b₁.toNat &&& 0x03) <<< 8 ||| b₂.toNat)

/-- `got_crc`. -/
def checkedGotCrc (p : Bytes) (payloadLen : ℕ) : Option UInt32 := do
  let b₀ ← p[3 + payloadLen]?
  let b₁ ← p[3 + payloadLen + 1]?
  let b₂ ← p[3 + payloadLen + 2]?
  some (b₀.toUInt32 <<< 16 ||| b₁.toUInt32 <<< 8 ||| b₂.toUInt32)

namespace RtcmStreamFramer

/-- The loop of `push`, if all its accesses are in the buffer. -/
def checkedScan (f : RtcmStreamFramer) (i : ℕ) : Option (RtcmStreamFramer × ℕ) :=
  let j := skipToPreamble f.buf i
  if j + 3 > f.buf.length then some (f, j)
  else do
    let p := f.buf.drop j
    let payloadLen ← checkedPayloadLen p
    if j + (3 + payloadLen + 3) > f.buf.length then some (f, j)
    else
      let gotCrc ← checkedGotCrc p payloadLen
      let calcCrc ← (checkedBytes p 0 (3 + payloadLen)).map crc24q
      if gotCrc = calcCrc then
        let payload ← checkedBytes p 3 payloadLen
        checkedScan { f with framesOk := f.framesOk + 1, decoded := f.decoded ++ [payload] }
          (j + (3 + payloadLen + 3))
      else
        checkedScan { f with framesBadCrc := f.framesBadCrc + 1 } (j + 1)
termination_by f.buf.length - i
decreasing_by
  all_goals
    have := le_skipToPreamble f.buf i
    omega

/-- The part of `push` after the new bytes are in the buffer, if all its accesses are
    in the buffer and nothing is trimmed. -/
def checkedDrain (f : RtcmStreamFramer) : Option RtcmStreamFramer := do
  let (f, i) ← f.checkedScan 0
  let f := if i > 0 then { f with buf := f.buf.drop i } else f
  if f.buf.length > maxBuffer then none else some f

/-- `push` of `rtcm_decoder_ntrip`, if all its accesses are in the buffer and nothing
    is trimmed. -/
def checkedPush (f : RtcmStreamFramer) (data : Bytes) : Option RtcmStreamFramer :=
  if data.length = 0 then some f else checkedDrain { f with buf := f.buf ++ data }

/-- `push` of `rtcm_decoder_nats`, if all its accesses are in the buffer and nothing
    is trimmed. -/
def checkedPushNats (f : RtcmStreamFramer) (data : Bytes) (len : ℤ) : Option RtcmStreamFramer :=
  if len ≤ 0 then some f else checkedDrain { f with buf := f.buf ++ data.take len.toNat }

end RtcmStreamFramer

section Accesses

variable {p : Bytes} {k n : ℕ}

theorem getElem?_eq_byteAt (h : k < p.length) : p[k]? = some (byteAt p k) := by
  rw [byteAt, List.getD_eq_getElem?_getD, List.getElem?_eq_getElem h]
  rfl

theorem checkedBytes_succ (p : Bytes) (k n : ℕ) : checkedBytes p k (n + 1) =
    p[k]? >>= fun b => checkedBytes p (k + 1) n >>= fun bs => pure (b :: bs) := by
  have hshift : ((fun j => p[k + j]?) ∘ Nat.succ) = fun j => p[k + 1 + j]? := by
    funext j
    rw [Function.comp_apply, Nat.succ_eq_add_one, Nat.add_right_comm, Nat.add_assoc]
  rw [checkedBytes, checkedBytes, List.range_succ_eq_map, List.mapM_cons, List.mapM_map, hshift,
    Nat.add_zero]

/-- A checked copy within the buffer is the copy. -/
theorem checkedBytes_eq (h : k + n ≤ p.length) : checkedBytes p k n = some ((p.drop k).take n) := by
  induction n generalizing k with
  | zero => rfl
  | succ n ih =>
    have hk : k < p.length := by omega
    rw [checkedBytes_succ, ih (by omega), List.getElem?_eq_getElem hk, List.drop_eq_getElem_cons hk]
    rfl

/-- With a whole header, both length bytes are there. -/
theorem checkedPayloadLen_eq (h : 3 ≤ p.length) : checkedPayloadLen p = some (payloadLen p) := by
  rw [checkedPayloadLen, getElem?_eq_byteAt (by omega), getElem?_eq_byteAt (by omega)]
  rfl

/-- With a whole frame, all three check bytes are there. -/
theorem checkedGotCrc_eq (h : frameLen p ≤ p.length) :
    checkedGotCrc p (payloadLen p) = some (gotCrc p) := by
  rw [frameLen] at h
  rw [checkedGotCrc, getElem?_eq_byteAt (by omega), getElem?_eq_byteAt (by omega),
    getElem?_eq_byteAt (by omega)]
  rfl

end Accesses

namespace RtcmStreamFramer

/-- The loop reads in the buffer only. -/
theorem checkedScan_eq (f : RtcmStreamFramer) (i : ℕ) : f.checkedScan i = some (f.scan i) := by
  -- Behind the two tests of the loop, the header and then the frame are in the buffer.
  have hlen (f : RtcmStreamFramer) (i : ℕ) (h : ¬skipToPreamble f.buf i + 3 > f.buf.length) :
      3 ≤ (f.buf.drop (skipToPreamble f.buf i)).length := by
    rw [List.length_drop]
    omega
  have hcomplete (f : RtcmStreamFramer) (i : ℕ) (h : ¬skipToPreamble f.buf i + 3 > f.buf.length)
      (h' : ¬skipToPreamble f.buf i + frameLen (f.buf.drop (skipToPreamble f.buf i)) >
        f.buf.length) : frameLen (f.buf.drop (skipToPreamble f.buf i)) ≤
          (f.buf.drop (skipToPreamble f.buf i)).length := by
    rw [List.length_drop]
    omega
  fun_induction scan f i with
  | case1 f i j h => rw [checkedScan, if_pos h]
  | case2 f i j h p h' =>
    rw [checkedScan, if_neg h]
    show (checkedPayloadLen p >>= _) = _
    rw [checkedPayloadLen_eq (hlen f i h)]
    exact if_pos h'
  | case3 f i j h p h' hc ih =>
    have hp := hcomplete f i h h'
    rw [checkedScan, if_neg h]
    show (checkedPayloadLen p >>= _) = _
    rw [checkedPayloadLen_eq (hlen f i h)]
    refine (if_neg h').trans ?_
    rw [checkedGotCrc_eq hp, checkedBytes_eq (by rw [frameLen] at hp; omega)]
    refine (if_pos hc).trans ?_
    rw [checkedBytes_eq (by rw [frameLen] at hp; omega)]
    exact ih
  | case4 f i j h p h' hc ih =>
    have hp := hcomplete f i h h'
    rw [checkedScan, if_neg h]
    show (checkedPayloadLen p >>= _) = _
    rw [checkedPayloadLen_eq (hlen f i h)]
    refine (if_neg h').trans ?_
    rw [checkedGotCrc_eq hp, checkedBytes_eq (by rw [frameLen] at hp; omega)]
    exact (if_neg hc).trans ih

/-- No access of `drain` is outside of the buffer, in any state. -/
theorem checkedDrain_eq (f : RtcmStreamFramer) : f.checkedDrain = some f.drain := by
  rw [checkedDrain, checkedScan_eq, drain_eq]
  change (if (if _ then _ else _ : RtcmStreamFramer).buf.length > _ then none else _) = _
  rw [erase_scan]
  exact if_neg (length_rest_le_maxBuffer f.buf)

/-- Nor is any of `push`. -/
theorem checkedPush_eq (f : RtcmStreamFramer) (data : Bytes) :
    f.checkedPush data = some (f.push data) := by
  rw [checkedPush, push]
  split_ifs
  · rfl
  · exact checkedDrain_eq _

theorem checkedPushNats_eq (f : RtcmStreamFramer) (data : Bytes) (len : ℤ) :
    f.checkedPushNats data len = some (f.pushNats data len) := by
  rw [checkedPushNats, pushNats]
  split_ifs
  · rfl
  · exact checkedDrain_eq _

/-- What leaves the buffer is what the loop has passed. -/
theorem buf_drain (f : RtcmStreamFramer) : f.drain.buf = f.buf.drop (f.scan 0).2 := by
  have hs := f.scan_eq 0 (Nat.zero_le _)
  rw [List.drop_zero] at hs
  rw [drain_eq, hs, ← frames.rest_eq_drop]

/-! ## The invariant -/

/-- What is in the buffer of a framer that has received `s`: the end of `s`, an
    incomplete candidate for a frame. -/
structure Pending (s buf : Bytes) : Prop where
  suffix : buf <:+ s
  preamble : buf = [] ∨ buf.head? = some 0xD3
  incomplete : buf.length < 3 ∨ buf.length < frameLen buf
  length_le : buf.length ≤ 1028

/-- The framer waits for the rest of a candidate. -/
theorem incomplete_of_wait {p : Bytes} (h : frameVerdict p = .wait) :
    (p = [] ∨ p.head? = some 0xD3) ∧ (p.length < 3 ∨ p.length < frameLen p) := by
  rw [frameVerdict] at h
  split_ifs at h with h0 h1 h2 h3
  · exact ⟨.inl (List.eq_nil_of_length_eq_zero h0), .inl (by omega)⟩
  all_goals
    have hp : p.head? = some 0xD3 := by
      rw [List.head?_eq_getElem?, getElem?_eq_byteAt (by omega), not_not.1 h1]
  · exact ⟨.inr hp, .inl h2⟩
  · exact ⟨.inr hp, .inr h3⟩

/-- After any stream, the buffer holds what is pending of it. -/
theorem pending_framed (s : Bytes) : Pending s (framed s).buf where
  suffix := by
    rw [show (framed s).buf = frames.rest s from rfl, frames.rest_eq_drop]
    exact List.drop_suffix _ _
  preamble := (incomplete_of_wait (frames.verdict_rest s)).1
  incomplete := (incomplete_of_wait (frames.verdict_rest s)).2
  length_le := length_rest_le s

/-! ## Sequences of pushes -/

/-- Pushing into a fresh framer, for each `(data, len)` the `len` bytes at `data`. -/
def pushSized (ps : List (Bytes × ℤ)) : RtcmStreamFramer :=
  ps.foldl (fun f p => f.pushNats p.1 p.2) {}

/-- The stream these pushes add up to. -/
def sized (ps : List (Bytes × ℤ)) : Bytes := ps.flatMap fun p => p.1.take p.2.toNat

/-- Pieces with a length are the stream of what these lengths cover. -/
theorem pushSized_eq (ps : List (Bytes × ℤ)) : pushSized ps = framed (sized ps) :=
  foldl_framed (fun s p => pushNats_framed_take s p.1 p.2) ps

/-- In no run of `push` there is an access outside of the buffer. -/
theorem foldlM_checkedPush (ps : List Bytes) : ps.foldlM checkedPush {} = some (pushAll ps) := by
  rw [show checkedPush = fun f p => some (f.push p) from funext₂ checkedPush_eq]
  exact List.foldlM_pure

/-- Nor in any run of the framer of the other program. -/
theorem foldlM_checkedPushNats (ps : List (Bytes × ℤ)) :
    ps.foldlM (fun f p => f.checkedPushNats p.1 p.2) {} = some (pushSized ps) := by
  have h (f : RtcmStreamFramer) (p : Bytes × ℤ) :
      f.checkedPushNats p.1 p.2 = some (f.pushNats p.1 p.2) := checkedPushNats_eq f p.1 p.2
  simp only [h]
  exact List.foldlM_pure

/-- After every sequence of pushes the buffer holds an incomplete candidate, the end of
    what was received. No access of a push is outside the buffer, no push trims it, and
    only the loop takes bytes out of it. -/
theorem buffer_pending (ps : List Bytes) (qs : List (Bytes × ℤ)) :
    (Pending ps.flatten (pushAll ps).buf ∧ ps.foldlM checkedPush {} = some (pushAll ps)) ∧
      (Pending (sized qs) (pushSized qs).buf ∧
        qs.foldlM (fun f q => f.checkedPushNats q.1 q.2) {} = some (pushSized qs)) ∧
      ∀ f : RtcmStreamFramer, f.drain.buf = f.buf.drop (f.scan 0).2 := by
  refine ⟨⟨?_, foldlM_checkedPush ps⟩, ⟨?_, foldlM_checkedPushNats qs⟩, buf_drain⟩
  · rw [pushAll_eq]
    exact pending_framed _
  · rw [pushSized_eq]
    exact pending_framed _

end RtcmStreamFramer

end RtcmBridge

import RtcmBridge.Framer.Resync

/-!
# One stream after another

A framer that goes on with a new stream has bytes of the one before left: an
incomplete frame, and what came behind its preamble. Unless they capture
something of the new stream (`Captures`), the frames accepted are those that a
fresh framer accepts in each stream (`places`), at their places.
-/

namespace RtcmBridge

/-- A preamble at the offset `i`, of a candidate that the stream ends in. -/
structure Incomplete (s : Bytes) (i : ℕ) : Prop where
  preamble : byteAt s i = 0xD3
  short : s.length < i + 3 ∨ s.length < i + (3 + lengthAt s i + 3)

/-- The scanner waits at an incomplete candidate. -/
theorem verdict_of_incomplete {s : Bytes} {i : ℕ} (h : Incomplete s i) :
    frames.verdict (s.drop i) = .wait := by
  have hlen : (s.drop i).length = s.length - i := List.length_drop
  have hshort := h.short
  refine (frameVerdict_of_preamble fun _ => ?_).trans ?_
  · rw [byteAt_drop, Nat.add_zero, h.preamble]
  · rw [frameLen, payloadLen_drop, hlen]
    split_ifs
    · rfl
    · rfl
    all_goals omega

/-- Where no frame starts and no candidate is incomplete, the scanner goes on by
    one byte. -/
theorem verdict_of_neither {s : Bytes} {i : ℕ} (hi : i < s.length) (hf : ¬FrameAt s i)
    (hinc : ¬Incomplete s i) :
    ∃ x, frames.verdict (s.drop i) = .advance 1 x ∧ RtcmStreamFramer.payloadOf x = none := by
  have hlen : (s.drop i).length = s.length - i := List.length_drop
  rcases hv : frames.verdict (s.drop i) with _ | ⟨n, x⟩
  · exfalso
    change frameVerdict _ = _ at hv
    rw [frameVerdict, frameLen, payloadLen_drop, byteAt_drop, Nat.add_zero, hlen] at hv
    split_ifs at hv with h₀ h₁ h₂ h₃ h₄
    · omega
    · exact hinc ⟨not_not.1 h₁, .inl (by omega)⟩
    · exact hinc ⟨not_not.1 h₁, .inr (by omega)⟩
  · rcases hx : RtcmStreamFramer.payloadOf x with _ | q
    · obtain rfl := RtcmStreamFramer.len_eq_one hv hx
      exact ⟨x, rfl, hx⟩
    · cases x with
      | frame q' => exact absurd ((verdict_eq_frame_iff s i n q').1 hv).1 hf
      | garbage => exact absurd hx (by simp [RtcmStreamFramer.payloadOf])
      | badCrc => exact absurd hx (by simp [RtcmStreamFramer.payloadOf])

namespace RtcmStreamFramer

variable {s l m left body : Bytes} {i k : ℕ}

/-! ### Where frames are accepted -/

/-- The frames accepted of a stream whose head is at the offset `k`. -/
theorem accepted_add (k : ℕ) (s : Bytes) :
    ((frames.run (0 + k) s).1.filterMap fun x => (payloadOf x.out).map fun _ => x.off) =
      (accepted s).map (· + k) := by
  rw [frames.run_add, List.filterMap_map, accepted, List.map_filterMap]
  refine List.filterMap_congr fun x _ => ?_
  rcases hp : payloadOf x.out with _ | q <;> simp [hp]

/-- The framer goes on with what it has left. -/
theorem accepted_append (l m : Bytes) : accepted (l ++ m) = accepted l ++
    (accepted (frames.rest l ++ m)).map (· + (l.length - (frames.rest l).length)) := by
  rw [← accepted_add, accepted, frames.run_append, List.filterMap_append]
  rfl

/-- As long as the framer waits, nothing is accepted. -/
theorem accepted_of_wait (h : frames.verdict s = .wait) : accepted s = [] := by
  rw [accepted, frames.run_of_wait h]
  rfl

theorem accepted_nil : accepted [] = [] := accepted_of_wait rfl

/-- What is skipped only moves the accepted places. -/
theorem accepted_of_skip {n : ℕ} {x : Seen} (h : frames.verdict s = .advance n x)
    (hx : payloadOf x = none) : accepted s = (accepted (s.drop n)).map (· + n) := by
  rw [← accepted_add, accepted, frames.run_of_advance h,
    List.filterMap_cons_none (by rw [hx]; rfl)]

/-- A frame at the front is accepted. -/
theorem zero_mem_accepted (h : FrameAt s i) : 0 ∈ accepted (s.drop i) := by
  have hv := (verdict_eq_frame_iff s i _ _).2 ⟨h, rfl, rfl⟩
  rw [accepted, frames.run_of_advance hv]
  exact List.mem_cons_self

/-- Bytes at which no frame starts and no candidate is incomplete are passed over. -/
theorem accepted_of_neither (hk : k ≤ s.length)
    (h : ∀ i < k, ¬FrameAt s i ∧ ¬Incomplete s i) :
    accepted s = (accepted (s.drop k)).map (· + k) := by
  induction k with
  | zero => simp
  | succ k ih =>
    obtain ⟨hf, hinc⟩ := h k (Nat.lt_succ_self k)
    obtain ⟨x, hv, hx⟩ := verdict_of_neither hk hf hinc
    rw [ih (by omega) fun i hi => h i (by omega), accepted_of_skip hv hx, List.map_map,
      List.drop_drop]
    refine List.map_congr_left fun j _ => ?_
    change j + 1 + k = j + (k + 1)
    omega

/-! ### What is left of another stream -/

/-- A frame starts at the offset `i`, and no candidate before it is incomplete. -/
def Ready (s : Bytes) (i : ℕ) : Prop := FrameAt s i ∧ ∀ j < i, ¬Incomplete s j

/-- The bytes left of another stream capture something of the new stream: a frame
    starts with them, or one that is still incomplete holds up frames of the new
    stream. -/
def Captures (left body : Bytes) : Prop :=
  (∃ i < left.length, Ready (left ++ body) i) ∨
    ((∃ i < left.length, Incomplete (left ++ body) i) ∧ ∃ i, Ready body i)

/-- The first of the bytes left at which the scanner does not just go on. -/
theorem exists_first (left body : Bytes) :
    (∀ i < left.length, ¬FrameAt (left ++ body) i ∧ ¬Incomplete (left ++ body) i) ∨
    ∃ i < left.length, (FrameAt (left ++ body) i ∨ Incomplete (left ++ body) i) ∧
      ∀ j < i, ¬FrameAt (left ++ body) j ∧ ¬Incomplete (left ++ body) j := by
  classical
  by_cases h : ∃ i, i < left.length ∧ (FrameAt (left ++ body) i ∨ Incomplete (left ++ body) i)
  · obtain ⟨hlt, hi⟩ := Nat.find_spec h
    refine .inr ⟨Nat.find h, hlt, hi, fun j hj => ?_⟩
    have := Nat.find_min h hj
    push Not at this
    exact this (hj.trans hlt)
  · push Not at h
    exact .inl h

/-- Behind an incomplete candidate that no frame precedes, no frame is ready. -/
theorem not_ready_of_first {s : Bytes} (hinc : Incomplete s i) (hfirst : ∀ j < i, ¬FrameAt s j)
    (j : ℕ) : ¬Ready s j := by
  rintro ⟨hf, hwait⟩
  rcases lt_trichotomy i j with hlt | rfl | hlt
  · exact hwait i hlt hinc
  · exact absurd ((verdict_eq_frame_iff _ i _ _).2 ⟨hf, rfl, rfl⟩)
      (by rw [verdict_of_incomplete hinc]; simp)
  · exact hfirst j hlt hf

/-- A frame is accepted if some frame is ready. -/
theorem accepted_ne_nil_iff : accepted s ≠ [] ↔ ∃ i, Ready s i := by
  have hfirst := exists_first s []
  rw [List.append_nil] at hfirst
  rcases hfirst with hnone | ⟨i, hi, hf | hinc, hfirst⟩
  · rw [accepted_of_neither le_rfl hnone, List.drop_length]
    rw [accepted_nil]
    refine iff_of_false (not_not.2 rfl) ?_
    rintro ⟨i, hf, -⟩
    have := hf.contained
    exact (hnone i (by omega)).1 hf
  · rw [accepted_of_neither hi.le hfirst]
    refine iff_of_true ?_ ⟨i, hf, fun j hj => (hfirst j hj).2⟩
    exact List.ne_nil_of_mem (List.mem_map_of_mem (zero_mem_accepted hf))
  · rw [accepted_of_neither hi.le hfirst, accepted_of_wait (verdict_of_incomplete hinc)]
    refine iff_of_false (not_not.2 rfl) ?_
    rintro ⟨j, hj⟩
    exact not_ready_of_first hinc (fun j hj => (hfirst j hj).1) j hj

/-- If nothing is captured, the frames accepted are those of the new stream alone. -/
theorem accepted_of_not_captures (h : ¬Captures left body) :
    accepted (left ++ body) = (accepted body).map (· + left.length) := by
  rw [Captures, ← accepted_ne_nil_iff, not_or, not_and, not_not] at h
  have hle : left.length ≤ (left ++ body).length := (List.prefix_append left body).length_le
  rcases exists_first left body with hnone | ⟨i, hi, hf | hinc, hfirst⟩
  · rw [accepted_of_neither hle hnone, List.drop_left]
  · exact absurd ⟨i, hi, hf, fun j hj => (hfirst j hj).2⟩ h.1
  · rw [accepted_of_neither (hi.le.trans hle) hfirst, accepted_of_wait (verdict_of_incomplete hinc),
      h.2 ⟨i, hi, hinc⟩]
    rfl

/-- If something is captured, a frame is accepted that starts with the bytes left,
    or none at all though the new stream has some. -/
theorem accepted_of_captures (h : Captures left body) :
    (∃ i ∈ accepted (left ++ body), i < left.length) ∨
      accepted (left ++ body) = [] ∧ accepted body ≠ [] := by
  have hle : left.length ≤ (left ++ body).length := (List.prefix_append left body).length_le
  rcases exists_first left body with hnone | ⟨i, hi, hf | hinc, hfirst⟩
  · rcases h with ⟨i, hi, hf, -⟩ | ⟨⟨i, hi, hinc⟩, -⟩
    · exact absurd hf (hnone i hi).1
    · exact absurd hinc (hnone i hi).2
  · refine .inl ⟨i, ?_, hi⟩
    rw [accepted_of_neither (hi.le.trans hle) hfirst]
    exact List.mem_map.2 ⟨0, zero_mem_accepted hf, Nat.zero_add i⟩
  · rw [accepted_of_neither (hi.le.trans hle) hfirst, accepted_of_wait (verdict_of_incomplete hinc)]
    refine .inr ⟨rfl, ?_⟩
    rcases h with ⟨j, -, hj⟩ | ⟨-, hbody⟩
    -- No frame is ready behind the incomplete candidate.
    · exact absurd hj (not_ready_of_first hinc (fun j hj => (hfirst j hj).1) j)
    · exact accepted_ne_nil_iff.2 hbody

/-! ### Streams in a row -/

/-- The places, in streams one after the other, of the frames that a fresh framer
    accepts in each. -/
def places : List Bytes → List ℕ
  | [] => []
  | b :: bs => accepted b ++ (places bs).map (· + b.length)

/-- A piece adds the frames of its own, behind what came before. -/
theorem places_append (bs : List Bytes) (b : Bytes) :
    places (bs ++ [b]) = places bs ++ (accepted b).map (· + bs.flatten.length) := by
  induction bs with
  | nil => simp [places]
  | cons a bs ih =>
    simp only [List.cons_append, places, ih, List.map_append, List.map_map, List.append_assoc,
      List.flatten_cons, List.length_append]
    congr 3
    funext j
    change j + bs.flatten.length + a.length = j + (a.length + bs.flatten.length)
    omega

/-- A place in the stream is that of a frame within one of the pieces. -/
theorem mem_places {bs : List Bytes} {i : ℕ} : i ∈ places bs ↔ ∃ older b newer,
    bs = older ++ b :: newer ∧ ∃ j ∈ accepted b, i = older.flatten.length + j := by
  induction bs generalizing i with
  | nil => simp [places]
  | cons a bs ih =>
    rw [places, List.mem_append, List.mem_map]
    constructor
    · rintro (h | ⟨j, hj, rfl⟩)
      · exact ⟨[], a, bs, rfl, i, h, by simp⟩
      · obtain ⟨older, b, newer, rfl, k, hk, rfl⟩ := ih.1 hj
        exact ⟨a :: older, b, newer, rfl, k, hk, by simp; omega⟩
    · rintro ⟨_ | ⟨a', older⟩, b, newer, heq, j, hj, rfl⟩
      · obtain ⟨rfl, rfl⟩ := List.cons.inj heq
        exact .inl (by simpa using hj)
      · obtain ⟨rfl, rfl⟩ := List.cons.inj heq
        refine .inr ⟨older.flatten.length + j, ih.2 ⟨older, b, newer, rfl, j, hj, rfl⟩, ?_⟩
        simp
        omega

/-- The payload of a frame is in the stream that contains it. -/
theorem payloadAt_append {s : Bytes} {j : ℕ} (h : FrameAt s j) (m : Bytes) :
    payloadAt (s ++ m) j = payloadAt s j := by
  have hlen : lengthAt (s ++ m) j = lengthAt s j := by
    have := h.contained
    rw [lengthAt, lengthAt, byteAt_append (by omega), byteAt_append (by omega)]
  have := h.contained
  rw [payloadAt, payloadAt, hlen, List.drop_append_of_le_length (by omega),
    List.take_append_of_le_length (by rw [List.length_drop]; omega)]

theorem payloadAt_append_right (a s : Bytes) (j : ℕ) :
    payloadAt (a ++ s) (j + a.length) = payloadAt s j := by
  have hbyte (k : ℕ) : byteAt (a ++ s) (j + a.length + k) = byteAt s (j + k) := by
    rw [Nat.add_comm j, Nat.add_assoc, byteAt_append_right]
  have hdrop : (a ++ s).drop (j + a.length + 3) = s.drop (j + 3) := by
    rw [show j + a.length + 3 = a.length + (j + 3) by omega, List.drop_length_add_append]
  rw [payloadAt, payloadAt, lengthAt, lengthAt, hbyte, hbyte, hdrop]

/-- The frames accepted at these places are those that fresh framers decode. -/
theorem map_payloadAt_places (bs : List Bytes) :
    (places bs).map (payloadAt bs.flatten) = bs.flatMap fun b => (framed b).decoded := by
  induction bs with
  | nil => rfl
  | cons a bs ih =>
    rw [places, List.map_append, List.flatMap_cons, ← ih, decoded_eq_map_accepted, List.map_map,
      List.flatten_cons]
    refine congrArg₂ (· ++ ·) (List.map_congr_left fun j hj => ?_)
      (List.map_congr_left fun j _ => payloadAt_append_right a bs.flatten j)
    obtain ⟨x, hx, rfl, q, hq⟩ := mem_accepted hj
    exact payloadAt_append (frameAt_of_hit hx hq).1 _

/-- The frames accepted in streams one after the other are those of each alone. -/
def Unmixed (bs : List Bytes) : Prop := accepted bs.flatten = places bs

variable {bs : List Bytes} {b : Bytes}

/-- Without a frame across a seam, each piece is decoded as if it were alone. -/
theorem Unmixed.decoded (h : Unmixed bs) :
    (framed bs.flatten).decoded = bs.flatMap fun b => (framed b).decoded := by
  rw [decoded_eq_map_accepted, h, map_payloadAt_places]

/-- The frames accepted in one more stream. -/
theorem accepted_concat (bs : List Bytes) (b : Bytes) :
    accepted (bs ++ [b]).flatten = accepted bs.flatten ++
      (accepted (frames.rest bs.flatten ++ b)).map
        (· + (bs.flatten.length - (frames.rest bs.flatten).length)) := by
  rw [List.flatten_append, List.flatten_singleton, accepted_append]

theorem Unmixed.concat_nil (h : Unmixed bs) : Unmixed (bs ++ [[]]) := by
  rw [Unmixed, places_append, accepted_nil, List.flatten_append, List.flatten_singleton,
    List.append_nil, List.map_nil, List.append_nil]
  exact h

/-- One more stream, of which nothing is captured. -/
theorem Unmixed.concat (h : Unmixed bs) (hc : ¬Captures (frames.rest bs.flatten) b) :
    Unmixed (bs ++ [b]) := by
  have hle := frames.length_rest_le bs.flatten
  rw [Unmixed, accepted_concat, places_append, accepted_of_not_captures hc, List.map_map, h]
  refine congrArg _ (List.map_congr_left fun j _ => ?_)
  change j + (frames.rest bs.flatten).length + _ = j + bs.flatten.length
  omega

/-- One more stream, of which something is captured: other payloads are decoded,
    or a frame is none of a stream alone. -/
theorem not_separate_of_captures (h : Unmixed bs) (hc : Captures (frames.rest bs.flatten) b)
    (hdec : (framed (bs ++ [b]).flatten).decoded =
      (bs ++ [b]).flatMap fun b => (framed b).decoded) :
    ∃ i ∈ accepted (bs ++ [b]).flatten, i ∉ places (bs ++ [b]) := by
  have hle := frames.length_rest_le bs.flatten
  rcases accepted_of_captures hc with ⟨i, hi, hlt⟩ | ⟨hnone, hsome⟩
  · set j := i + (bs.flatten.length - (frames.rest bs.flatten).length) with hj
    have hmem : j ∈ (accepted (frames.rest bs.flatten ++ b)).map
        (· + (bs.flatten.length - (frames.rest bs.flatten).length)) := List.mem_map_of_mem hi
    refine ⟨j, by rw [accepted_concat]; exact List.mem_append_right _ hmem, fun hp => ?_⟩
    rw [places_append, List.mem_append, ← h] at hp
    rcases hp with hp | hp
    -- It would be accepted twice.
    · have hpair := pairwise_accepted (bs ++ [b]).flatten
      rw [accepted_concat] at hpair
      have := (List.pairwise_append.1 hpair).2.2 j hp j hmem
      omega
    · obtain ⟨k, -, hk⟩ := List.mem_map.1 hp
      change k + bs.flatten.length = j at hk
      omega
  -- No payload is decoded of the new stream.
  · have hlen := congrArg List.length hdec
    rw [← map_payloadAt_places, decoded_eq_map_accepted, List.length_map, List.length_map,
      accepted_concat, hnone, places_append, h, List.length_append, List.length_append,
      List.length_map, List.length_map, List.length_nil] at hlen
    exact absurd (List.length_eq_zero_iff.1 (by omega)) hsome

end RtcmStreamFramer

end RtcmBridge

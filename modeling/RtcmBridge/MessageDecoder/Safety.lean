import RtcmBridge.MessageDecoder.Basic
import RtcmBridge.Msm.Safety
import RtcmBridge.Msm.Vectors
import Mathlib.Tactic

/-!
# The message decoder is safe

Whatever a payload contains, its decoding is defined (`decode_defined`): the
decoders of all messages are safe, each as its readings are, and so is the
dispatcher.
-/

namespace RtcmBridge

open BitReader

/-- `read_ascii` never reads past the payload: it stops there. -/
theorem safe_readAscii (chars : ℕ) : Safe (readAscii chars) fun _ => True := by
  induction chars with
  | zero => exact .pure trivial
  | succ chars ih =>
    have hget : Safe (getU 8) fun _ => True := by
      intro br l hat
      by_cases h : 8 ≤ l.length
      · obtain ⟨br', hget, hat'⟩ := getU_of_le (n := 8) hat (by decide) h
        exact .inl ⟨_, br', _, hget, hat', trivial⟩
      · exact .inl ⟨none, br, l, getU_of_lt (n := 8) hat (by decide) (by omega), hat, trivial⟩
    refine hget.bind fun c _ => ?_
    rcases c with _ | c
    · exact .pure trivial
    · exact ih.bind fun out _ => .pure trivial

namespace RtcmMessageDecoder

/-- An error is written, too. -/
theorem printing_ok {br : BitReader} {l : List Bool} (items : List Item) {x : Reading (List Item)}
    (hx : Safe x fun _ => True) (hat : br.At l) :
    ∃ more br' l', printing items x br = .ok (items ++ more, br') ∧ br'.At l' := by
  rcases hx br l hat with ⟨more, br', l', h, hat', _⟩ | ⟨text, h⟩
  · exact ⟨more, br', l', by rw [printing, h], hat'⟩
  · exact ⟨[.error text], br, l, by rw [printing, h], hat⟩

/-- Printing before a safe reading is safe. -/
theorem safe_printing (items : List Item) {x : Reading (List Item)} (hx : Safe x fun _ => True) :
    Safe (printing items x) fun _ => True := by
  intro br l hat
  obtain ⟨more, br', l', h, hat'⟩ := printing_ok items hx hat
  exact .inl ⟨_, br', l', h, hat', trivial⟩

theorem safe_decode1005_1006 (type : ℕ) : Safe (decode1005_1006 type) fun _ => True := by
  rw [decode1005_1006]
  split_ifs with _ h
  · exact .pure trivial
  all_goals
    refine Safe.bind_getU (by decide) fun _ => ?_
    refine Safe.bind_getU (by decide) fun _ => ?_
    refine Safe.bind_getU (by decide) fun _ => ?_
    refine Safe.bind_getU (by decide) fun _ => ?_
    refine Safe.bind_getU (by decide) fun _ => ?_
    refine Safe.bind_getU (by decide) fun _ => ?_
    refine Safe.bind_getS (by decide) fun _ => ?_
    refine Safe.bind_getU (by decide) fun _ => ?_
    refine Safe.bind_getU (by decide) fun _ => ?_
    refine Safe.bind_getS (by decide) fun _ => ?_
    refine Safe.bind_getU (by decide) fun _ => ?_
    refine Safe.bind_getS (by decide) fun _ => ?_
    refine (safe_printing _ ?_).map _
  · exact Safe.bind_getU (by decide) fun _ => .pure trivial
  · exact .pure trivial

theorem safe_decode1007_1008 (type : ℕ) : Safe (decode1007_1008 type) fun _ => True := by
  rw [decode1007_1008]
  split_ifs with _ h
  · exact .pure trivial
  all_goals
    refine Safe.bind_getU (by decide) fun _ => ?_
    refine Safe.bind_getU (by decide) fun _ => ?_
    refine (safe_readAscii _).bind fun _ _ => ?_
    refine Safe.bind_getU (by decide) fun _ => ?_
    refine (safe_printing _ ?_).map _
  · refine Safe.bind_getU (by decide) fun _ => ?_
    exact (safe_readAscii _).bind fun _ _ => .pure trivial
  · exact .pure trivial

theorem safe_decode1033 (type : ℕ) : Safe (decode1033 type) fun _ => True := by
  rw [decode1033]
  split_ifs
  · exact .pure trivial
  refine Safe.bind_getU (by decide) fun _ => ?_
  refine Safe.bind_getU (by decide) fun _ => ?_
  refine (safe_readAscii _).bind fun _ _ => ?_
  refine Safe.bind_getU (by decide) fun _ => ?_
  refine Safe.bind_getU (by decide) fun _ => ?_
  refine (safe_readAscii _).bind fun _ _ => ?_
  refine Safe.bind_getU (by decide) fun _ => ?_
  refine (safe_readAscii _).bind fun _ _ => ?_
  refine Safe.bind_getU (by decide) fun _ => ?_
  refine (safe_readAscii _).bind fun _ _ => ?_
  refine Safe.bind_getU (by decide) fun _ => ?_
  exact (safe_readAscii _).bind fun _ _ => .pure trivial

/-- An announcement is read or reported, and never asks for anything undefined. -/
theorem settles_readAnnouncement : Settles readAnnouncement fun _ => True := by
  unfold readAnnouncement
  refine (Settles.getU _ (by decide)).bind fun _ _ => ?_
  refine (Settles.getU _ (by decide)).bind fun _ _ => ?_
  exact (Settles.getU _ (by decide)).bind fun _ _ => .pure trivial

theorem safe_decode1013 (type : ℕ) : Safe (decode1013 type) fun _ => True := by
  rw [decode1013]
  split_ifs
  · exact .pure trivial
  refine Safe.bind_getU (by decide) fun _ => ?_
  refine Safe.bind_getU (by decide) fun _ => ?_
  refine Safe.bind_getU (by decide) fun _ => ?_
  refine Safe.bind_getU (by decide) fun _ => ?_
  refine (safe_printing _ ?_).map _
  exact (Settles.mapM _ fun _ _ => settles_readAnnouncement).safe.bind fun _ _ => .pure trivial

theorem safe_decode1019 (type : ℕ) : Safe (decode1019 type) fun _ => True := by
  rw [decode1019]
  split_ifs
  · exact .pure trivial
  refine Safe.bind_getU (by decide) fun _ => ?_
  refine Safe.bind_getU (by decide) fun _ => ?_
  refine Safe.bind_getU (by decide) fun _ => ?_
  refine Safe.bind_getU (by decide) fun _ => ?_
  refine Safe.bind_getS (by decide) fun _ => ?_
  exact Safe.bind_getU (by decide) fun _ => .pure trivial

theorem safe_decode1020 (type : ℕ) : Safe (decode1020 type) fun _ => True := by
  rw [decode1020]
  split_ifs
  · exact .pure trivial
  refine Safe.bind_getU (by decide) fun _ => ?_
  refine Safe.bind_getU (by decide) fun _ => ?_
  refine Safe.bind_getU (by decide) fun _ => ?_
  refine Safe.bind_getU (by decide) fun _ => ?_
  exact Safe.bind_getU (by decide) fun _ => .pure trivial

theorem safe_decode1045_1046 (type : ℕ) : Safe (decode1045_1046 type) fun _ => True := by
  rw [decode1045_1046]
  split_ifs
  · exact .pure trivial
  refine Safe.bind_getU (by decide) fun _ => ?_
  refine Safe.bind_getU (by decide) fun _ => ?_
  refine Safe.bind_getU (by decide) fun _ => ?_
  exact Safe.bind_getU (by decide) fun _ => .pure trivial

theorem safe_decode1230 (type : ℕ) : Safe (decode1230 type) fun _ => True := by
  rw [decode1230]
  split_ifs
  · exact .pure trivial
  refine Safe.bind_getU (by decide) fun _ => ?_
  refine Safe.bind_getU (by decide) fun _ => ?_
  exact Safe.bind_getU (by decide) fun _ => .pure trivial

/-- The MSM decoder is safe for every type, as `decode_msm` is. -/
theorem safe_decodeMsm (type : ℕ) : Safe (decodeMsm type) fun _ => True :=
  (Msm.settles_decodeMsm type).safe.bind fun _ _ => .pure trivial

/-- A dispatch over safe decoders is safe. -/
theorem safe_dispatch (type : ℕ) {decoders : List (ℕ → Reading (Option (List Item)))}
    (h : ∀ decoder ∈ decoders, Safe (decoder type) fun _ => True) :
    Safe (dispatch type decoders) fun _ => True := by
  induction decoders with
  | nil => exact .pure trivial
  | cons decoder decoders ih =>
    refine (h decoder (List.mem_cons_self ..)).bind fun items _ => ?_
    rcases items with _ | items
    · exact ih fun d hd => h d (List.mem_cons_of_mem _ hd)
    · exact .pure trivial

/-- Every decoder of the program is safe. -/
theorem safe_decoders (type : ℕ) : ∀ decoder ∈ decoders, Safe (decoder type) fun _ => True := by
  simp only [decoders, List.forall_mem_cons]
  exact ⟨safe_decode1005_1006 type, safe_decode1007_1008 type, safe_decode1033 type,
    safe_decode1013 type, safe_decode1019 type, safe_decode1020 type, safe_decode1045_1046 type,
    safe_decode1230 type, safe_decodeMsm type, fun _ h => absurd h List.not_mem_nil⟩

/-- Every payload of a frame is decoded without an undefined access, and so it is
    with the vectors of `decode_msm`. -/
theorem decode_defined {payload : Bytes} (h : payload.length ≤ 1023) :
    (∃ items, decode payload = .ok items) ∧
      ∀ type, Msm.decodeMsmStoring type = Msm.decodeMsm type := by
  refine ⟨?_, congrFun Msm.decodeMsmStoring_eq⟩
  rw [decode]
  split_ifs with hshort
  · exact ⟨_, rfl⟩
  have hat : (BitReader.new payload).At (bitsOf payload) := at_new (by omega)
  obtain ⟨br, hget, hat⟩ := getU_of_le (n := 12) hat (by decide) (by rw [length_bitsOf]; omega)
  obtain ⟨more, br', _, hread, _⟩ :=
    printing_ok (headItems _ payload.length) (safe_dispatch _ (safe_decoders _)) hat
  have hpayload : readPayload payload.length (.new payload) = .ok (_, br') :=
    (bind_ok hget).trans hread
  exact ⟨_, by rw [StateT.run', hpayload]; rfl⟩

/-- A message of type 1077 that ends within its header. -/
theorem decode_defined_short :
    [0x43, 0x50, 0x00].length ≤ 1023 ∧ ∃ items, decode [0x43, 0x50, 0x00] = .ok items :=
  ⟨by decide, (@decode_defined [0x43, 0x50, 0x00] (by decide)).1⟩

end RtcmMessageDecoder

end RtcmBridge

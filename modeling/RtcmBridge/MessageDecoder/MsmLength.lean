import RtcmBridge.MessageDecoder.Dispatch
import RtcmBridge.Msm.Length
import Mathlib.Tactic

/-!
# The summary of a MSM message

The summary of a MSM message has a line for each cell, or it is an error and
nothing else (`decode_msm_length`): which of the two, is decided by the length of
the payload and by the masks.
-/

namespace RtcmBridge.RtcmMessageDecoder

variable {payload : Bytes} {items : List Item} {c : Char}

namespace Item

/-- The error of a decoder. -/
def isError : Item → Bool
  | error _ => true
  | _ => false

/-- The line of a cell. -/
def isObservation : Item → Bool
  | observation .. => true
  | _ => false

/-- The field of the station. -/
def isStation : Item → Bool
  | number key _ => key == " staid="
  | _ => false

end Item

/-! ### The lines of the cells -/

/-- Exactly the observations are observation lines: the headings between them are not. -/
theorem countP_reportLines (last : ℤ) (obs : List Msm.Observation) :
    (reportLines c last obs).countP Item.isObservation = obs.length := by
  induction obs generalizing last with
  | nil => rfl
  | cons o obs ih =>
    rw [reportLines, List.countP_append, List.countP_cons_of_pos rfl, ih, List.length_cons]
    split_ifs <;> simp [Item.isObservation]

/-- No line of a report is an error. -/
theorem any_isError_reportLines (last : ℤ) (obs : List Msm.Observation) :
    (reportLines c last obs).any Item.isError = false := by
  induction obs generalizing last with
  | nil => rfl
  | cons o obs ih =>
    rw [reportLines, List.any_append, List.any_cons, ih]
    split_ifs <;> rfl

/-! ### The summary -/

/-- The head of the line is neither an error, nor a station, nor an observation. -/
theorem headItems_plain (type len : ℕ) : ∀ item ∈ headItems type len,
    item.isError = false ∧ item.isStation = false ∧ item.isObservation = false := by
  rw [headItems]
  split_ifs <;> simp [Item.isError, Item.isStation, Item.isObservation]

theorem any_isError_headItems (type len : ℕ) : (headItems type len).any Item.isError = false :=
  List.any_eq_false.2 fun item hitem => Bool.eq_false_iff.1 (headItems_plain type len item hitem).1

theorem countP_headItems (type len : ℕ) :
    (headItems type len).countP Item.isObservation = 0 :=
  List.countP_eq_zero.2 fun item hitem =>
    Bool.eq_false_iff.1 (headItems_plain type len item hitem).2.2

/-- A report that is printed has no error in it. -/
theorem any_isError_reportItems (report : Msm.Report) :
    (reportItems c report).any Item.isError = false := by
  rw [reportItems, List.any_append, any_isError_reportLines]
  rfl

/-- A report prints as many observation lines as it has observations. -/
theorem countP_reportItems (report : Msm.Report) :
    (reportItems c report).countP Item.isObservation = report.observations.length := by
  rw [reportItems, List.countP_append, countP_reportLines]
  exact Nat.zero_add _

/-- There is an observation for each cell. -/
theorem length_observations {type : ℕ} {bits : List Bool}
    (h : Msm.neededBits type bits ≤ bits.length) :
    (Msm.reportOf type bits).observations.length = Msm.ncellsOf bits := by
  rw [Msm.neededBits] at h
  have hmask : (Msm.cellMaskOf bits).length = Msm.nsatOf bits * Msm.nsigOf bits :=
    length_slice (by omega)
  have hcells := Msm.length_presentCells hmask
  have hhead : 169 ≤ bits.length := by omega
  simp only [Msm.reportOf, Msm.Report.ofBlocks, List.length_map, List.length_zipWith, length_cut,
    Msm.nsat_ofBits hhead, Msm.nsig_ofBits hhead, hcells, Nat.min_self]
  rfl

/-- The summary of a payload that is long enough, with more bytes behind it or not. -/
theorem decode_msm_of_needed (htype : Msm.Supported (messageType payload))
    (hneed : Msm.neededBits (messageType payload) (bitsOf payload) ≤ 8 * payload.length)
    (more : Bytes) (hroom : 8 * (payload ++ more).length + 64 < 2 ^ 64) :
    decode (payload ++ more) =
      .ok (headItems (messageType payload) (payload ++ more).length ++
        reportItems (constellationCode (messageType payload))
          (Msm.reportOf (messageType payload) (bitsOf payload))) := by
  have h₂ : 2 ≤ payload.length := two_le_length ((by decide : 2 ^ 8 ≤ 1071).trans htype.1.1)
  have hlen : 2 ≤ (payload ++ more).length := by rw [List.length_append]; omega
  have hbits : (bitsOf payload).length = 8 * payload.length := length_bitsOf _
  have hread : Reads (decodeMsm (messageType payload))
      (slice (bitsOf payload) 12 (Msm.neededBits (messageType payload) (bitsOf payload) - 12))
      (some (reportItems (constellationCode (messageType payload))
        (Msm.reportOf (messageType payload) (bitsOf payload)))) :=
    (Msm.reads_of_needed htype (hneed.trans hbits.ge)).bind_end (Reads.pure _)
  rw [← messageType_append h₂ more] at hread htype ⊢
  refine decode_of_reads hlen hroom (decodesMsm htype.1) hread ?_
  rw [bitsOf_append, List.drop_append_of_le_length (by omega)]
  exact (List.take_prefix ..).trans (List.prefix_append ..)

/-- A MSM message is decoded as a whole or not at all, and its length decides it. -/
theorem decode_msm_length (htype : Msm.Supported (messageType payload))
    (hroom : 8 * payload.length + 64 < 2 ^ 64) : ∃ items, decode payload = .ok items ∧
    (items.any Item.isError = true ↔ 8 * payload.length < 169 ∨
      8 * payload.length < Msm.neededBits (messageType payload) (bitsOf payload)) ∧
    (items.any Item.isError = true →
      ∀ item ∈ items, item.isStation = false ∧ item.isObservation = false) ∧
    (items.any Item.isError = false →
      items.countP Item.isObservation = Msm.ncellsOf (bitsOf payload) ∧
      ∃ rest, items = headItems (messageType payload) payload.length ++ rest ∧
        ∀ more, 8 * (payload ++ more).length + 64 < 2 ^ 64 → decode (payload ++ more) =
          .ok (headItems (messageType payload) (payload ++ more).length ++ rest)) := by
  have h₂ : 2 ≤ payload.length := two_le_length ((by decide : 2 ^ 8 ≤ 1071).trans htype.1.1)
  have hbits : (bitsOf payload).length = 8 * payload.length := length_bitsOf _
  by_cases hshort : 8 * payload.length < 169 ∨
      8 * payload.length < Msm.neededBits (messageType payload) (bitsOf payload)
  · -- Bits are missing: an error follows the head of the line.
    obtain ⟨text, htext⟩ := Msm.error_of_needed htype h₂ hshort
    refine ⟨_, decode_of_error h₂ hroom (decodesMsm htype.1) fun br hat =>
      bind_error (htext br hat), ?_, fun _ => ?_, fun h => ?_⟩
    · simp [Item.isError, hshort]
    · simp only [List.forall_mem_append, List.forall_mem_singleton]
      exact ⟨fun item hitem => (headItems_plain _ _ item hitem).2, rfl, rfl⟩
    · simp [Item.isError] at h
  · -- The message is long enough, whatever follows it.
    have hneed : Msm.neededBits (messageType payload) (bitsOf payload) ≤ 8 * payload.length := by
      omega
    have hdecode := decode_msm_of_needed htype hneed
    have hnil := hdecode [] (by rwa [List.append_nil])
    rw [List.append_nil] at hnil
    have hok : (headItems (messageType payload) payload.length ++
        reportItems (constellationCode (messageType payload))
          (Msm.reportOf (messageType payload) (bitsOf payload))).any Item.isError = false := by
      rw [List.any_append, any_isError_headItems, any_isError_reportItems]
      rfl
    refine ⟨_, hnil, ?_, fun h => ?_, fun _ => ⟨?_, _, rfl, hdecode⟩⟩
    · rw [hok]
      exact iff_of_false Bool.false_ne_true hshort
    · exact absurd h (by rw [hok]; exact Bool.false_ne_true)
    · rw [List.countP_append, countP_headItems, countP_reportItems,
        length_observations (hneed.trans hbits.ge), Nat.zero_add]

/-- A GPS MSM4 message of the satellites 1 and 2 with the signal 2, which is present
    for the first of them. -/
def oneCell : Bytes :=
  [0x43, 0x20, 0, 0, 0, 0, 0, 0, 0, 0x60, 0, 0, 0, 0, 0, 0, 0, 0x20, 0, 0, 0, 0x40, 0, 0, 0, 0, 0,
    0, 0, 0, 0, 0]

theorem decode_msm_length_oneCell : Msm.Supported (messageType oneCell) ∧
    8 * oneCell.length + 64 < 2 ^ 64 ∧ ∃ items, decode oneCell = .ok items ∧
      items.any Item.isError = false ∧ items.countP Item.isObservation = 1 := by
  obtain ⟨items, hdecode, herror, _, hok⟩ :=
    @decode_msm_length oneCell (by decide) (by decide)
  have hplain : items.any Item.isError = false :=
    Bool.eq_false_iff.2 fun h => absurd (herror.1 h) (by decide)
  exact ⟨by decide, by decide, items, hdecode, hplain, (hok hplain).1.trans (by decide)⟩

end RtcmBridge.RtcmMessageDecoder

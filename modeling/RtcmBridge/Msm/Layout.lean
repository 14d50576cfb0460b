import RtcmBridge.Fields
import RtcmBridge.Msm.Read
import Mathlib.Tactic

/-!
# The layout of the MSM messages

A MSM message as it is encoded: behind the header and the masks, the data of the
satellites and the data of the signals stand *field by field*, first the first
fields of all satellites (or cells), then the second ones, and so on.
`decode_msm` reads them record by record (`Msm.Read`), so it recovers a message
if and only if the two arrangements coincide on the fields that it reports
(`recovers_iff`). They do if there is at most one satellite and at most one
cell; with any other masks, some messages are misread (`layout_recovered_iff`).
-/

namespace RtcmBridge

namespace Msm

/-! ### Messages -/

/-- The number of ones in a mask. -/
def ones {w : ℕ} (mask : BitVec w) : ℕ := (fieldBits mask).count true

/-- The type and the masks of a message that fits in one frame. -/
structure Shape where
  type : ℕ
  family : 107 ≤ type / 10 ∧ type / 10 ≤ 112
  level : 4 ≤ type % 10 ∧ type % 10 ≤ 7
  satMask : BitVec 64
  sigMask : BitVec 32
  cellMask : List Bool
  length_cellMask : cellMask.length = ones satMask * ones sigMask
  fits : 12 + headerWidths.sum + cellMask.length +
    ones satMask * (Level.ofType type).satWidths.sum +
    cellMask.count true * (Level.ofType type).cellWidths.sum ≤ 8 * 1023

namespace Shape

variable (sh : Shape)

/-- The level of the message. -/
abbrev lv : Level := .ofType sh.type

/-- The number of satellites. -/
def nsat : ℕ := ones sh.satMask

/-- The number of signals. -/
def nsig : ℕ := ones sh.sigMask

/-- The number of cells that are present. -/
def ncells : ℕ := sh.cellMask.count true

end Shape

/-- The fields of a satellite. -/
structure SatData (lv : Level) where
  ms : BitVec 8
  extInfo : BitVec (lv.rateBits 4)
  mod : BitVec 10
  rate : BitVec (lv.rateBits 14)

/-- The fields of a satellite. -/
def SatData.fields {lv : Level} (s : SatData lv) : List (List Bool) :=
  [fieldBits s.ms, fieldBits s.extInfo, fieldBits s.mod, fieldBits s.rate]

/-- The fields of a cell. -/
structure CellData (lv : Level) where
  finePr : BitVec lv.prBits
  fineCp : BitVec lv.cpBits
  lock : BitVec lv.lockBits
  half : BitVec 1
  cnr : BitVec lv.cnrBits
  rate : BitVec (lv.rateBits 15)

namespace CellData

variable {lv : Level} (d : CellData lv)

/-- The fields of a cell. -/
def fields : List (List Bool) :=
  [fieldBits d.finePr, fieldBits d.fineCp, fieldBits d.lock, fieldBits d.half, fieldBits d.cnr,
    fieldBits d.rate]

/-- What is to be reported of the cell `c`. -/
def obsCell (c : ℕ × ℕ) : ObsCell where
  satIdx := c.1
  sigIdx := c.2
  finePr := d.finePr.toInt
  fineCp := d.fineCp.toInt
  lock := .ofNat d.lock.toNat
  half := .ofNat d.half.toNat
  cnrRaw := .ofNat d.cnr.toNat

end CellData

/-- The values of the fields of a message. -/
structure Message (sh : Shape) where
  station : BitVec 12
  epoch : BitVec 30
  multiple : BitVec 1
  iods : BitVec 3
  reserved : BitVec 7
  clkSteering : BitVec 2
  extClock : BitVec 2
  smoothing : BitVec 1
  smoothInterval : BitVec 3
  sats : List (SatData sh.lv)
  length_sats : sats.length = sh.nsat
  cells : List (CellData sh.lv)
  length_cells : cells.length = sh.ncells

namespace Message

variable {sh : Shape} (m : Message sh)

/-- The fields of the header, and the masks. -/
def headFields : List (List Bool) :=
  [fieldBits m.station, fieldBits m.epoch, fieldBits m.multiple, fieldBits m.iods,
    fieldBits m.reserved, fieldBits m.clkSteering, fieldBits m.extClock, fieldBits m.smoothing,
    fieldBits m.smoothInterval, fieldBits sh.satMask, fieldBits sh.sigMask]

/-- The data of the satellites, field by field. -/
def satBlock : List Bool := byField sh.lv.satWidths (m.sats.map SatData.fields)

/-- The data of the cells, field by field. -/
def cellBlock : List Bool := byField sh.lv.cellWidths (m.cells.map CellData.fields)

/-- The message in the layout of the standard. -/
def bits : List Bool :=
  natBits 12 sh.type ++ (m.headFields.flatten ++ (sh.cellMask ++ (m.satBlock ++ m.cellBlock)))

/-- The payload of the frame. -/
def payload : Bytes := pack m.bits

/-- `decode_msm` reports no error, and all rough ranges and cells as they were encoded. -/
def Recovers : Prop :=
  ∃ br br' report, BitReader.getU 12 (.new m.payload) = .ok (some (.ofNat sh.type), br) ∧
    decodeMsm sh.type br = .ok (some report, br') ∧
    report.roughMsWhole = m.sats.map (fun s => .ofNat s.ms.toNat) ∧
    report.roughMod1_1024 = m.sats.map (fun s => .ofNat s.mod.toNat) ∧
    report.cells = List.zipWith (fun c d => d.obsCell c) (presentCells sh.nsat sh.nsig sh.cellMask)
      m.cells

/-- The fields that are reported have the same contents whether the block of the
    satellites and the block of the cells are arranged field by field or record
    by record. -/
def Coincident : Prop :=
  Coincides sh.lv.satWidths [0, 2] sh.nsat m.satBlock ∧
    Coincides sh.lv.cellWidths [0, 1, 2, 3, 4] sh.ncells m.cellBlock

end Message

/-! ### Records -/

variable {lv : Level}

theorem SatData.fits (s : SatData lv) : Fits lv.satWidths s.fields := by
  simp [Fits, SatData.fields, Level.satWidths]

theorem CellData.fits (d : CellData lv) : Fits lv.cellWidths d.fields := by
  simp [Fits, CellData.fields, Level.cellWidths]

/-- A satellite is read as it was sent exactly if the reported fields are in place. -/
theorem satOfBits_eq_iff {part : List Bool} (s : SatData lv)
    (h : ∀ j ∈ [0, 2], (field lv.satWidths j part).length = lv.satWidths.getD j 0) :
    satOfBits lv part = (.ofNat s.ms.toNat, .ofNat s.mod.toNat) ↔
      ∀ j ∈ [0, 2], field lv.satWidths j part = s.fields.getD j [] := by
  have h0 := h 0 (by decide)
  have h2 := h 2 (by decide)
  rw [satOfBits, Prod.mk.injEq, unsigned_eq_iff s.ms h0 (by decide),
    unsigned_eq_iff s.mod h2 (by decide)]
  simp [SatData.fields]

/-- So is a cell. -/
theorem obsCell_eq_iff {part : List Bool} (c : ℕ × ℕ) (d : CellData lv)
    (h : ∀ j ∈ [0, 1, 2, 3, 4], (field lv.cellWidths j part).length = lv.cellWidths.getD j 0) :
    ObsCell.ofBits lv c part = d.obsCell c ↔
      ∀ j ∈ [0, 1, 2, 3, 4], field lv.cellWidths j part = d.fields.getD j [] := by
  have h0 := h 0 (by decide)
  have h1 := h 1 (by decide)
  have h2 := h 2 (by decide)
  have h3 := h 3 (by decide)
  have h4 := h 4 (by decide)
  rw [ObsCell.ofBits, CellData.obsCell, ObsCell.mk.injEq, signed_eq_iff d.finePr h0,
    signed_eq_iff d.fineCp h1, unsigned_eq_iff d.lock h2 (lockBits_le lv),
    unsigned_eq_iff d.half h3 (by decide), unsigned_eq_iff d.cnr h4 (cnrBits_le lv)]
  simp [CellData.fields]

/-! ### Messages -/

namespace Message

variable {sh : Shape} (m : Message sh)

theorem fits_headFields : Fits headerWidths m.headFields := by
  simp [Fits, headFields, headerWidths]

/-- Both arrangements of the satellites take as many bits. -/
theorem length_satBlock : m.satBlock.length = sh.nsat * sh.lv.satWidths.sum := by
  have hfits : ∀ row ∈ m.sats.map SatData.fields, Fits sh.lv.satWidths row := by
    simpa using fun s _ => SatData.fits s
  rw [satBlock, length_byField hfits, List.length_map, m.length_sats]

/-- So do those of the cells. -/
theorem length_cellBlock : m.cellBlock.length = sh.ncells * sh.lv.cellWidths.sum := by
  have hfits : ∀ row ∈ m.cells.map CellData.fields, Fits sh.lv.cellWidths row := by
    simpa using fun d _ => CellData.fits d
  rw [cellBlock, length_byField hfits, List.length_map, m.length_cells]

/-- The message fits in one frame. -/
theorem length_payload_le : m.payload.length ≤ 1023 := by
  have hfits : 12 + headerWidths.sum + sh.cellMask.length + sh.nsat * sh.lv.satWidths.sum +
      sh.ncells * sh.lv.cellWidths.sum ≤ 8 * 1023 := sh.fits
  have hlen : m.bits.length = 12 + headerWidths.sum + sh.cellMask.length +
      sh.nsat * sh.lv.satWidths.sum + sh.ncells * sh.lv.cellWidths.sum := by
    rw [bits, List.length_append, List.length_append, List.length_append, List.length_append,
      length_natBits, m.fits_headFields.length_flatten, m.length_satBlock, m.length_cellBlock]
    ring
  rw [payload, length_pack, hlen]
  exact Nat.lt_succ_iff.1 (Nat.div_lt_of_lt_mul (by omega))

/-- The header read back has as many satellites as the mask has ones. -/
theorem nsat_headFields : (Header.ofBits m.headFields.flatten).nsat = sh.nsat := by
  have hmask : (Header.ofBits m.headFields.flatten).satMask = .ofNat sh.satMask.toNat :=
    (unsigned_eq_iff sh.satMask
      (by rw [field_flatten m.fits_headFields (by decide)]; simp [headFields])
      (by decide)).2 (field_flatten m.fits_headFields (by decide))
  rw [Header.nsat, hmask, popcount64, UInt64.toNat_ofNat', Nat.mod_eq_of_lt sh.satMask.isLt]
  rfl

/-- The header read back has as many signals as their mask has ones. -/
theorem nsig_headFields : (Header.ofBits m.headFields.flatten).nsig = sh.nsig := by
  have hmask : (Header.ofBits m.headFields.flatten).sigMask = .ofNat sh.sigMask.toNat :=
    (unsigned_eq_iff sh.sigMask
      (by rw [field_flatten m.fits_headFields (by decide)]; simp [headFields])
      (by decide)).2 (field_flatten m.fits_headFields (by decide))
  have hlt := sh.sigMask.isLt
  rw [Header.nsig, hmask, popcount32, UInt64.toNat_toUInt32, UInt64.toNat_ofNat',
    Nat.mod_eq_of_lt (a := sh.sigMask.toNat) (by omega), Nat.mod_eq_of_lt hlt]
  rfl

/-- The blocks that `decode_msm` finds are those of the message. -/
theorem decode_payload : ∃ br br',
    BitReader.getU 12 (.new m.payload) = .ok (some (.ofNat sh.type), br) ∧
    decodeMsm sh.type br = .ok (some (.ofBlocks sh.lv m.headFields.flatten sh.cellMask
      m.satBlock m.cellBlock), br') := by
  have hfamily := sh.family
  have hlevel := sh.level
  have hroom : 8 * m.payload.length + 64 < 2 ^ 64 := by
    have := m.length_payload_le
    omega
  -- The fill behind the last byte is never read.
  obtain ⟨fill, hfill⟩ := bitsOf_pack m.bits
  have hat := BitReader.at_new hroom
  rw [payload, hfill, bits, List.append_assoc] at hat
  have htype : unsigned (natBits 12 sh.type) = .ofNat sh.type := by
    rw [unsigned, natOf_natBits, Nat.mod_eq_of_lt (by omega)]
  obtain ⟨br, hget, hat⟩ := reads_getU (length_natBits 12 sh.type) (by decide) _ _ hat
  rw [htype] at hget
  have hmsm : 1071 ≤ sh.type ∧ sh.type ≤ 1127 := by omega
  have hmask : sh.cellMask.length = (Header.ofBits m.headFields.flatten).nsat *
      (Header.ofBits m.headFields.flatten).nsig := by
    rw [nsat_headFields, nsig_headFields]
    exact sh.length_cellMask
  have hread := reads_decodeMsm hmsm hlevel m.fits_headFields.length_flatten hmask
    (by rw [nsat_headFields]; exact m.length_satBlock) m.length_cellBlock
  obtain ⟨br', hdecode, _⟩ := hread br fill hat
  exact ⟨br, br', hget, hdecode⟩

/-- The satellites are recovered where the arrangements coincide. -/
theorem sats_iff : (cut sh.lv.satWidths.sum sh.nsat m.satBlock).map (satOfBits sh.lv) =
      m.sats.map (fun s => (.ofNat s.ms.toNat, .ofNat s.mod.toNat)) ↔
    Coincides sh.lv.satWidths [0, 2] sh.nsat m.satBlock := by
  have hlt : ∀ j ∈ [0, 2], j < sh.lv.satWidths.length := by simp [Level.satWidths]
  rw [map_cut_eq_map_iff m.length_sats]
  refine Iff.trans ?_ (coincides_iff SatData.fits m.length_sats hlt).symm
  refine forall₂_congr fun i hi => satOfBits_eq_iff _ fun j hj => ?_
  exact length_field_slice m.length_satBlock (m.length_sats ▸ hi) (hlt j hj)

/-- The cells are recovered where the arrangements coincide. -/
theorem cells_iff :
    List.zipWith (ObsCell.ofBits sh.lv) (presentCells sh.nsat sh.nsig sh.cellMask)
        (cut sh.lv.cellWidths.sum sh.ncells m.cellBlock) =
      List.zipWith (fun c d => d.obsCell c) (presentCells sh.nsat sh.nsig sh.cellMask) m.cells ↔
    Coincides sh.lv.cellWidths [0, 1, 2, 3, 4] sh.ncells m.cellBlock := by
  have hlt : ∀ j ∈ [0, 1, 2, 3, 4], j < sh.lv.cellWidths.length := by simp [Level.cellWidths]
  have hpresent : (presentCells sh.nsat sh.nsig sh.cellMask).length = sh.ncells :=
    length_presentCells sh.length_cellMask
  rw [zipWith_cut_eq_iff (hpresent.trans m.length_cells.symm) m.length_cells]
  refine Iff.trans ?_ (coincides_iff CellData.fits m.length_cells hlt).symm
  refine forall₂_congr fun i hi => obsCell_eq_iff _ _ fun j hj => ?_
  exact length_field_slice m.length_cellBlock (m.length_cells ▸ hi) (hlt j hj)

/-- Two lists read side by side are right if and only if the list of the pairs is. -/
theorem map_fst_snd_iff {α β γ : Type*} {l : List γ} {ps : List (α × β)} {f : γ → α} {g : γ → β} :
    ps.map Prod.fst = l.map f ∧ ps.map Prod.snd = l.map g ↔ ps = l.map fun c => (f c, g c) := by
  constructor
  · rintro ⟨hfst, hsnd⟩
    rw [List.zip_of_prod hfst hsnd, List.zip_map']
  · rintro rfl
    simp [Function.comp_def]

/-- A message is recovered if and only if the arrangements coincide on what is reported. -/
theorem recovers_iff : m.Recovers ↔ m.Coincident := by
  obtain ⟨br, br', hget, hdecode⟩ := m.decode_payload
  set report := Report.ofBlocks sh.lv m.headFields.flatten sh.cellMask m.satBlock m.cellBlock
    with hreport
  have hvalues : m.Recovers ↔ report.roughMsWhole = m.sats.map (fun s => .ofNat s.ms.toNat) ∧
      report.roughMod1_1024 = m.sats.map (fun s => .ofNat s.mod.toNat) ∧
      report.cells = List.zipWith (fun c d => d.obsCell c)
        (presentCells sh.nsat sh.nsig sh.cellMask) m.cells := by
    refine ⟨fun ⟨br₁, br₁', report₁, hget₁, hdecode₁, h⟩ => ?_,
      fun h => ⟨br, br', report, hget, hdecode, h⟩⟩
    -- There is one result of the decoding.
    obtain rfl : br = br₁ := (Prod.mk.inj (Except.ok.inj (hget.symm.trans hget₁))).2
    obtain rfl : report = report₁ :=
      Option.some.inj (Prod.mk.inj (Except.ok.inj (hdecode.symm.trans hdecode₁))).1
    exact h
  rw [hvalues, ← and_assoc, Coincident, ← m.sats_iff, ← m.cells_iff]
  simp only [hreport, Report.ofBlocks, nsat_headFields, nsig_headFields, map_fst_snd_iff]
  rfl

/-- A message whose header is zero. -/
def ofData (sats : List (SatData sh.lv)) (length_sats : sats.length = sh.nsat)
    (cells : List (CellData sh.lv)) (length_cells : cells.length = sh.ncells) : Message sh where
  station := 0
  epoch := 0
  multiple := 0
  iods := 0
  reserved := 0
  clkSteering := 0
  extClock := 0
  smoothing := 0
  smoothInterval := 0
  sats := sats
  length_sats := length_sats
  cells := cells
  length_cells := length_cells

end Message

/-! ### Messages that are misread -/

theorem mem_fieldBits_zero {w : ℕ} : ∀ b ∈ fieldBits (0 : BitVec w), b = false := by
  intro b hb
  rw [fieldBits, natBits_eq_map, List.mem_map] at hb
  obtain ⟨i, _, rfl⟩ := hb
  exact Nat.zero_testBit _

theorem fieldBits_allOnes (w : ℕ) : fieldBits (BitVec.allOnes w) = .replicate w true := by
  rw [fieldBits, natBits_eq_map, BitVec.toNat_allOnes, List.eq_replicate_iff]
  refine ⟨by rw [List.length_map, List.length_range], fun b hb => ?_⟩
  obtain ⟨i, hi, rfl⟩ := List.mem_map.1 hb
  have := List.mem_range.1 hi
  rw [Nat.testBit_two_pow_sub_one, decide_eq_true (by omega)]

variable (lv) in
/-- A satellite whose fields are all zero. -/
def SatData.zero : SatData lv := ⟨0, 0, 0, 0⟩

variable (lv) in
/-- A cell whose fields are all zero. -/
def CellData.zero : CellData lv := ⟨0, 0, 0, 0, 0, 0⟩

/-- With two satellites, the arrangements differ on some message. -/
theorem sats_not_coincide {n : ℕ} (hn : 2 ≤ n) : ¬Coincides lv.satWidths [0, 2] n
    (byField lv.satWidths ((second n (.zero lv) { SatData.zero lv with ms := .allOnes 8 }).map
      SatData.fields)) := by
  have hsum : 2 * 8 ≤ lv.satWidths.sum := by
    simp only [Level.satWidths, List.sum_cons]
    omega
  refine not_coincides hn (by decide) hsum SatData.fits ?_
    (congrArg (· :: _) (fieldBits_allOnes 8)) ?_ (by decide)
  · simp only [SatData.fields, SatData.zero, List.forall_mem_cons]
    exact ⟨mem_fieldBits_zero, mem_fieldBits_zero, mem_fieldBits_zero, mem_fieldBits_zero,
      fun _ h => absurd h List.not_mem_nil⟩
  · simp only [SatData.zero, List.forall_mem_cons]
    exact ⟨mem_fieldBits_zero, mem_fieldBits_zero, mem_fieldBits_zero,
      fun _ h => absurd h List.not_mem_nil⟩

/-- With two cells, as well. -/
theorem cells_not_coincide {n : ℕ} (hn : 2 ≤ n) : ¬Coincides lv.cellWidths [0, 1, 2, 3, 4] n
    (byField lv.cellWidths ((second n (.zero lv) { CellData.zero lv with finePr := .allOnes _ }).map
      CellData.fields)) := by
  have hpos : 0 < lv.prBits := by rw [Level.prBits]; split_ifs <;> decide
  have hle : lv.prBits ≤ lv.cpBits := by rw [Level.prBits, Level.cpBits]; split_ifs <;> decide
  have hsum : 2 * lv.prBits ≤ lv.cellWidths.sum := by
    simp only [Level.cellWidths, List.sum_cons]
    omega
  refine not_coincides hn hpos hsum CellData.fits ?_ (congrArg (· :: _) (fieldBits_allOnes _)) ?_
    (by decide)
  · simp only [CellData.fields, CellData.zero, List.forall_mem_cons]
    exact ⟨mem_fieldBits_zero, mem_fieldBits_zero, mem_fieldBits_zero, mem_fieldBits_zero,
      mem_fieldBits_zero, mem_fieldBits_zero, fun _ h => absurd h List.not_mem_nil⟩
  · simp only [CellData.zero, List.forall_mem_cons]
    exact ⟨mem_fieldBits_zero, mem_fieldBits_zero, mem_fieldBits_zero, mem_fieldBits_zero,
      mem_fieldBits_zero, fun _ h => absurd h List.not_mem_nil⟩

/-- For any masks: a message is recovered if and only if its data are arranged in
    the same way field by field and record by record, as far as they are
    reported; and this is so for all values of the fields if and only if there
    is at most one satellite and at most one cell. -/
theorem layout_recovered_iff (sh : Shape) :
    (∀ m : Message sh, m.Recovers ↔ m.Coincident) ∧
      ((∀ m : Message sh, m.Recovers) ↔ sh.nsat ≤ 1 ∧ sh.ncells ≤ 1) := by
  refine ⟨fun m => m.recovers_iff, fun h => ⟨?_, ?_⟩, fun ⟨hsat, hcell⟩ m => ?_⟩
  -- The ones of the second DF397 are read into the record of the first satellite.
  · by_contra hn
    have hlen := length_second (a := SatData.zero sh.lv)
      (b := { SatData.zero sh.lv with ms := .allOnes 8 }) (Nat.lt_of_not_le hn)
    let m := Message.ofData _ hlen (.replicate sh.ncells (.zero _)) (List.length_replicate ..)
    exact sats_not_coincide (Nat.lt_of_not_le hn) (m.recovers_iff.1 (h m)).1
  · by_contra hn
    have hlen := length_second (a := CellData.zero sh.lv)
      (b := { CellData.zero sh.lv with finePr := .allOnes _ }) (Nat.lt_of_not_le hn)
    let m := Message.ofData (.replicate sh.nsat (.zero _)) (List.length_replicate ..) _ hlen
    exact cells_not_coincide (Nat.lt_of_not_le hn) (m.recovers_iff.1 (h m)).2
  · exact m.recovers_iff.2 ⟨coincides_of_le_one hsat _, coincides_of_le_one hcell _⟩

/-- A GPS MSM4 message with two satellites, one signal and both cells. -/
def twoSatellites : Shape where
  type := 1074
  family := by decide
  level := by decide
  satMask := 0xC000000000000000
  sigMask := 0x40000000
  cellMask := [true, true]
  length_cellMask := by decide
  fits := by decide

/-- Rough ranges of 70.5 ms and of about 75.1 ms. -/
def twoRanges : Message twoSatellites :=
  .ofData [⟨70, 0, 512, 0⟩, ⟨75, 0, 100, 0⟩] rfl
    [⟨100, 2000, 5, 0, 40, 0⟩, ⟨200, 3000, 6, 0, 41, 0⟩] rfl

/-- The rough ranges are read as 70 + 302/1024 ms and 100/1024 ms. -/
theorem twoRanges_misread : ¬twoRanges.Recovers ∧
    ∃ br br' report, BitReader.getU 12 (.new twoRanges.payload) = .ok (some 1074, br) ∧
      decodeMsm 1074 br = .ok (some report, br') ∧ report.roughMsWhole = [70, 0] ∧
      report.roughMod1_1024 = [302, 100] := by
  refine ⟨fun h => absurd (twoRanges.recovers_iff.1 h).1 (by decide), ?_⟩
  obtain ⟨br, br', hget, hdecode⟩ := twoRanges.decode_payload
  exact ⟨br, br', _, hget, hdecode, by decide, by decide⟩

end Msm

end RtcmBridge

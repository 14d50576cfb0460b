import RtcmBridge.BitReader
import Mathlib.Tactic

/-!
# The MSM messages

The function `decode_msm` of the two decoders: the messages of the types 1071
to 1127 that end in 4 to 7. Modelled is what it reads and what it reports of it
as integers; the units of the report (metres, cycles, dBHz) and its text are
left out.
-/

namespace RtcmBridge

open BitReader

/-- Counts the satellites in a mask. -/
def popcount64 (v : UInt64) : ℕ := (natBits 64 v.toNat).count true

/-- Counts the signals in a mask. -/
def popcount32 (v : UInt32) : ℕ := (natBits 32 v.toNat).count true

/-- `is_invalid_signed`: the least number that fits in so many bits. -/
def isInvalidSigned (v : ℤ) (bits : ℕ) : Bool := v == -2 ^ (bits - 1)

namespace Msm

/-- What the type of a message says of its fields. -/
structure Level where
  hiRes : Bool
  withPhaseRate : Bool
  deriving DecidableEq

namespace Level

/-- The level of a message type, which is its last digit. -/
def ofType (type : ℕ) : Level where
  hiRes := type % 10 == 6 || type % 10 == 7
  withPhaseRate := type % 10 == 5 || type % 10 == 7

variable (lv : Level)

/-- The width of a fine pseudorange. -/
def prBits : ℕ := if lv.hiRes then 20 else 15

/-- The width of a fine phase range. -/
def cpBits : ℕ := if lv.hiRes then 24 else 22

/-- The width of a lock time indicator. -/
def lockBits : ℕ := if lv.hiRes then 10 else 4

/-- The width of a carrier-to-noise ratio. -/
def cnrBits : ℕ := if lv.hiRes then 10 else 6

/-- A field that only the messages with rates have, and whose value is not used. -/
def withRate {α : Type} (x : Reading α) : Reading Unit :=
  if lv.withPhaseRate then discard x else pure ()

end Level

/-- The fields of the header, after the type. -/
structure Header where
  stid : UInt64
  tow : UInt64
  mm : UInt64
  iods : UInt64
  clkSteer : UInt64
  extClk : UInt64
  smooth : UInt64
  smoothInt : UInt64
  satMask : UInt64
  sigMask : UInt64
  deriving DecidableEq

/-- `ObsCell`: what is read of a cell, with its place in the masks. -/
structure ObsCell where
  satIdx : ℕ
  sigIdx : ℕ
  finePr : ℤ
  fineCp : ℤ
  lock : UInt64
  half : UInt64
  cnrRaw : UInt64
  deriving DecidableEq

/-- What the line of a cell is computed from. -/
structure Observation where
  sat : ℕ
  sigId : ℕ
  roughWhole : UInt64
  roughMod : UInt64
  prValid : Bool
  cpValid : Bool
  cell : ObsCell
  deriving DecidableEq

/-- What `decode_msm` reports: the header, the vectors it has filled, and the observations. -/
structure Report where
  header : Header
  nsat : ℕ
  nsig : ℕ
  ncells : ℕ
  satIds : List ℕ
  sigIds : List ℕ
  roughMsWhole : List UInt64
  roughMod1_1024 : List UInt64
  cells : List ObsCell
  observations : List Observation
  deriving DecidableEq

/-! ### Reading -/

/-- The header up to the masks, which are read as well. -/
def readHeader : Reading Header := do
  let error := " decode_error=invalid_msm_header"
  let stid ← need error (getU 12)
  let tow ← need error (getU 30)
  let mm ← need error (getU 1)
  let iods ← need error (getU 3)
  need error (skip 7)
  let clkSteer ← need error (getU 2)
  let extClk ← need error (getU 2)
  let smooth ← need error (getU 1)
  let smoothInt ← need error (getU 3)
  let satMask ← need error (getU 64)
  let sigMask ← need error (getU 32)
  pure { stid, tow, mm, iods, clkSteer, extClk, smooth, smoothInt, satMask, sigMask }

/-- The numbers of the satellites in the mask. -/
def satIds (satMask : UInt64) : List ℕ :=
  ((List.range 64).filter fun i => (satMask >>> .ofNat (63 - i)) &&& 1 ≠ 0).map (· + 1)

/-- The numbers of the signals in the mask. -/
def sigIds (sigMask : UInt64) : List ℕ :=
  ((List.range 32).filter fun i => (sigMask >>> .ofNat (31 - i)) &&& 1 ≠ 0).map (· + 1)

/-- A turn of the loop over the cell mask. -/
def readPresent : Reading UInt8 := do
  let bit ← need " decode_error=invalid_msm_cell_mask" (getU 1)
  pure bit.toUInt8

/-- A turn of the loop over the satellites: the whole milliseconds of the rough
    range, and its remainder. -/
def readSat (lv : Level) : Reading (UInt64 × UInt64) := do
  let whole ← need " decode_error=truncated_msm_sat_data" (getU 8)
  lv.withRate (need " decode_error=truncated_msm_sat_ext_info" (getU 4))
  let mod ← need " decode_error=truncated_msm_rough_range_mod" (getU 10)
  lv.withRate (need " decode_error=truncated_msm_rate" (getS 14))
  pure (whole, mod)

/-- A turn of the loop over the cells, for a cell that is present. -/
def readCell (lv : Level) (satIdx sigIdx : ℕ) : Reading ObsCell := do
  let error := " decode_error=truncated_msm_cell_data"
  let finePr ← need error (getS lv.prBits)
  let fineCp ← need error (getS lv.cpBits)
  let lock ← need error (getU lv.lockBits)
  let half ← need error (getU 1)
  let cnrRaw ← need error (getU lv.cnrBits)
  lv.withRate (need " decode_error=truncated_msm_phase_rate" (getS 15))
  pure { satIdx, sigIdx, finePr, fineCp, lock, half, cnrRaw }

/-- The loop over the cells, of which some are present. -/
def readCells (lv : Level) (nsig : ℕ) (cellPresent : List UInt8) :
    List (ℕ × ℕ) → Reading (List ObsCell)
  | [] => pure []
  | (si, gi) :: rest => do
    if (← fetch cellPresent (si * nsig + gi)) = 0 then
      readCells lv nsig cellPresent rest
    else
      let cell ← readCell lv si gi
      let cells ← readCells lv nsig cellPresent rest
      pure (cell :: cells)

/-- A turn of the loop over the cells that were read. -/
def observe (lv : Level) (satIds sigIds : List ℕ) (roughMsWhole roughMod1_1024 : List UInt64)
    (c : ObsCell) : Except Stop Observation := do
  let sat ← fetch satIds c.satIdx
  let sigId ← fetch sigIds c.sigIdx
  let roughWhole ← fetch roughMsWhole c.satIdx
  let roughMod ← fetch roughMod1_1024 c.satIdx
  let roughValid := roughWhole != 255
  pure {
    sat, sigId, roughWhole, roughMod
    prValid := roughValid && !isInvalidSigned c.finePr lv.prBits
    cpValid := roughValid && !isInvalidSigned c.fineCp lv.cpBits
    cell := c }

/-- `none` for the types of other messages. -/
def decodeMsm (type : ℕ) : Reading (Option Report) :=
  if type < 1071 ∨ 1127 < type then pure none
  else if type % 10 < 4 ∨ 7 < type % 10 then pure none
  else do
    let lv := Level.ofType type
    let header ← readHeader
    let nsat := popcount64 header.satMask
    let nsig := popcount32 header.sigMask.toUInt32
    let satIds := satIds header.satMask
    let sigIds := sigIds header.sigMask
    let cellPresent ← (List.range (nsat * nsig)).mapM fun _ => readPresent
    let sats ← (List.range nsat).mapM fun _ => readSat lv
    let roughMsWhole := sats.map Prod.fst
    let roughMod1_1024 := sats.map Prod.snd
    let cells ← readCells lv nsig cellPresent (List.range nsat ×ˢ List.range nsig)
    let observations ←
      (cells.mapM (observe lv satIds sigIds roughMsWhole roughMod1_1024) : Except Stop _)
    pure (some {
      header, nsat, nsig, satIds, sigIds, roughMsWhole, roughMod1_1024, cells, observations
      ncells := (cellPresent.map UInt8.toNat).sum })

end Msm

end RtcmBridge

import RtcmBridge.Msm.Masks
import RtcmBridge.Reading
import RtcmBridge.Records
import Mathlib.Tactic

/-!
# What is read of a MSM message

`decodeMsm` cuts what follows the type into the header, the mask of the cells, a
block of satellites and a block of cells, and the blocks *record by record*: it
reads all fields of a satellite (or cell) before it goes on to the next one
(`reads_decodeMsm`).
-/

namespace RtcmBridge.Msm

open BitReader

/-! ### Widths -/

namespace Level

variable (lv : Level)

/-- The width of a field that only the messages with rates have. -/
def rateBits (n : ℕ) : ℕ := if lv.withPhaseRate then n else 0

/-- The widths of the fields of a satellite, of which some levels lack two. -/
def satWidths : List ℕ := [8, lv.rateBits 4, 10, lv.rateBits 14]

/-- The widths of the fields of a cell, of which some levels lack the last. -/
def cellWidths : List ℕ := [lv.prBits, lv.cpBits, lv.lockBits, 1, lv.cnrBits, lv.rateBits 15]

end Level

/-- The widths of the fields of the header, and of the masks. -/
def headerWidths : List ℕ := [12, 30, 1, 3, 7, 2, 2, 1, 3, 64, 32]

/-! ### Values -/

/-- The header that these bits are. -/
def Header.ofBits (part : List Bool) : Header where
  stid := unsigned (field headerWidths 0 part)
  tow := unsigned (field headerWidths 1 part)
  mm := unsigned (field headerWidths 2 part)
  iods := unsigned (field headerWidths 3 part)
  clkSteer := unsigned (field headerWidths 5 part)
  extClk := unsigned (field headerWidths 6 part)
  smooth := unsigned (field headerWidths 7 part)
  smoothInt := unsigned (field headerWidths 8 part)
  satMask := unsigned (field headerWidths 9 part)
  sigMask := unsigned (field headerWidths 10 part)

/-- The rough range that is read of a satellite. -/
def satOfBits (lv : Level) (part : List Bool) : UInt64 × UInt64 :=
  (unsigned (field lv.satWidths 0 part), unsigned (field lv.satWidths 2 part))

/-- The cell at the place `c` that these bits are. -/
def ObsCell.ofBits (lv : Level) (c : ℕ × ℕ) (part : List Bool) : ObsCell where
  satIdx := c.1
  sigIdx := c.2
  finePr := signed (field lv.cellWidths 0 part)
  fineCp := signed (field lv.cellWidths 1 part)
  lock := unsigned (field lv.cellWidths 2 part)
  half := unsigned (field lv.cellWidths 3 part)
  cnrRaw := unsigned (field lv.cellWidths 4 part)

/-! ### Records -/

variable {lv : Level} {l part : List Bool}

/-- A field that only the messages with rates have. -/
theorem reads_withRate {α β : Type} {x : Reading α} {f : Unit → Reading β} {b : β} {w k : ℕ}
    (hx : ∀ m : List Bool, m.length = w → ∃ a, Reads x m a) (hl : l.length = lv.rateBits w + k)
    (hf : (l.drop (lv.rateBits w)).length = k → Reads (f ()) (l.drop (lv.rateBits w)) b) :
    Reads (lv.withRate x >>= f) l b := by
  have htake : (l.take (lv.rateBits w)).length = lv.rateBits w := by
    rw [List.length_take, hl, Nat.min_eq_left (by omega)]
  refine Reads.bind_take (lv.rateBits w) ?_
    (hf (by rw [List.length_drop, hl, Nat.add_sub_cancel_left]))
  rw [Level.rateBits] at htake ⊢
  rw [Level.withRate]
  split_ifs at htake ⊢
  · obtain ⟨a, ha⟩ := hx _ htake
    exact ha.map fun _ => ()
  · exact Reads.pure ()

/-- `decode_msm` reads the header up to the two masks. -/
theorem reads_readHeader (h : part.length = headerWidths.sum) :
    Reads readHeader part (.ofBits part) := by
  have hlen : part.length =
      12 + (30 + (1 + (3 + (7 + (2 + (2 + (1 + (3 + (64 + (32 + 0)))))))))) := h
  simp only [readHeader, Header.ofBits, headerWidths, field_zero, field_succ]
  refine Reads.bind_unsigned (by decide) hlen fun hlen => ?_
  refine Reads.bind_unsigned (by decide) hlen fun hlen => ?_
  refine Reads.bind_unsigned (by decide) hlen fun hlen => ?_
  refine Reads.bind_unsigned (by decide) hlen fun hlen => ?_
  refine Reads.bind_skip (by decide) hlen fun hlen => ?_
  refine Reads.bind_unsigned (by decide) hlen fun hlen => ?_
  refine Reads.bind_unsigned (by decide) hlen fun hlen => ?_
  refine Reads.bind_unsigned (by decide) hlen fun hlen => ?_
  refine Reads.bind_unsigned (by decide) hlen fun hlen => ?_
  refine Reads.bind_unsigned (by decide) hlen fun hlen => ?_
  refine Reads.bind_unsigned (by decide) hlen fun hlen => ?_
  exact Reads.pure_of_length _ hlen

/-- A bit of the cell mask. -/
theorem reads_readPresent {bit : List Bool} (h : bit.length = 1) :
    Reads readPresent bit (unsigned bit).toUInt8 := by
  have hbit : (unsigned bit).toUInt8 = (unsigned (bit.take 1)).toUInt8 := by
    rw [List.take_of_length_le h.le]
  rw [hbit]
  exact Reads.bind_unsigned (by decide) h fun hlen => Reads.pure_of_length _ hlen

/-- The record of a satellite. -/
theorem reads_readSat (h : part.length = lv.satWidths.sum) :
    Reads (readSat lv) part (satOfBits lv part) := by
  have hlen : part.length = 8 + (lv.rateBits 4 + (10 + (lv.rateBits 14 + 0))) := h
  simp only [readSat, satOfBits, Level.satWidths, field_zero, field_succ]
  refine Reads.bind_unsigned (by decide) hlen fun hlen => ?_
  refine reads_withRate (w := 4) (fun m hm => ⟨_, .need _ (reads_getU hm (by decide))⟩)
    hlen fun hlen => ?_
  refine Reads.bind_unsigned (by decide) hlen fun hlen => ?_
  refine reads_withRate (w := 14) (fun m hm => ⟨_, .need _ (reads_getS hm (by decide))⟩)
    hlen fun hlen => ?_
  exact Reads.pure_of_length _ hlen

theorem prBits_lt (lv : Level) : lv.prBits < 64 := by rw [Level.prBits]; split_ifs <;> decide
theorem cpBits_lt (lv : Level) : lv.cpBits < 64 := by rw [Level.cpBits]; split_ifs <;> decide
theorem lockBits_le (lv : Level) : lv.lockBits ≤ 64 := by rw [Level.lockBits]; split_ifs <;> decide
theorem cnrBits_le (lv : Level) : lv.cnrBits ≤ 64 := by rw [Level.cnrBits]; split_ifs <;> decide

/-- The record of a cell. -/
theorem reads_readCell (c : ℕ × ℕ) (h : part.length = lv.cellWidths.sum) :
    Reads (readCell lv c.1 c.2) part (.ofBits lv c part) := by
  have hlen : part.length =
      lv.prBits + (lv.cpBits + (lv.lockBits + (1 + (lv.cnrBits + (lv.rateBits 15 + 0))))) := h
  simp only [readCell, ObsCell.ofBits, Level.cellWidths, field_zero, field_succ]
  refine Reads.bind_signed (prBits_lt lv) hlen fun hlen => ?_
  refine Reads.bind_signed (cpBits_lt lv) hlen fun hlen => ?_
  refine Reads.bind_unsigned (lockBits_le lv) hlen fun hlen => ?_
  refine Reads.bind_unsigned (by decide) hlen fun hlen => ?_
  refine Reads.bind_unsigned (cnrBits_le lv) hlen fun hlen => ?_
  refine reads_withRate (w := 15) (fun m hm => ⟨_, .need _ (reads_getS hm (by decide))⟩)
    hlen fun hlen => ?_
  exact Reads.pure_of_length _ hlen

/-! ### Loops -/

/-- Within the vector, an access is defined. -/
theorem fetch_of_lt {α : Type*} {l : List α} {i : ℕ} (h : i < l.length) : fetch l i = .ok l[i] := by
  rw [fetch, List.getElem?_eq_getElem h]

/-- What the mask of the cells is read as. -/
def presentOf (mask : List Bool) : List UInt8 := mask.map fun bit => (unsigned [bit]).toUInt8

/-- The loop over the cell mask. -/
theorem reads_presentOf {mask : List Bool} {n : ℕ} (h : mask.length = n) :
    Reads ((List.range n).mapM fun _ => readPresent) mask (presentOf mask) := by
  have hread := Reads.mapM (List.range n) (mask.map fun bit => [bit])
    (g := fun _ => readPresent) (h := fun bit => (unsigned bit).toUInt8) (by simp [h]) (by
      intro _ part hpart
      obtain ⟨bit, _, rfl⟩ := List.mem_map.1 hpart
      exact reads_readPresent rfl)
  have hflat : (mask.map fun bit => [bit]).flatten = mask := List.flatMap_singleton' mask
  rwa [List.map_map, hflat] at hread

/-- The sum of the flags is the number of the present cells. -/
theorem sum_presentOf (mask : List Bool) :
    ((presentOf mask).map UInt8.toNat).sum = mask.count true := by
  induction mask with
  | nil => rfl
  | cons bit mask ih =>
    have hbit : ∀ bit : Bool, (unsigned [bit]).toUInt8.toNat = if bit == true then 1 else 0 := by
      decide
    rw [presentOf, List.map_cons, List.map_cons, List.sum_cons, List.count_cons, hbit, Nat.add_comm]
    exact congrArg (· + _) ih

/-- The loop over the cells reads the records of those that are present. -/
theorem reads_readCells {mask : List Bool} {nsig : ℕ} (cs : List (ℕ × ℕ)) (parts : List (List Bool))
    (hcs : ∀ c ∈ cs, c.1 * nsig + c.2 < mask.length)
    (hlen : parts.length = (cs.filter (isPresent nsig mask)).length)
    (hparts : ∀ part ∈ parts, part.length = lv.cellWidths.sum) :
    Reads (readCells lv nsig (presentOf mask) cs) parts.flatten
      (List.zipWith (ObsCell.ofBits lv) (cs.filter (isPresent nsig mask)) parts) := by
  induction cs generalizing parts with
  | nil =>
    rw [List.length_eq_zero_iff.1 hlen]
    exact Reads.pure []
  | cons c cs ih =>
    have hflat := hcs c (List.mem_cons_self ..)
    have hrest := fun c hc => hcs c (List.mem_cons_of_mem _ hc)
    have hfetch : fetch (presentOf mask) (c.1 * nsig + c.2) =
        .ok (unsigned [mask[c.1 * nsig + c.2]]).toUInt8 := by
      rw [fetch_of_lt (by rw [presentOf, List.length_map]; exact hflat)]
      simp [presentOf]
    have hget : isPresent nsig mask c = mask[c.1 * nsig + c.2] := by
      rw [isPresent, List.getD_eq_getElem?_getD, List.getElem?_eq_getElem hflat, Option.getD_some]
    have hzero : ∀ bit : Bool, (unsigned [bit]).toUInt8 = 0 ↔ bit = false := by decide
    rw [readCells]
    refine Reads.bind_nil (Reads.lift hfetch) ?_
    cases hbit : mask[c.1 * nsig + c.2] with
    | false =>
      -- An absent cell has no record.
      have habsent : ¬isPresent nsig mask c = true := by rw [hget, hbit]; decide
      rw [List.filter_cons_of_neg habsent] at hlen ⊢
      rw [if_pos ((hzero _).2 rfl)]
      exact ih parts hrest hlen hparts
    | true =>
      have hpresent : isPresent nsig mask c = true := by rw [hget, hbit]
      rw [List.filter_cons_of_pos hpresent] at hlen ⊢
      rw [if_neg fun h => Bool.noConfusion ((hzero _).1 h)]
      obtain ⟨part, parts, rfl⟩ := List.exists_cons_of_length_eq_add_one hlen
      have hcells := ih parts hrest (Nat.succ.inj hlen) fun p hp =>
        hparts p (List.mem_cons_of_mem _ hp)
      rw [List.flatten_cons, List.zipWith_cons_cons]
      exact (reads_readCell c (hparts part (List.mem_cons_self ..))).bind
        (hcells.bind_end (Reads.pure _))

/-! ### The report -/

/-- The line of a cell, where its satellite and its signal are known. -/
def Observation.of (lv : Level) (satIds sigIds : List ℕ) (roughMsWhole roughMod1_1024 : List UInt64)
    (c : ObsCell) : Observation where
  sat := satIds.getD c.satIdx 0
  sigId := sigIds.getD c.sigIdx 0
  roughWhole := roughMsWhole.getD c.satIdx 0
  roughMod := roughMod1_1024.getD c.satIdx 0
  prValid := roughMsWhole.getD c.satIdx 0 != 255 && !isInvalidSigned c.finePr lv.prBits
  cpValid := roughMsWhole.getD c.satIdx 0 != 255 && !isInvalidSigned c.fineCp lv.cpBits
  cell := c

/-- With all indices in range, the last loop reports an observation per cell. -/
theorem mapM_observe {satIds sigIds : List ℕ} {roughMsWhole roughMod1_1024 : List UInt64}
    {cells : List ObsCell} (h : ∀ c ∈ cells, c.satIdx < satIds.length ∧ c.sigIdx < sigIds.length ∧
      c.satIdx < roughMsWhole.length ∧ c.satIdx < roughMod1_1024.length) :
    cells.mapM (observe lv satIds sigIds roughMsWhole roughMod1_1024) =
      .ok (cells.map (.of lv satIds sigIds roughMsWhole roughMod1_1024)) := by
  induction cells with
  | nil => rfl
  | cons c cells ih =>
    obtain ⟨hsat, hsig, hwhole, hmod⟩ := h c (List.mem_cons_self ..)
    have hobs : observe lv satIds sigIds roughMsWhole roughMod1_1024 c =
        .ok (.of lv satIds sigIds roughMsWhole roughMod1_1024 c) := by
      simp only [observe, Observation.of, fetch_of_lt, hsat, hsig, hwhole, hmod,
        List.getD_eq_getElem?_getD, List.getElem?_eq_getElem, Option.getD_some]
      rfl
    rw [List.mapM_cons, hobs, ih fun c hc => h c (List.mem_cons_of_mem _ hc)]
    rfl

/-- The number of satellites in the mask. -/
def Header.nsat (head : Header) : ℕ := popcount64 head.satMask

/-- The number of signals in the mask. -/
def Header.nsig (head : Header) : ℕ := popcount32 head.sigMask.toUInt32

/-- The report of the blocks of a message: the header, the mask of the cells, the
    satellites and the cells, the last two cut into records. -/
def Report.ofBlocks (lv : Level) (head mask sats cells : List Bool) : Report :=
  let header := Header.ofBits head
  let sats := (cut lv.satWidths.sum header.nsat sats).map (satOfBits lv)
  let roughMsWhole := sats.map Prod.fst
  let roughMod1_1024 := sats.map Prod.snd
  let satIds := Msm.satIds header.satMask
  let sigIds := Msm.sigIds header.sigMask
  let cells := List.zipWith (ObsCell.ofBits lv) (presentCells header.nsat header.nsig mask)
    (cut lv.cellWidths.sum (mask.count true) cells)
  { header, satIds, sigIds, roughMsWhole, roughMod1_1024, cells
    nsat := header.nsat
    nsig := header.nsig
    ncells := mask.count true
    observations := cells.map (.of lv satIds sigIds roughMsWhole roughMod1_1024) }

/-- A present cell is within the two masks. -/
theorem mem_presentCells {nsat nsig : ℕ} {mask : List Bool} {c : ℕ × ℕ}
    (h : c ∈ presentCells nsat nsig mask) : c.1 < nsat ∧ c.2 < nsig := by
  obtain ⟨h₁, h₂⟩ := List.mem_product.1 (List.mem_of_mem_filter h)
  exact ⟨List.mem_range.1 h₁, List.mem_range.1 h₂⟩

/-- `decode_msm` takes the four blocks one behind the other, the last two record by record. -/
theorem reads_decodeMsm {type : ℕ} (h₁ : 1071 ≤ type ∧ type ≤ 1127)
    (h₂ : 4 ≤ type % 10 ∧ type % 10 ≤ 7) {head mask sats cells : List Bool}
    (hhead : head.length = headerWidths.sum)
    (hmask : mask.length = (Header.ofBits head).nsat * (Header.ofBits head).nsig)
    (hsats : sats.length = (Header.ofBits head).nsat * (Level.ofType type).satWidths.sum)
    (hcells : cells.length = mask.count true * (Level.ofType type).cellWidths.sum) :
    Reads (decodeMsm type) (head ++ (mask ++ (sats ++ cells)))
      (some (.ofBlocks (.ofType type) head mask sats cells)) := by
  set lv := Level.ofType type
  set header := Header.ofBits head
  rw [decodeMsm, if_neg (by omega), if_neg (by omega)]
  -- The function reads block after block.
  refine (reads_readHeader hhead).bind ?_
  refine (reads_presentOf hmask).bind ?_
  have hreadSats := Reads.mapM (List.range header.nsat) (cut lv.satWidths.sum header.nsat sats)
    (g := fun _ => readSat lv) (h := satOfBits lv) (by simp)
    fun _ part hpart => reads_readSat (length_of_mem_cut hsats hpart)
  rw [flatten_cut hsats] at hreadSats
  refine hreadSats.bind ?_
  -- The loops stay within the mask that was read.
  have hin : ∀ c ∈ List.range header.nsat ×ˢ List.range header.nsig,
      c.1 * header.nsig + c.2 < mask.length := by
    intro c hc
    rw [hmask, ← List.mem_range, ← flat_product]
    exact List.mem_map.2 ⟨c, hc, rfl⟩
  have hreadCells : Reads (readCells lv header.nsig (presentOf mask)
      (List.range header.nsat ×ˢ List.range header.nsig)) cells
      (List.zipWith (ObsCell.ofBits lv) (presentCells header.nsat header.nsig mask)
        (cut lv.cellWidths.sum (mask.count true) cells)) := by
    have := reads_readCells _ (cut lv.cellWidths.sum (mask.count true) cells) hin
      (by rw [length_cut]; exact (length_presentCells hmask).symm)
      fun part hpart => length_of_mem_cut hcells hpart
    rwa [flatten_cut hcells] at this
  refine hreadCells.bind_end (Reads.bind_nil (Reads.lift (mapM_observe ?_)) ?_)
  · -- The indices of the cells are those of satellites and signals.
    intro c hc
    obtain ⟨i, hi, rfl⟩ := List.getElem_of_mem hc
    rw [List.getElem_zipWith]
    rw [List.length_zipWith] at hi
    have hcell := mem_presentCells (List.getElem_mem (hi.trans_le (Nat.min_le_left ..)))
    have hsats : (presentCells header.nsat header.nsig mask)[i].1 <
        ((cut lv.satWidths.sum header.nsat sats).map (satOfBits lv)).length := by
      rw [List.length_map, length_cut]
      exact hcell.1
    exact ⟨hcell.1.trans_eq (length_satIds _).symm, hcell.2.trans_eq (length_sigIds _).symm,
      hsats.trans_eq (List.length_map _).symm, hsats.trans_eq (List.length_map _).symm⟩
  · rw [sum_presentOf]
    exact Reads.pure _

end RtcmBridge.Msm

import RtcmBridge.MessageDecoder.MsmLength
import RtcmBridge.Rank
import RtcmBridge.Trace
import Mathlib.Tactic

/-!
# The cells of a MSM message

The lines of a MSM message are those of the cells that its masks mark, satellite
by satellite (`decode_msm_cells`).
-/

namespace RtcmBridge

open BitReader

namespace Msm

/-! ### The numbers of the satellites and the signals -/

/-- The listed satellites are the places of the mask's set bits. -/
theorem satIds_unsigned {mask : List Bool} (h : mask.length = 64) :
    satIds (unsigned mask) = places mask := by
  have hbits := natBits_natOf mask
  rw [satIds, places, h]
  congr 1
  refine List.filter_congr fun i hi => ?_
  rw [List.mem_range] at hi
  have hget := getElem?_natBits (v := natOf mask) hi
  rw [← h, hbits] at hget
  rw [decide_bit (by omega), toNat_unsigned h.le, List.getD_eq_getElem?_getD, hget, h]
  rfl

/-- The listed signals are the places of the mask's set bits. -/
theorem sigIds_unsigned {mask : List Bool} (h : mask.length = 32) :
    sigIds (unsigned mask) = places mask := by
  have hbits := natBits_natOf mask
  rw [sigIds, places, h]
  congr 1
  refine List.filter_congr fun i hi => ?_
  rw [List.mem_range] at hi
  have hget := getElem?_natBits (v := natOf mask) hi
  rw [← h, hbits] at hget
  rw [decide_bit (by omega), toNat_unsigned (by omega), List.getD_eq_getElem?_getD, hget, h]
  rfl

/-- The cell of the satellite `a` and the signal `b` is marked as present. -/
def Marked (bits : List Bool) (a b : ℕ) : Prop :=
  (1 ≤ a ∧ a ≤ 64) ∧ (1 ≤ b ∧ b ≤ 32) ∧
    (satMaskOf bits)[a - 1]? = some true ∧ (sigMaskOf bits)[b - 1]? = some true ∧
    (cellMaskOf bits)[rank (satMaskOf bits) a * nsigOf bits + rank (sigMaskOf bits) b]? = some true

/-- The satellite and the signal of a cell. -/
def idsOf (bits : List Bool) (c : ℕ × ℕ) : ℕ × ℕ :=
  ((places (satMaskOf bits)).getD c.1 0, (places (sigMaskOf bits)).getD c.2 0)

variable {type : ℕ} {bits : List Bool}

/-- A message that is long enough yields one observation per marked pair, in the order of the
    cell mask. -/
theorem observations_reportOf (h : neededBits type bits ≤ bits.length) :
    (reportOf type bits).observations.map (fun o => (o.sat, o.sigId)) =
      (presentCells (nsatOf bits) (nsigOf bits) (cellMaskOf bits)).map (idsOf bits) := by
  rw [neededBits] at h
  have hhead : 169 ≤ bits.length := by omega
  have hsat := length_satMaskOf hhead
  have hsig := length_sigMaskOf hhead
  have hmask : (cellMaskOf bits).length = nsatOf bits * nsigOf bits := length_slice (by omega)
  have hcells := length_presentCells hmask
  refine List.ext_getElem ?_ fun i _ _ => ?_
  · simp [reportOf, Report.ofBlocks, nsat_ofBits hhead, nsig_ofBits hhead, hcells]
  · simp [reportOf, Report.ofBlocks, nsat_ofBits hhead, nsig_ofBits hhead, satMask_ofBits,
      sigMask_ofBits, satIds_unsigned hsat, sigIds_unsigned hsig, Observation.of, ObsCell.ofBits,
      idsOf]

/-- The indices of a cell are those of places of the masks. -/
theorem getElem?_idsOf {c : ℕ × ℕ} (hc : c ∈ List.range (nsatOf bits) ×ˢ List.range (nsigOf bits)) :
    (places (satMaskOf bits))[c.1]? = some (idsOf bits c).1 ∧
      (places (sigMaskOf bits))[c.2]? = some (idsOf bits c).2 := by
  obtain ⟨hsat, hsig⟩ := List.mem_product.1 hc
  rw [List.mem_range, nsatOf, ← length_places] at hsat
  rw [List.mem_range, nsigOf, ← length_places] at hsig
  simp [idsOf, hsat, hsig]

/-- A pair is present exactly if its bit of the cell mask is set. -/
theorem isPresent_iff {nsig : ℕ} {mask : List Bool} {c : ℕ × ℕ} :
    isPresent nsig mask c = true ↔ mask[c.1 * nsig + c.2]? = some true := by
  rw [isPresent, List.getD_eq_getElem?_getD]
  rcases mask[c.1 * nsig + c.2]? with _ | bit <;> simp

/-- The cells are those that the masks mark. -/
theorem mem_cells_iff (h : 169 ≤ bits.length) {a b : ℕ} :
    (a, b) ∈ (presentCells (nsatOf bits) (nsigOf bits) (cellMaskOf bits)).map (idsOf bits) ↔
      Marked bits a b := by
  have hsatLen := length_satMaskOf h
  have hsigLen := length_sigMaskOf h
  rw [List.mem_map]
  constructor
  · -- The identifiers of a cell are the places of its ranks.
    rintro ⟨c, hc, hids⟩
    obtain ⟨hprod, hpresent⟩ := List.mem_filter.1 hc
    obtain ⟨hsat, hsig⟩ := getElem?_idsOf hprod
    rw [hids] at hsat hsig
    obtain ⟨ha, hsatBit, hrankA⟩ := getElem?_places_iff.1 hsat
    obtain ⟨hb, hsigBit, hrankB⟩ := getElem?_places_iff.1 hsig
    have hlta := (List.getElem?_eq_some_iff.1 hsatBit).1
    have hltb := (List.getElem?_eq_some_iff.1 hsigBit).1
    refine ⟨⟨ha, by omega⟩, ⟨hb, by omega⟩, hsatBit, hsigBit, ?_⟩
    rw [hrankA, hrankB]
    exact isPresent_iff.1 hpresent
  · -- A marked pair is the cell of its two ranks.
    rintro ⟨ha, hb, hsatBit, hsigBit, hcell⟩
    have hsat := getElem?_places_iff.2 ⟨ha.1, hsatBit, rfl⟩
    have hsig := getElem?_places_iff.2 ⟨hb.1, hsigBit, rfl⟩
    have hlta := (List.getElem?_eq_some_iff.1 hsat).1
    have hltb := (List.getElem?_eq_some_iff.1 hsig).1
    rw [length_places] at hlta hltb
    refine ⟨(rank (satMaskOf bits) a, rank (sigMaskOf bits) b), List.mem_filter.2 ⟨?_, ?_⟩, ?_⟩
    · exact List.mem_product.2 ⟨List.mem_range.2 hlta, List.mem_range.2 hltb⟩
    · exact isPresent_iff.2 hcell
    · rw [idsOf, List.getD_eq_getElem?_getD, hsat, List.getD_eq_getElem?_getD, hsig]
      rfl

/-- The cells come in lexicographic order. -/
theorem pairwise_cells (bits : List Bool) :
    ((presentCells (nsatOf bits) (nsigOf bits) (cellMaskOf bits)).map (idsOf bits)).Pairwise
      (Prod.Lex (· < ·) (· < ·)) := by
  have hindices := (pairwise_product (List.pairwise_lt_range (n := nsatOf bits))
    (List.pairwise_lt_range (n := nsigOf bits))).filter (isPresent (nsigOf bits) (cellMaskOf bits))
  refine List.pairwise_map.2 (hindices.imp_of_mem fun {c d} hc hd hcd => ?_)
  obtain ⟨hsatC, hsigC⟩ := getElem?_idsOf (List.mem_filter.1 hc).1
  obtain ⟨hsatD, hsigD⟩ := getElem?_idsOf (List.mem_filter.1 hd).1
  rw [Prod.lex_def] at hcd ⊢
  rcases hcd with hlt | ⟨heq, hlt⟩
  · exact .inl (lt_of_getElem?_places hsatC hsatD hlt)
  · rw [heq] at hsatC
    exact .inr ⟨Option.some.inj (hsatC.symm.trans hsatD), lt_of_getElem?_places hsigC hsigD hlt⟩

end Msm

namespace RtcmMessageDecoder

namespace Item

/-- The satellite and the signal of the line of a cell. -/
def cell? : Item → Option (ℕ × ℕ)
  | observation _ o => some (o.sat, o.sigId)
  | _ => none

/-- The satellite of a heading. -/
def prn? : Item → Option ℕ
  | heading _ sat => some sat
  | _ => none

end Item

variable {c : Char} {last : ℤ} {obs : List Msm.Observation} {payload : Bytes}

/-- Headings apart, the lines of a report show the pairs of its observations. -/
theorem filterMap_cell?_reportLines (last : ℤ) (obs : List Msm.Observation) :
    (reportLines c last obs).filterMap Item.cell? = obs.map fun o => (o.sat, o.sigId) := by
  induction obs generalizing last with
  | nil => rfl
  | cons o obs ih =>
    have hcell : (Item.observation (signalInfo c o.sigId) o).cell? = some (o.sat, o.sigId) := rfl
    rw [reportLines, List.filterMap_append, List.filterMap_cons_some hcell, ih, List.map_cons]
    split_ifs <;> rfl

/-- A heading stands where the satellite changes. -/
theorem filterMap_prn?_reportLines (last : ℤ) (o : Msm.Observation) (obs : List Msm.Observation) :
    (reportLines c last (o :: obs)).filterMap Item.prn? =
      (if (o.sat : ℤ) ≠ last then [o.sat] else []) ++
        (reportLines c o.sat obs).filterMap Item.prn? := by
  have hline : (Item.observation (signalInfo c o.sigId) o).prn? = none := rfl
  rw [reportLines, List.filterMap_append, List.filterMap_cons_none hline]
  split_ifs <;> rfl

/-- If the cells are sorted by satellites, each of these has one heading. -/
theorem headings_reportLines (hsorted : obs.Pairwise fun o o' => o.sat ≤ o'.sat)
    (hlast : ∀ o ∈ obs, last ≤ o.sat) :
    ((reportLines c last obs).filterMap Item.prn?).Pairwise (· < ·) ∧
      ∀ a, a ∈ (reportLines c last obs).filterMap Item.prn? ↔
        last < a ∧ ∃ o ∈ obs, o.sat = a := by
  induction obs generalizing last with
  | nil => simp [reportLines]
  | cons o obs ih =>
    obtain ⟨hle, hrest⟩ := List.pairwise_cons.1 hsorted
    have hlater : ∀ o' ∈ obs, (o.sat : ℤ) ≤ o'.sat := fun o' ho' => by exact_mod_cast hle o' ho'
    obtain ⟨hpairwise, hmem⟩ := ih hrest hlater
    have ho := hlast o (List.mem_cons_self ..)
    -- A later cell is of the same satellite, or of one behind it.
    have hsplit : ∀ a : ℕ, (∃ o' ∈ o :: obs, o'.sat = a) ↔
        a = o.sat ∨ (o.sat : ℤ) < a ∧ ∃ o' ∈ obs, o'.sat = a := by
      intro a
      rw [List.exists_mem_cons_iff]
      refine ⟨?_, ?_⟩
      · rintro (rfl | ⟨o', ho', rfl⟩)
        · exact .inl rfl
        · rcases (hle o' ho').eq_or_lt with heq | hlt
          · exact .inl heq.symm
          · exact .inr ⟨by exact_mod_cast hlt, o', ho', rfl⟩
      · rintro (rfl | ⟨_, h⟩)
        · exact .inl rfl
        · exact .inr h
    rw [filterMap_prn?_reportLines]
    by_cases hnew : (o.sat : ℤ) ≠ last
    · rw [if_pos hnew, List.singleton_append]
      refine ⟨List.pairwise_cons.2 ⟨fun a ha => ?_, hpairwise⟩, fun a => ?_⟩
      · exact_mod_cast ((hmem a).1 ha).1
      · have hlt : last < o.sat := by omega
        rw [List.mem_cons, hmem, hsplit]
        refine ⟨fun h => ⟨?_, h⟩, fun h => h.2⟩
        rcases h with rfl | ⟨h, _⟩
        · exact hlt
        · exact hlt.trans h
    · rw [if_neg hnew, List.nil_append]
      refine ⟨hpairwise, fun a => ?_⟩
      rw [hmem, hsplit]
      refine ⟨fun h => ⟨by omega, .inr h⟩, fun h => h.2.resolve_left fun heq => ?_⟩
      have := h.1
      omega

/-- Each line stands under the heading of its satellite. -/
theorem each_reportLines (before : List Item)
    (hlast : ∀ sat : ℕ, last = sat → (before.filterMap Item.prn?).getLast? = some sat) :
    Trace.Each (fun l₁ x _ => ∀ sig o, x = .observation sig o →
      ((before ++ l₁).filterMap Item.prn?).getLast? = some o.sat ∧ sig = signalInfo c o.sigId)
      (reportLines c last obs) := by
  induction obs generalizing last before with
  | nil => exact Trace.each_nil
  | cons o obs ih =>
    set heading : List Item := if (o.sat : ℤ) ≠ last then [.heading c o.sat] else [] with hheading
    -- The last heading before the line, be it new or not.
    have hunder : ((before ++ heading).filterMap Item.prn?).getLast? = some o.sat := by
      rw [hheading, List.filterMap_append]
      split_ifs with hnew
      · simp [Item.prn?]
      · rw [List.filterMap_nil, List.append_nil]
        exact hlast _ (not_ne_iff.1 hnew).symm
    set line := Item.observation (signalInfo c o.sigId) o with hline
    have hlater (sat : ℕ) (hsat : (o.sat : ℤ) = sat) :
        ((before ++ (heading ++ [line])).filterMap Item.prn?).getLast? = some sat := by
      have hnone : [line].filterMap Item.prn? = [] := rfl
      rw [← Int.ofNat_inj.1 hsat, ← hunder, ← List.append_assoc, List.filterMap_append, hnone,
        List.append_nil]
    have hrest := ih _ hlater
    have hlines : reportLines c last (o :: obs) =
        (heading ++ [line]) ++ reportLines c o.sat obs := by
      rw [reportLines, List.append_assoc, List.singleton_append]
    have hnone : ∀ item ∈ heading, ¬item.isObservation = true := by
      rw [hheading]
      split_ifs <;> simp [Item.isObservation]
    rw [hlines, Trace.each_append, Trace.each_concat]
    refine ⟨⟨?_, ?_⟩, ?_⟩
    · rintro l₁ x l₂ hsplit sig o' rfl
      refine absurd rfl (hnone (.observation sig o') ?_)
      rw [hsplit]
      exact List.mem_append_right _ (List.mem_cons_self ..)
    · rintro sig o' h
      rw [hline] at h
      obtain ⟨rfl, rfl⟩ := Item.observation.inj h
      exact ⟨hunder, rfl⟩
    · simpa only [List.append_assoc] using hrest

/-- Every heading carries the letter of the message's constellation. -/
theorem constel_of_mem_reportLines {c' : Char} {sat : ℕ}
    (h : .heading c' sat ∈ reportLines c last obs) : c' = c := by
  induction obs generalizing last with
  | nil => exact absurd h List.not_mem_nil
  | cons o obs ih =>
    rw [reportLines, List.mem_append, List.mem_cons] at h
    rcases h with h | h | h
    · split_ifs at h
      · exact (Item.heading.inj (List.mem_singleton.1 h)).1
      · exact absurd h List.not_mem_nil
    · exact absurd h (by simp)
    · exact ih h

/-- The lines of the cells are those that the masks mark, in lexicographic order,
    each under the heading of its satellite. -/
theorem decode_msm_cells (htype : Msm.Supported (messageType payload))
    (hroom : 8 * payload.length + 64 < 2 ^ 64)
    (hlen : Msm.neededBits (messageType payload) (bitsOf payload) ≤ 8 * payload.length) :
    ∃ items, decode payload = .ok items ∧
      (items.filterMap Item.cell?).Pairwise (Prod.Lex (· < ·) (· < ·)) ∧
      (∀ a b, (a, b) ∈ items.filterMap Item.cell? ↔ Msm.Marked (bitsOf payload) a b) ∧
      (items.filterMap Item.prn?).Pairwise (· < ·) ∧
      (∀ a, a ∈ items.filterMap Item.prn? ↔ ∃ b, Msm.Marked (bitsOf payload) a b) ∧
      (∀ c a, .heading c a ∈ items → c = constellationCode (messageType payload)) ∧
      Trace.Each (fun l₁ x _ => ∀ sig o, x = .observation sig o →
        (l₁.filterMap Item.prn?).getLast? = some o.sat ∧
          sig = signalInfo (constellationCode (messageType payload)) o.sigId) items := by
  have hbits : (bitsOf payload).length = 8 * payload.length := length_bitsOf _
  have hneed := hlen.trans hbits.ge
  have hmin : 169 ≤ (bitsOf payload).length := by rw [Msm.neededBits] at hneed; omega
  have hdecode := decode_msm_of_needed htype hlen [] (by rwa [List.append_nil])
  rw [List.append_nil] at hdecode
  set report := Msm.reportOf (messageType payload) (bitsOf payload)
  set c := constellationCode (messageType payload)
  -- What is written before the cells has no lines of them.
  obtain ⟨fields, hitems, hplain⟩ : ∃ fields,
      headItems (messageType payload) payload.length ++ reportItems c report =
        fields ++ reportLines c (-1) report.observations ∧
      ∀ item ∈ fields, item.cell? = none ∧ item.prn? = none := by
    refine ⟨_, (List.append_assoc ..).symm, List.forall_mem_append.2 ⟨?_, ?_⟩⟩
    · rw [headItems]
      split_ifs <;> simp [Item.cell?, Item.prn?]
    · simp [Item.cell?, Item.prn?]
  have hcell := List.filterMap_eq_nil_iff.2 fun item h => (hplain item h).1
  have hprn := List.filterMap_eq_nil_iff.2 fun item h => (hplain item h).2
  have hids : report.observations.map _ = _ := Msm.observations_reportOf hneed
  have hsorted : report.observations.Pairwise fun o o' => o.sat ≤ o'.sat := by
    have hlex := Msm.pairwise_cells (bitsOf payload)
    rw [← hids, List.pairwise_map] at hlex
    exact hlex.imp fun h => (Prod.lex_def.1 h).elim le_of_lt fun h => h.1.le
  have hfirst : ∀ o ∈ report.observations, (-1 : ℤ) ≤ o.sat := fun o _ => by omega
  obtain ⟨hpairwise, hmem⟩ := headings_reportLines (c := c) hsorted hfirst
  rw [hitems] at hdecode
  refine ⟨_, hdecode, ?_⟩
  rw [List.filterMap_append, List.filterMap_append, hcell, hprn, List.nil_append, List.nil_append,
    filterMap_cell?_reportLines, hids]
  refine ⟨Msm.pairwise_cells _, fun a b => Msm.mem_cells_iff hmin, hpairwise, fun a => ?_,
    fun c' a h => ?_, Trace.each_append.2 ⟨?_, ?_⟩⟩
  · -- The satellites of the lines are the first numbers of the cells.
    rw [hmem]
    simp only [← Msm.mem_cells_iff hmin, ← hids, List.mem_map, Prod.mk.injEq]
    constructor
    · rintro ⟨_, o, ho, rfl⟩
      exact ⟨o.sigId, o, ho, rfl, rfl⟩
    · rintro ⟨b, o, ho, rfl, _⟩
      exact ⟨by omega, o, ho, rfl⟩
  · rcases List.mem_append.1 h with h | h
    · exact absurd (hplain _ h).2 (by simp [Item.prn?])
    · exact constel_of_mem_reportLines h
  · rintro l₁ x l₂ rfl sig o rfl
    have hmem : Item.observation sig o ∈ l₁ ++ Item.observation sig o :: l₂ := by simp
    exact absurd (hplain _ hmem).1 (by simp [Item.cell?])
  · exact each_reportLines fields fun sat h => by omega

/-- A GPS MSM4 message of the satellites 3, 7 and 40 with the signals 2, 15 and 22, of which the
    first satellite has the first and the last one, the second one the second one, and the third
    one the first two. -/
def fiveCells : Bytes :=
  [0x43, 0x20, 0x07, 0, 0x07, 0x89, 0, 0, 0, 0x11, 0, 0, 0, 0, 0x80, 0, 0, 0x20, 0x01, 0x02, 0,
    0x55, 0x91, 0x92, 0xD4, 0x06, 0x48, 0x03, 0xFF, 0, 0x02, 0x01, 0xC0, 0x06, 0xF8, 0x14, 0xE0,
    0x37, 0xA0] ++ List.replicate 20 0

theorem decode_msm_cells_fiveCells : ∃ items, decode fiveCells = .ok items ∧
    (items.filterMap Item.cell?).Pairwise (Prod.Lex (· < ·) (· < ·)) ∧
    (∀ cell ∈ [(3, 2), (3, 22), (7, 15), (40, 2), (40, 15)],
      cell ∈ items.filterMap Item.cell?) ∧
    (∀ cell ∈ [(3, 15), (7, 2), (7, 22), (40, 22), (8, 2)],
      cell ∉ items.filterMap Item.cell?) ∧
    ∀ sat ∈ [3, 7, 40], sat ∈ items.filterMap Item.prn? := by
  obtain ⟨items, hdecode, hpairwise, hcells, -, hprns, -⟩ :=
    @decode_msm_cells fiveCells (by decide) (by decide) (by decide +kernel)
  have hmarked : ∀ cell ∈ [(3, 2), (3, 22), (7, 15), (40, 2), (40, 15)],
      Msm.Marked (bitsOf fiveCells) cell.1 cell.2 := by
    unfold Msm.Marked
    decide +kernel
  have hunmarked : ∀ cell ∈ [(3, 15), (7, 2), (7, 22), (40, 22), (8, 2)],
      ¬Msm.Marked (bitsOf fiveCells) cell.1 cell.2 := by
    unfold Msm.Marked
    decide +kernel
  refine ⟨items, hdecode, hpairwise, fun cell h => (hcells _ _).2 (hmarked cell h),
    fun cell h hcell => hunmarked cell h ((hcells _ _).1 hcell), fun sat h => (hprns sat).2 ?_⟩
  have hfirst : ∀ sat ∈ [3, 7, 40], ∃ b ∈ [2, 15], Msm.Marked (bitsOf fiveCells) sat b := by
    unfold Msm.Marked
    decide +kernel
  obtain ⟨b, -, hb⟩ := hfirst sat h
  exact ⟨b, hb⟩

end RtcmMessageDecoder

end RtcmBridge

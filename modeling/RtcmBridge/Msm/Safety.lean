import RtcmBridge.Msm.Read
import RtcmBridge.Safety
import Mathlib.Tactic

/-!
# The MSM decoder is safe

Whatever the masks are, `decode_msm` settles: it reads as many bits as it needs, or
reports an error (`settles_decodeMsm`). The indices of its cells are those of
satellites and signals, so no access is outside of a vector.
-/

namespace RtcmBridge.Msm

open BitReader

variable {α β : Type} {lv : Level} {text : String}

/-- The header is read or reported as missing. -/
theorem settles_readHeader : Settles readHeader fun _ => True := by
  unfold readHeader
  refine (Settles.getU _ (by decide)).bind fun _ _ => ?_
  refine (Settles.getU _ (by decide)).bind fun _ _ => ?_
  refine (Settles.getU _ (by decide)).bind fun _ _ => ?_
  refine (Settles.getU _ (by decide)).bind fun _ _ => ?_
  refine (Settles.skip _ (by decide)).bind fun _ _ => ?_
  refine (Settles.getU _ (by decide)).bind fun _ _ => ?_
  refine (Settles.getU _ (by decide)).bind fun _ _ => ?_
  refine (Settles.getU _ (by decide)).bind fun _ _ => ?_
  refine (Settles.getU _ (by decide)).bind fun _ _ => ?_
  refine (Settles.getU _ (by decide)).bind fun _ _ => ?_
  refine (Settles.getU _ (by decide)).bind fun _ _ => ?_
  exact .pure trivial

theorem settles_readPresent : Settles readPresent fun _ => True :=
  (Settles.getU _ (by decide)).bind fun _ _ => .pure trivial

/-- With or without the range rates. -/
theorem settles_withRate {x : Reading α} (hx : Settles x fun _ => True) :
    Settles (lv.withRate x) fun _ => True := by
  rw [Level.withRate]
  split_ifs
  · exact hx.map fun _ => ()
  · exact .pure trivial

theorem settles_readSat : Settles (readSat lv) fun _ => True := by
  unfold readSat
  refine (Settles.getU _ (by decide)).bind fun _ _ => ?_
  refine (settles_withRate (Settles.getU _ (by decide))).bind fun _ _ => ?_
  refine (Settles.getU _ (by decide)).bind fun _ _ => ?_
  refine (settles_withRate (Settles.getS _ (by decide))).bind fun _ _ => ?_
  exact .pure trivial

/-- A cell that is read has the indices that it was read for. -/
theorem settles_readCell (satIdx sigIdx : ℕ) :
    Settles (readCell lv satIdx sigIdx) fun c => c.satIdx = satIdx ∧ c.sigIdx = sigIdx := by
  unfold readCell
  refine (Settles.getS _ (prBits_lt lv)).bind fun _ _ => ?_
  refine (Settles.getS _ (cpBits_lt lv)).bind fun _ _ => ?_
  refine (Settles.getU _ (lockBits_le lv)).bind fun _ _ => ?_
  refine (Settles.getU _ (by decide)).bind fun _ _ => ?_
  refine (Settles.getU _ (cnrBits_le lv)).bind fun _ _ => ?_
  refine (settles_withRate (Settles.getS _ (by decide))).bind fun _ _ => ?_
  exact .pure ⟨rfl, rfl⟩

/-- The cells that are read are some of those that the loop goes through. -/
theorem settles_readCells {nsig : ℕ} {cellPresent : List UInt8} (cs : List (ℕ × ℕ))
    (hcs : ∀ c ∈ cs, c.1 * nsig + c.2 < cellPresent.length) :
    Settles (readCells lv nsig cellPresent cs)
      fun cells => ∀ c ∈ cells, (c.satIdx, c.sigIdx) ∈ cs := by
  induction cs with
  | nil => exact .pure fun c hc => absurd hc List.not_mem_nil
  | cons c cs ih =>
    have hrest := ih fun c hc => hcs c (List.mem_cons_of_mem _ hc)
    have hfetch := fetch_of_lt (hcs c (List.mem_cons_self ..))
    rw [readCells]
    refine (Settles.lift hfetch trivial).bind (P := fun _ => True) fun _ _ => ?_
    split_ifs
    · exact hrest.mono fun cells h d hd => List.mem_cons_of_mem _ (h d hd)
    · refine (settles_readCell c.1 c.2).bind fun cell hcell => ?_
      refine hrest.bind fun cells hcells => .pure (List.forall_mem_cons.2 ⟨?_, fun d hd => ?_⟩)
      · rw [hcell.1, hcell.2]
        exact List.mem_cons_self ..
      · exact List.mem_cons_of_mem _ (hcells d hd)

/-- The loops go through the places of the cell mask. -/
theorem flat_lt {nsat nsig : ℕ} {c : ℕ × ℕ} (hc : c ∈ List.range nsat ×ˢ List.range nsig) :
    c.1 * nsig + c.2 < nsat * nsig := by
  rw [← List.mem_range, ← flat_product]
  exact List.mem_map.2 ⟨c, hc, rfl⟩

/-- `decode_msm` never accesses a vector out of its range, for any type. -/
theorem settles_decodeMsm (type : ℕ) : Settles (decodeMsm type) fun _ => True := by
  rw [decodeMsm]
  split_ifs
  · exact .pure trivial
  · exact .pure trivial
  refine settles_readHeader.bind fun header _ => ?_
  refine (Settles.mapM _ fun _ _ => settles_readPresent).bind fun cellPresent hpresent => ?_
  refine (Settles.mapM _ fun _ _ => settles_readSat).bind fun sats hsats => ?_
  rw [List.length_range] at hpresent hsats
  refine (settles_readCells _ fun c hc => ?_).bind fun cells hcells => ?_
  · rw [hpresent.1]
    exact flat_lt hc
  · refine (Settles.lift (mapM_observe fun c hc => ?_) trivial).bind (P := fun _ => True)
      fun _ _ => .pure trivial
    obtain ⟨hsat, hsig⟩ := List.mem_product.1 (hcells c hc)
    rw [List.mem_range] at hsat hsig
    rw [length_satIds, length_sigIds, List.length_map, List.length_map, hsats.1]
    exact ⟨hsat, hsig, hsat, hsat⟩

end RtcmBridge.Msm

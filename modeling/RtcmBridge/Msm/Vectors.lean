import RtcmBridge.Msm.Basic
import Mathlib.Tactic

/-!
# The vectors of the MSM decoder

The function `decode_msm` with its vectors: the flags of the cells and the two
parts of the rough ranges are stored, one after the other, into vectors that were
made as long as the masks say. A store outside of a vector is undefined. The
function does what `decodeMsm` does (`decodeMsmStoring_eq`), so none ever is.
-/

namespace RtcmBridge

open BitReader

/-- `v[i] = a`. -/
def store {α : Type} (v : List α) (i : ℕ) (a : α) : Except Stop (List α) :=
  if i < v.length then pure (v.set i a) else throw .undefined

namespace Msm

/-- The loop over the cell mask, from the cell `i` on. -/
def storePresent : ℕ → ℕ → List UInt8 → Reading (List UInt8)
  | 0, _, cellPresent => pure cellPresent
  | turns + 1, i, cellPresent => do
    let bit ← need " decode_error=invalid_msm_cell_mask" (getU 1)
    let cellPresent ← (store cellPresent i bit.toUInt8 : Except Stop _)
    storePresent turns (i + 1) cellPresent

/-- The loop over the satellites, from the satellite `i` on. -/
def storeSats (lv : Level) :
    ℕ → ℕ → List UInt64 → List UInt64 → Reading (List UInt64 × List UInt64)
  | 0, _, roughMsWhole, roughMod1_1024 => pure (roughMsWhole, roughMod1_1024)
  | turns + 1, i, roughMsWhole, roughMod1_1024 => do
    let u ← need " decode_error=truncated_msm_sat_data" (getU 8)
    let roughMsWhole ← (store roughMsWhole i u : Except Stop _)
    lv.withRate (need " decode_error=truncated_msm_sat_ext_info" (getU 4))
    let u ← need " decode_error=truncated_msm_rough_range_mod" (getU 10)
    let roughMod1_1024 ← (store roughMod1_1024 i u : Except Stop _)
    lv.withRate (need " decode_error=truncated_msm_rate" (getS 14))
    storeSats lv turns (i + 1) roughMsWhole roughMod1_1024

/-- `decodeMsm`, with the vectors that the loops store into. -/
def decodeMsmStoring (type : ℕ) : Reading (Option Report) :=
  if type < 1071 ∨ 1127 < type then pure none
  else if type % 10 < 4 ∨ 7 < type % 10 then pure none
  else do
    let lv := Level.ofType type
    let header ← readHeader
    let nsat := popcount64 header.satMask
    let nsig := popcount32 header.sigMask.toUInt32
    let maxCells := nsat * nsig
    let satIds := satIds header.satMask
    let sigIds := sigIds header.sigMask
    let cellPresent ← storePresent maxCells 0 (List.replicate maxCells 0)
    let (roughMsWhole, roughMod1_1024) ←
      storeSats lv nsat 0 (List.replicate nsat 0) (List.replicate nsat 0)
    let cells ← readCells lv nsig cellPresent (List.range nsat ×ˢ List.range nsig)
    let observations ←
      (cells.mapM (observe lv satIds sigIds roughMsWhole roughMod1_1024) : Except Stop _)
    pure (some {
      header, nsat, nsig, satIds, sigIds, roughMsWhole, roughMod1_1024, cells, observations
      ncells := (cellPresent.map UInt8.toNat).sum })

/-- The first of the places that are left is filled. -/
theorem store_append {α : Type} (done : List α) (n : ℕ) (z a : α) :
    store (done ++ List.replicate (n + 1) z) done.length a =
      .ok (done ++ [a] ++ List.replicate n z) := by
  rw [store, if_pos (by simp), List.set_append_right _ _ le_rfl, Nat.sub_self, List.replicate_succ,
    List.set_cons_zero, List.append_assoc, List.singleton_append]
  rfl

/-- The same reading, `n + 1` times. -/
theorem mapM_range_succ {α : Type} (x : Reading α) (n : ℕ) :
    ((List.range (n + 1)).mapM fun _ => x) =
      x >>= fun a => ((List.range n).mapM fun _ => x) >>= fun as => pure (a :: as) := by
  rw [List.range_succ_eq_map, List.mapM_cons, List.mapM_map]
  rfl

theorem liftM_ok {α : Type} (a : α) : (liftM (Except.ok a : Except Stop α) : Reading α) = pure a :=
  rfl

/-- The loop over the cell mask appends to the flags that are stored. -/
theorem storePresent_eq (n : ℕ) (done : List UInt8) :
    storePresent n done.length (done ++ List.replicate n 0) =
      (List.range n).mapM (fun _ => readPresent) >>= fun bits => pure (done ++ bits) := by
  induction n generalizing done with
  | zero => simp [storePresent]
  | succ n ih =>
    have hstep (bit : UInt8) := ih (done ++ [bit])
    simp only [List.length_append, List.length_singleton] at hstep
    simp only [storePresent, store_append, liftM_ok, mapM_range_succ, readPresent, bind_assoc,
      pure_bind, hstep]
    simp

/-- The loop over the satellites appends to both parts that are stored. -/
theorem storeSats_eq (lv : Level) (n : ℕ) (whole mod : List UInt64)
    (h : whole.length = mod.length) :
    storeSats lv n whole.length (whole ++ List.replicate n 0) (mod ++ List.replicate n 0) =
      (List.range n).mapM (fun _ => readSat lv) >>= fun sats =>
        pure (whole ++ sats.map Prod.fst, mod ++ sats.map Prod.snd) := by
  induction n generalizing whole mod with
  | zero => simp [storeSats]
  | succ n ih =>
    have hstep (u v : UInt64) := ih (whole ++ [u]) (mod ++ [v]) (by simp [h])
    have hmod (v : UInt64) := store_append mod n 0 v
    rw [← h] at hmod
    simp only [List.length_append, List.length_singleton] at hstep
    simp only [storeSats, store_append, hmod, liftM_ok, mapM_range_succ, readSat, bind_assoc,
      pure_bind, hstep]
    simp

/-- The vectors are long enough for all stores. -/
theorem decodeMsmStoring_eq : decodeMsmStoring = decodeMsm := by
  funext type
  rw [decodeMsmStoring, decodeMsm]
  have hpresent (n : ℕ) := storePresent_eq n []
  have hsats (lv : Level) (n : ℕ) := storeSats_eq lv n [] [] rfl
  simp only [List.length_nil, List.nil_append] at hpresent hsats
  simp only [hpresent, hsats, bind_assoc, pure_bind]

end Msm

end RtcmBridge

import RtcmBridge.BitReader
import Mathlib.Tactic

/-!
# Readings

A reading *reads* the bits `l` as the value `a` (`Reads`) if, before bits that
begin with `l`, it takes just these and returns `a`, whatever follows. What a
decoder reads is put together from its parts (`Reads.bind`, `Reads.mapM`), down
to the fields (`reads_getU`, `reads_getS`).
-/

namespace RtcmBridge

open BitReader

variable {α β : Type} {x : Reading α} {f : α → Reading β} {l m : List Bool} {a : α} {b : β}

/-- Before bits that begin with `l`, `x` takes these and returns `a`. -/
def Reads (x : Reading α) (l : List Bool) (a : α) : Prop :=
  ∀ br rest, br.At (l ++ rest) → ∃ br', x br = .ok (a, br') ∧ br'.At rest

namespace Reads

/-- A value is returned without any bits. -/
theorem pure (a : α) : Reads (pure a) [] a := fun br _ h => ⟨br, rfl, h⟩

theorem pure_of_length (a : α) (h : l.length = 0) : Reads (Pure.pure a) l a := by
  rw [List.length_eq_zero_iff.1 h]
  exact pure a

/-- A computation that reads nothing returns its value without any bits. -/
theorem lift {x : Except Stop α} (h : x = .ok a) : Reads (liftM x) [] a := fun br _ hat =>
  ⟨br, by rw [h]; rfl, hat⟩

/-- What two readings take stands one behind the other. -/
theorem bind (hx : Reads x l a) (hf : Reads (f a) m b) : Reads (x >>= f) (l ++ m) b := by
  intro br rest h
  rw [List.append_assoc] at h
  obtain ⟨br₁, h₁, hat₁⟩ := hx br _ h
  obtain ⟨br₂, h₂, hat₂⟩ := hf br₁ rest hat₁
  exact ⟨br₂, (bind_ok h₁).trans h₂, hat₂⟩

/-- A reading that takes the first `n` bits, and then one that takes the others. -/
theorem bind_take (n : ℕ) (hx : Reads x (l.take n) a) (hf : Reads (f a) (l.drop n) b) :
    Reads (x >>= f) l b := by
  have := hx.bind hf
  rwa [List.take_append_drop] at this

/-- A reading that takes no bits, and then one that takes all. -/
theorem bind_nil (hx : Reads x [] a) (hf : Reads (f a) l b) : Reads (x >>= f) l b := hx.bind hf

/-- A reading that takes all bits, and then one that takes none. -/
theorem bind_end (hx : Reads x l a) (hf : Reads (f a) [] b) : Reads (x >>= f) l b := by
  have := hx.bind hf
  rwa [List.append_nil] at this

theorem map (g : α → β) (hx : Reads x l a) : Reads (g <$> x) l (g a) := by
  rw [← bind_pure_comp]
  exact hx.bind_end (pure (g a))

/-- A loop over `is` whose turns read the parts of a bit string, one after the other. -/
theorem mapM {ι : Type} {g : ι → Reading α} {h : List Bool → α} (is : List ι)
    (parts : List (List Bool)) (hlen : parts.length = is.length)
    (hg : ∀ i, ∀ part ∈ parts, Reads (g i) part (h part)) :
    Reads (is.mapM g) parts.flatten (parts.map h) := by
  induction is generalizing parts with
  | nil =>
    rw [List.length_eq_zero_iff.1 hlen]
    exact Reads.pure []
  | cons i is ih =>
    obtain ⟨part, parts, rfl⟩ := List.exists_cons_of_length_eq_add_one hlen
    rw [List.length_cons, List.length_cons, Nat.add_right_cancel_iff] at hlen
    have hrest := ih parts hlen fun i p hp => hg i p (List.mem_cons_of_mem _ hp)
    rw [List.mapM_cons, List.flatten_cons, List.map_cons]
    exact (hg i part (List.mem_cons_self ..)).bind (hrest.bind_end (pure _))

/-- A field that is there is read without its error. -/
theorem need {x : Reading (Option α)} (text : String) (h : Reads x l (some a)) :
    Reads (need text x) l a := by
  intro br rest hat
  obtain ⟨br', hx, hat'⟩ := h br rest hat
  exact ⟨br', bind_ok hx, hat'⟩

end Reads

/-! ### Fields -/

/-- A call that takes the next `n` bits, wherever there are as many. -/
theorem reads_of_length {n : ℕ} {v : List Bool → α}
    (h : ∀ br l, br.At l → n ≤ l.length → ∃ br', x br = .ok (v (l.take n), br') ∧ br'.At (l.drop n))
    (hlen : l.length = n) : Reads x l (v l) := by
  intro br rest hat
  have := h br (l ++ rest) hat (by rw [List.length_append]; omega)
  rwa [List.take_left' hlen, List.drop_left' hlen] at this

/-- `getU` takes the bits of a field as an unsigned number. -/
theorem reads_getU {n : ℕ} (hlen : l.length = n) (hn : n ≤ 64) :
    Reads (getU n) l (some (unsigned l)) :=
  reads_of_length (v := fun l => some (unsigned l)) (fun _ _ hat hl => getU_of_le hat hn hl) hlen

/-- `getS` takes them as a signed one. -/
theorem reads_getS {n : ℕ} (hlen : l.length = n) (hn : n < 64) :
    Reads (getS n) l (some (signed l)) :=
  reads_of_length (v := fun l => some (signed l)) (fun _ _ hat hl => getS_of_le hat hn hl) hlen

/-- `skip` takes them without a value. -/
theorem reads_skip {n : ℕ} (hlen : l.length = n) (hn : n ≤ 64) :
    Reads (skip (.ofNat n)) l (some ()) :=
  reads_of_length (v := fun _ => some ()) (fun _ _ hat hl => skip_of_le hat hn hl) hlen

namespace Reads

/-- One more field of a record, of `n` bits, before `k` others. -/
theorem bind_field {x : Reading (Option α)} {v : List Bool → α} {n k : ℕ} {text : String}
    (hx : ∀ m : List Bool, m.length = n → Reads x m (some (v m))) (hl : l.length = n + k)
    (hf : (l.drop n).length = k → Reads (f (v (l.take n))) (l.drop n) b) :
    Reads (RtcmBridge.need text x >>= f) l b := by
  have hlen : (l.take n).length = n := by rw [List.length_take, hl, Nat.min_eq_left (by omega)]
  exact bind_take n (need text (hx _ hlen))
    (hf (by rw [List.length_drop, hl, Nat.add_sub_cancel_left]))

/-- A reading that begins with an unsigned field of the first `n` bits. -/
theorem bind_unsigned {f : UInt64 → Reading β} {n k : ℕ} {text : String} (hn : n ≤ 64)
    (hl : l.length = n + k)
    (hf : (l.drop n).length = k → Reads (f (unsigned (l.take n))) (l.drop n) b) :
    Reads (RtcmBridge.need text (getU n) >>= f) l b :=
  bind_field (fun _ hm => reads_getU hm hn) hl hf

/-- A reading that begins with a signed field. -/
theorem bind_signed {f : ℤ → Reading β} {n k : ℕ} {text : String} (hn : n < 64)
    (hl : l.length = n + k)
    (hf : (l.drop n).length = k → Reads (f (signed (l.take n))) (l.drop n) b) :
    Reads (RtcmBridge.need text (getS n) >>= f) l b :=
  bind_field (fun _ hm => reads_getS hm hn) hl hf

/-- A reading that begins with a field that is skipped. -/
theorem bind_skip {f : Unit → Reading β} {n k : ℕ} {text : String} (hn : n ≤ 64)
    (hl : l.length = n + k) (hf : (l.drop n).length = k → Reads (f ()) (l.drop n) b) :
    Reads (RtcmBridge.need text (skip (.ofNat n)) >>= f) l b :=
  bind_field (fun _ hm => reads_skip hm hn) hl hf

end Reads

end RtcmBridge

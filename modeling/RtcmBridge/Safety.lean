import RtcmBridge.Reading
import Mathlib.Tactic

/-!
# Readings that are safe

A reading is *safe* if it is never undefined: wherever it stands, it returns or
reports an error (`Safe`). It *settles* if, in addition, what it returns does not
depend on the bits that it leaves (`Settles`): then it reads some first bits of
those it stands before, in the sense of `Reads`. Both are put together from
parts, with a property of what is returned.
-/

namespace RtcmBridge

open BitReader

variable {α β : Type} {x : Reading α} {f : α → Reading β} {P P' : α → Prop} {Q : β → Prop}
  {l m : List Bool} {a b : α} {n : ℕ} {text : String}

/-- Wherever it stands, `x` returns a value that satisfies `P`, or reports an error. -/
def Safe (x : Reading α) (P : α → Prop) : Prop :=
  ∀ br l, br.At l → (∃ a br' l', x br = .ok (a, br') ∧ br'.At l' ∧ P a) ∨
    ∃ text, x br = .error (.report text)

/-- Before any bits, `x` reads the first of them as a value that satisfies `P`, or
    reports an error. -/
def Settles (x : Reading α) (P : α → Prop) : Prop :=
  ∀ l, (∃ l₁ l₂ a, l = l₁ ++ l₂ ∧ Reads x l₁ a ∧ P a) ∨
    ∃ text, ∀ br : BitReader, br.At l → x br = .error (.report text)

/-- A stop of the first reading is a stop of the whole. -/
theorem bind_error {br : BitReader} {stop : Stop} (h : x br = .error stop) :
    (x >>= f) br = .error stop := by
  simp only [bind, StateT.bind, h, Except.bind]

/-- Of the bits before a reader, a reading reads the same first ones as the same value. -/
theorem Reads.unique {br : BitReader} {k : List Bool} (hl : Reads x l a) (hm : Reads x m b)
    (hat : br.At k) (hlk : l <+: k) (hmk : m <+: k) : l = m ∧ a = b := by
  obtain ⟨l', rfl⟩ := hlk
  obtain ⟨m', hm'⟩ := hmk
  obtain ⟨br₁, h₁, hat₁⟩ := hl br l' hat
  obtain ⟨br₂, h₂, hat₂⟩ := hm br m' (hm' ▸ hat)
  obtain ⟨rfl, rfl⟩ := Prod.mk.inj (Except.ok.inj (h₁.symm.trans h₂))
  obtain rfl : l' = m' := hat₁.bits.symm.trans hat₂.bits
  exact ⟨(List.append_cancel_right hm').symm, rfl⟩

/-! ### Readings that settle -/

namespace Settles

/-- What is known of the result can be forgotten. -/
theorem mono (hx : Settles x P) (h : ∀ a, P a → P' a) : Settles x P' := fun l =>
  (hx l).imp_left fun ⟨l₁, l₂, a, hl, hread, ha⟩ => ⟨l₁, l₂, a, hl, hread, h a ha⟩

theorem pure (h : P a) : Settles (pure a) P := fun l => .inl ⟨[], l, a, rfl, .pure a, h⟩

/-- A step that reads nothing settles on its result. -/
theorem lift {y : Except Stop α} (hy : y = .ok a) (h : P a) : Settles (liftM y) P := fun l =>
  .inl ⟨[], l, a, rfl, .lift hy, h⟩

/-- Settling composes: a report of either part is a report of the whole, and reads no further. -/
theorem bind (hx : Settles x P) (hf : ∀ a, P a → Settles (f a) Q) : Settles (x >>= f) Q := by
  intro l
  rcases hx l with ⟨l₁, l₂, a, rfl, hread, ha⟩ | ⟨text, htext⟩
  · rcases hf a ha l₂ with ⟨m₁, m₂, b, rfl, hread', hb⟩ | ⟨text, htext⟩
    · exact .inl ⟨l₁ ++ m₁, m₂, b, (List.append_assoc ..).symm, hread.bind hread', hb⟩
    · refine .inr ⟨text, fun br hat => ?_⟩
      obtain ⟨br', h, hat'⟩ := hread br l₂ hat
      exact (bind_ok h).trans (htext br' hat')
  · exact .inr ⟨text, fun br hat => bind_error (htext br hat)⟩

theorem map (hx : Settles x P) (g : α → β) : Settles (g <$> x) fun _ => True := by
  rw [← bind_pure_comp]
  exact hx.bind fun _ _ => pure trivial

/-- A call that returns a value if there are `n` more bits, and fails otherwise. -/
theorem need {x : Reading (Option α)} {v : List Bool → α}
    (hx : ∀ l : List Bool, l.length = n → Reads x l (some (v l)))
    (hfail : ∀ (br : BitReader) l, br.At l → l.length < n → x br = .ok (none, br)) :
    Settles (need text x) fun _ => True := by
  intro l
  by_cases h : n ≤ l.length
  · have hlen : (l.take n).length = n := by rw [List.length_take, Nat.min_eq_left h]
    exact .inl ⟨l.take n, l.drop n, _, (List.take_append_drop n l).symm, .need text (hx _ hlen),
      trivial⟩
  · exact .inr ⟨text, fun br hat => bind_ok (hfail br l hat (Nat.lt_of_not_le h))⟩

/-- A checked read of at most 64 bits settles: on a value, or on its own text. -/
theorem getU (text : String) (hn : n ≤ 64) :
    Settles (RtcmBridge.need text (getU n)) fun _ => True :=
  need (fun _ hl => reads_getU hl hn) fun _ _ hat => getU_of_lt hat hn

/-- The same for a signed read, which the source allows up to 63 bits. -/
theorem getS (text : String) (hn : n < 64) :
    Settles (RtcmBridge.need text (getS n)) fun _ => True :=
  need (fun _ hl => reads_getS hl hn) fun _ _ hat => getS_of_lt hat hn.le

/-- The same for a skip. -/
theorem skip (text : String) (hn : n ≤ 64) :
    Settles (RtcmBridge.need text (skip (.ofNat n))) fun _ => True :=
  need (v := fun _ => ()) (fun _ hl => reads_skip hl hn) fun _ _ hat => skip_of_lt hat hn

/-- A loop of settling reads settles, and on success has one result per pass. -/
theorem mapM {ι : Type} {g : ι → Reading α} (is : List ι) (hg : ∀ i ∈ is, Settles (g i) P) :
    Settles (is.mapM g) fun as => as.length = is.length ∧ ∀ a ∈ as, P a := by
  induction is with
  | nil => exact pure ⟨rfl, fun a ha => absurd ha List.not_mem_nil⟩
  | cons i is ih =>
    rw [List.mapM_cons]
    refine (hg i (List.mem_cons_self ..)).bind fun a ha => ?_
    refine (ih fun j hj => hg j (List.mem_cons_of_mem _ hj)).bind fun as has => pure ⟨?_, ?_⟩
    · rw [List.length_cons, List.length_cons, has.1]
    · exact List.forall_mem_cons.2 ⟨ha, has.2⟩

/-- What settles never asks for anything undefined. -/
theorem safe (hx : Settles x P) : Safe x P := by
  intro br l hat
  rcases hx l with ⟨l₁, l₂, a, rfl, hread, ha⟩ | ⟨text, htext⟩
  · obtain ⟨br', h, hat'⟩ := hread br l₂ hat
    exact .inl ⟨a, br', l₂, h, hat', ha⟩
  · exact .inr ⟨text, htext br hat⟩

/-- A reading that reads `l₁` reports an error before bits that end within `l₁`. -/
theorem error_of_short {br : BitReader} {l₁ l₂ : List Bool} (hx : Settles x P)
    (hat : br.At (l ++ m)) (hread : Reads x l₁ a) (hl : l ++ m = l₁ ++ l₂)
    (hlt : l.length < l₁.length) :
    ∃ text, ∀ br : BitReader, br.At l → x br = .error (.report text) := by
  rcases hx l with ⟨k₁, k₂, b, rfl, hread', _⟩ | h
  · have hk : k₁ <+: k₁ ++ k₂ ++ m := ⟨k₂ ++ m, by rw [List.append_assoc]⟩
    obtain ⟨rfl, _⟩ := hread.unique hread' hat ⟨l₂, hl.symm⟩ hk
    rw [List.length_append] at hlt
    omega
  · exact h

end Settles

/-! ### Readings that are safe -/

namespace Safe

theorem pure (h : P a) : Safe (pure a) P := fun br l hat => .inl ⟨a, br, l, rfl, hat, h⟩

/-- Safety composes along the reads. -/
theorem bind (hx : Safe x P) (hf : ∀ a, P a → Safe (f a) Q) : Safe (x >>= f) Q := by
  intro br l hat
  rcases hx br l hat with ⟨a, br', l', h, hat', ha⟩ | ⟨text, h⟩
  · rw [bind_ok h]
    exact hf a ha br' l' hat'
  · exact .inr ⟨text, bind_error h⟩

theorem map (hx : Safe x P) (g : α → β) : Safe (g <$> x) fun _ => True := by
  rw [← bind_pure_comp]
  exact hx.bind fun a _ => pure trivial

/-- A field, and then what comes behind it. -/
theorem bind_getU {f : UInt64 → Reading β} (hn : n ≤ 64) (hf : ∀ v, Safe (f v) Q) :
    Safe (need text (getU n) >>= f) Q :=
  (Settles.getU text hn).safe.bind fun v _ => hf v

/-- A safe rest stays safe behind a signed read. -/
theorem bind_getS {f : ℤ → Reading β} (hn : n < 64) (hf : ∀ v, Safe (f v) Q) :
    Safe (need text (getS n) >>= f) Q :=
  (Settles.getS text hn).safe.bind fun v _ => hf v

end Safe

end RtcmBridge

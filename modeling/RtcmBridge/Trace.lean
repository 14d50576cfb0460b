import Mathlib.Tactic

/-!
# Traces

A trace lists what has happened, the oldest first. `Each Q l`: each entry `x` of
the trace `l` satisfies `Q l₁ x l₂`, where `l₁` came before it and `l₂` after it.
Such a property is proved along a run by what becomes of it when the trace grows
(`each_append`, `each_concat`).
-/

namespace RtcmBridge.Trace

variable {α : Type*} {Q Q' : List α → α → List α → Prop} {l l₁ l₂ m : List α} {a x : α}

/-- Each entry satisfies `Q`, together with what came before and after it. -/
def Each (Q : List α → α → List α → Prop) (l : List α) : Prop :=
  ∀ l₁ x l₂, l = l₁ ++ x :: l₂ → Q l₁ x l₂

/-- A weaker property holds of every entry as well. -/
theorem Each.imp (h : Each Q l) (hQ : ∀ l₁ x l₂, Q l₁ x l₂ → Q' l₁ x l₂) : Each Q' l :=
  fun l₁ x l₂ hl => hQ _ _ _ (h l₁ x l₂ hl)

@[simp]
theorem each_nil : Each Q [] := by
  intro l₁ x l₂ h
  simp at h

/-- The entries of a longer trace are the old ones and the new ones. -/
theorem each_append : Each Q (l ++ m) ↔
    Each (fun l₁ x l₂ => Q l₁ x (l₂ ++ m)) l ∧ Each (fun l₁ x l₂ => Q (l ++ l₁) x l₂) m := by
  constructor
  · intro h
    exact ⟨fun l₁ x l₂ hl => h l₁ x (l₂ ++ m) (by rw [hl]; simp),
      fun l₁ x l₂ hm => h (l ++ l₁) x l₂ (by rw [hm]; simp)⟩
  · rintro ⟨hl, hm⟩ l₁ x l₂ h
    rcases List.append_eq_append_iff.1 h with ⟨k, rfl, rfl⟩ | ⟨k, rfl, hk⟩
    · exact hm k x l₂ rfl
    · rcases k with _ | ⟨y, k⟩
      · have := hm [] x l₂ hk.symm
        simpa using this
      · obtain ⟨rfl, rfl⟩ := List.cons.inj hk
        exact hl l₁ x k rfl

@[simp]
theorem each_singleton : Each Q [a] ↔ Q [] a [] := by
  constructor
  · intro h
    exact h [] a [] rfl
  · rintro h l₁ x l₂ hl
    rcases l₁ with _ | ⟨b, l₁⟩
    · obtain ⟨rfl, rfl⟩ := List.cons.inj hl
      exact h
    · simp at hl

/-- One more entry at the end: it comes after all others. -/
theorem each_concat :
    Each Q (l ++ [a]) ↔ Each (fun l₁ x l₂ => Q l₁ x (l₂ ++ [a])) l ∧ Q l a [] := by
  rw [each_append, each_singleton, List.append_nil]

/-- An entry of a longer trace is the new one or an old one. -/
theorem concat_eq_append_cons_iff : l ++ [a] = l₁ ++ x :: l₂ ↔
    (l₁ = l ∧ x = a ∧ l₂ = []) ∨ ∃ m, l₂ = m ++ [a] ∧ l = l₁ ++ x :: m := by
  constructor
  · intro h
    rcases List.eq_nil_or_concat l₂ with rfl | ⟨m, b, rfl⟩
    · obtain ⟨rfl, ha⟩ := List.append_inj' h rfl
      exact .inl ⟨rfl, (List.singleton_inj.1 ha).symm, rfl⟩
    · rw [List.concat_eq_append] at h
      rw [← List.cons_append, ← List.append_assoc] at h
      obtain ⟨rfl, ha⟩ := List.append_inj' h rfl
      exact .inr ⟨m, by rw [List.concat_eq_append, List.singleton_inj.1 ha], rfl⟩
  · rintro (⟨rfl, rfl, rfl⟩ | ⟨m, rfl, rfl⟩)
    · rfl
    · simp

/-- A property that only some entries have to satisfy, and none of the trace is
    one of them. -/
theorem each_of_forall_not {P : α → Prop} (h : ∀ a ∈ l, ¬P a) :
    Each (fun l₁ x l₂ => P x → Q l₁ x l₂) l := by
  rintro l₁ x l₂ rfl hx
  exact absurd hx (h x (by simp))

end RtcmBridge.Trace

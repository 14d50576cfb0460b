import Mathlib.Data.List.Infix

/-!
# Prefix-free codes

A text in the words of a prefix-free code is read in one way only
(`PrefixFree.unique`). So is each beginning of it: it consists of the first of
the words and the beginning of one more (`exists_parses`).
-/

namespace RtcmBridge

variable {ι α : Type*} {text : ι → List α} {ws ws' : List ι} {l l' s tail tail' : List α}

/-- No word is empty, and none begins with another one. -/
structure PrefixFree (text : ι → List α) : Prop where
  ne_nil : ∀ w, text w ≠ []
  inj : ∀ {w w' : ι} {l l' : List α}, text w ++ l = text w' ++ l' → w = w'

/-- Nothing, or a word without its end. -/
def CutOff (text : ι → List α) (l : List α) : Prop := l = [] ∨ ∃ w, ∃ t ≠ [], text w = l ++ t

/-- `s` consists of the words `ws` and what there is of one more. -/
structure Parses (text : ι → List α) (s : List α) (ws : List ι) (tail : List α) : Prop where
  eq : s = ws.flatMap text ++ tail
  cutOff : CutOff text tail

theorem PrefixFree.not_cutOff (h : PrefixFree text) (w : ι) (l : List α) :
    ¬CutOff text (text w ++ l) := by
  rintro (hnil | ⟨w', t, ht, hw'⟩)
  · exact h.ne_nil w (List.append_eq_nil_iff.1 hnil).1
  · rw [List.append_assoc] at hw'
    have hw : w' = w := h.inj (l := []) (by rw [List.append_nil, hw'])
    rw [hw, List.self_eq_append_right] at hw'
    exact ht (List.append_eq_nil_iff.1 hw').2

/-- A text is read in one way. -/
theorem PrefixFree.unique (h : PrefixFree text) (hs : Parses text s ws tail)
    (hs' : Parses text s ws' tail') : ws' = ws ∧ tail' = tail := by
  induction ws generalizing s ws' with
  | nil =>
    have htail : s = tail := hs.eq
    cases ws' with
    | nil => exact ⟨rfl, hs'.eq.symm.trans htail⟩
    | cons w' ws' =>
      have heq := hs'.eq
      rw [List.flatMap_cons, List.append_assoc, htail] at heq
      -- A word would be part of what is cut off.
      exact absurd (heq ▸ hs.cutOff) (h.not_cutOff w' _)
  | cons w ws ih =>
    have heq := hs.eq
    rw [List.flatMap_cons, List.append_assoc] at heq
    cases ws' with
    | nil =>
      have htail : s = tail' := hs'.eq
      rw [htail] at heq
      exact absurd (heq ▸ hs'.cutOff) (h.not_cutOff w _)
    | cons w' ws' =>
      have heq' := hs'.eq
      rw [List.flatMap_cons, List.append_assoc] at heq'
      -- Both words are at the front, so they are the same.
      obtain rfl : w = w' := h.inj (heq.symm.trans heq')
      obtain ⟨rfl, rfl⟩ := ih ⟨rfl, hs.cutOff⟩
        ⟨List.append_cancel_left (heq.symm.trans heq'), hs'.cutOff⟩
      exact ⟨rfl, rfl⟩

/-- The beginning of a text consists of the first words and what there is of one more. -/
theorem exists_parses (hs : s <+: ws.flatMap text) : ∃ k ≤ ws.length, ∃ tail,
    Parses text s (ws.take k) tail ∧ (tail = [] ∨ ∃ w ∈ ws, tail <+: text w) := by
  induction ws generalizing s with
  | nil => exact ⟨0, le_rfl, [], ⟨List.prefix_nil.1 hs, .inl rfl⟩, .inl rfl⟩
  | cons w ws ih =>
    rw [List.flatMap_cons] at hs
    by_cases hw : text w <+: s
    · obtain ⟨s', rfl⟩ := hw
      obtain ⟨k, hk, tail, hparses, htail⟩ := ih ((List.prefix_append_right_inj _).1 hs)
      refine ⟨k + 1, Nat.succ_le_succ hk, tail, ⟨?_, hparses.cutOff⟩, htail.imp_right ?_⟩
      · rw [List.take_succ_cons, List.flatMap_cons, List.append_assoc, ← hparses.eq]
      · exact fun ⟨w', hw', h⟩ => ⟨w', List.mem_cons_of_mem _ hw', h⟩
    · have hor := List.prefix_or_prefix_of_prefix hs (List.prefix_append ..)
      obtain ⟨t, ht⟩ := hor.resolve_right hw
      have hne : t ≠ [] := by
        rintro rfl
        rw [List.append_nil] at ht
        exact hw ⟨[], by rw [List.append_nil, ht]⟩
      exact ⟨0, Nat.zero_le _, s, ⟨rfl, .inr ⟨w, t, hne, ht.symm⟩⟩,
        .inr ⟨w, List.mem_cons_self .., ⟨t, ht⟩⟩⟩

end RtcmBridge

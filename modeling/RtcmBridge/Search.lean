import Mathlib.Tactic

/-!
# First occurrences

`find pat l` is the offset of the first occurrence of the pattern `pat` in the
sequence `l`, as `std::string::find` computes it (with `none` for `npos`).

An occurrence, once found, stays the first one when the sequence grows
(`find_append`), and an occurrence that only appears then ends in the new part
(`lt_of_find_append`): the facts needed to look for a terminator in a stream
that arrives in pieces.
-/

namespace RtcmBridge

variable {α : Type*} [DecidableEq α]

/-- The offset of the first occurrence of `pat`. -/
def find (pat : List α) : List α → Option ℕ
  | [] => if pat = [] then some 0 else none
  | a :: l => if pat.isPrefixOf (a :: l) then some 0 else (find pat l).map (· + 1)

variable {pat l m : List α} {k : ℕ}

/-- What is found is the first occurrence. -/
theorem find_eq_some_iff :
    find pat l = some k ↔ pat <+: l.drop k ∧ ∀ j < k, ¬pat <+: l.drop j := by
  induction l generalizing k with
  | nil =>
    rw [find]
    by_cases hp : pat = []
    · subst hp
      rw [if_pos rfl, Option.some.injEq]
      refine ⟨fun h => h ▸ ⟨List.nil_prefix, fun _ h => absurd h (Nat.not_lt_zero _)⟩, fun h => ?_⟩
      by_contra hk
      exact h.2 0 (by omega) List.nil_prefix
    · simp [hp]
  | cons a l ih =>
    rw [find]
    by_cases hp : pat <+: a :: l
    · -- The pattern is at the front.
      rw [if_pos (List.isPrefixOf_iff_prefix.2 hp), Option.some.injEq]
      refine ⟨fun h => h ▸ ⟨hp, fun _ h => absurd h (Nat.not_lt_zero _)⟩, fun h => ?_⟩
      by_contra hk
      exact h.2 0 (by omega) hp
    · -- It is further behind, one place less in the tail.
      rw [if_neg (mt List.isPrefixOf_iff_prefix.1 hp), Option.map_eq_some_iff]
      constructor
      · rintro ⟨k, hk, rfl⟩
        obtain ⟨h₁, h₂⟩ := ih.1 hk
        refine ⟨h₁, fun j hj => ?_⟩
        cases j with
        | zero => exact hp
        | succ j => exact h₂ j (by omega)
      · rintro ⟨h₁, h₂⟩
        cases k with
        | zero => exact absurd h₁ hp
        | succ k => exact ⟨k, ih.2 ⟨h₁, fun j hj => h₂ (j + 1) (by omega)⟩, rfl⟩

/-- Nothing is found if and only if there is none. -/
theorem find_eq_none_iff : find pat l = none ↔ ¬pat <:+: l := by
  induction l with
  | nil => simp [find]
  | cons a l ih =>
    rw [find, List.infix_cons_iff]
    by_cases hp : pat <+: a :: l
    · simp [hp]
    · rw [if_neg (mt List.isPrefixOf_iff_prefix.1 hp), Option.map_eq_none_iff, ih]
      simp [hp]

theorem find_isSome_iff : (find pat l).isSome = true ↔ pat <:+: l := by
  rw [Option.isSome_iff_ne_none, ne_eq, find_eq_none_iff, not_not]

/-- An occurrence ends within the sequence. -/
theorem find_le (hp : pat ≠ []) (h : find pat l = some k) : k + pat.length ≤ l.length := by
  have hlen := (find_eq_some_iff.1 h).1.length_le
  have hpos := List.length_pos_of_ne_nil hp
  rw [List.length_drop] at hlen
  omega

/-- The first occurrence stays the first one when the sequence grows. -/
theorem find_append (h : find pat l = some k) (m : List α) : find pat (l ++ m) = some k := by
  obtain ⟨h₁, h₂⟩ := find_eq_some_iff.1 h
  have hk : k ≤ l.length := by
    by_contra hk
    rw [List.drop_eq_nil_of_le (show l.length ≤ k by omega), List.prefix_nil] at h₁
    exact h₂ 0 (by omega) (h₁ ▸ List.nil_prefix)
  have hlen := h₁.length_le
  rw [List.length_drop] at hlen
  refine find_eq_some_iff.2 ⟨?_, fun j hj hp => h₂ j hj ?_⟩
  · rw [List.drop_append_of_le_length hk]
    exact h₁.trans (List.prefix_append _ _)
  · rw [List.drop_append_of_le_length (show j ≤ l.length by omega)] at hp
    exact List.prefix_of_prefix_length_le hp (List.prefix_append (l.drop j) m)
      (by rw [List.length_drop]; omega)

/-- An occurrence that was not there before ends in the new part. -/
theorem lt_of_find_append (h : find pat l = none) (h' : find pat (l ++ m) = some k) :
    l.length < k + pat.length := by
  by_contra hlt
  obtain ⟨h₁, -⟩ := find_eq_some_iff.1 h'
  -- It would otherwise be one in the old part.
  rw [List.drop_append_of_le_length (show k ≤ l.length by omega)] at h₁
  have := List.prefix_of_prefix_length_le h₁ (List.prefix_append (l.drop k) m)
    (by rw [List.length_drop]; omega)
  exact find_eq_none_iff.1 h (this.isInfix.trans (List.drop_suffix k l).isInfix)

end RtcmBridge

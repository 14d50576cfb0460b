import Mathlib.Tactic

/-!
# Places and ranks

The places of the ones of a mask, counted from one (`places`), and the rank of a
place: how many ones come before it (`rank`). The place that is listed at the
index `i` is the one whose rank is `i` (`getElem?_places_iff`).
-/

namespace RtcmBridge

/-- The places of the ones of a mask, counted from one. -/
def places (mask : List Bool) : List ℕ :=
  ((List.range mask.length).filter fun i => mask.getD i false).map (· + 1)

/-- The number of ones before a place. -/
def rank (mask : List Bool) (a : ℕ) : ℕ := (mask.take (a - 1)).count true

variable {mask : List Bool} {i j a b : ℕ}

theorem places_cons (bit : Bool) (mask : List Bool) :
    places (bit :: mask) = (if bit then [1] else []) ++ (places mask).map (· + 1) := by
  rw [places, List.length_cons, List.range_succ_eq_map, List.filter_cons, List.filter_map,
    List.getD_cons_zero]
  cases bit <;> simp [places, Function.comp_def]

/-- There are as many places as ones. -/
theorem length_places (mask : List Bool) : (places mask).length = mask.count true := by
  induction mask with
  | nil => rfl
  | cons bit mask ih =>
    rw [places_cons, List.length_append, List.length_map, ih, List.count_cons]
    cases bit <;> simp [Nat.add_comm]

/-- The place of rank `i` is that of a one with `i` before it. -/
theorem getElem?_places_succ_iff :
    (places mask)[i]? = some (a + 1) ↔ mask[a]? = some true ∧ (mask.take a).count true = i := by
  induction mask generalizing i a with
  | nil => simp [places]
  | cons bit mask ih =>
    have hzero (i : ℕ) : (places mask)[i]? ≠ some 0 := by
      intro h
      obtain ⟨k, _, hk⟩ := List.mem_map.1 (List.mem_of_getElem? h)
      omega
    rw [places_cons]
    -- A one in front takes the index zero, and moves the others by one.
    rcases a with _ | a <;> cases bit
    · simp [hzero]
    · rcases i with _ | i
      · simp
      · simp [hzero]
    · simp [ih]
    · rcases i with _ | i
      · simp
      · simp [ih]

/-- A place is listed at the index that is its rank. -/
theorem getElem?_places_iff :
    (places mask)[i]? = some a ↔ 0 < a ∧ mask[a - 1]? = some true ∧ rank mask a = i := by
  rcases a with _ | a
  · refine iff_of_false (fun h => ?_) (by simp)
    obtain ⟨k, _, hk⟩ := List.mem_map.1 (List.mem_of_getElem? h)
    omega
  · rw [getElem?_places_succ_iff, rank, Nat.add_sub_cancel]
    simp

theorem rank_mono (mask : List Bool) (h : a ≤ b) : rank mask a ≤ rank mask b :=
  (List.take_sublist_take_left (Nat.sub_le_sub_right h 1)).count_le _

/-- The places are listed in their order. -/
theorem lt_of_getElem?_places (ha : (places mask)[i]? = some a) (hb : (places mask)[j]? = some b)
    (hij : i < j) : a < b := by
  obtain ⟨_, _, rfl⟩ := getElem?_places_iff.1 ha
  obtain ⟨_, _, rfl⟩ := getElem?_places_iff.1 hb
  by_contra hba
  have := rank_mono mask (Nat.le_of_not_lt hba)
  omega

/-! ### Pairs -/

/-- The pairs of two lists, in lexicographic order. -/
theorem pairwise_product {α β : Type*} {r : α → α → Prop} {s : β → β → Prop} {l : List α}
    {m : List β} (hl : l.Pairwise r) (hm : m.Pairwise s) : (l ×ˢ m).Pairwise (Prod.Lex r s) := by
  refine List.pairwise_flatMap.2 ⟨fun x _ => ?_, hl.imp fun hxy p hp q hq => ?_⟩
  · exact List.pairwise_map.2 (hm.imp fun h => .right _ h)
  · obtain ⟨_, _, rfl⟩ := List.mem_map.1 hp
    obtain ⟨_, _, rfl⟩ := List.mem_map.1 hq
    exact .left _ _ hxy

end RtcmBridge

import RtcmBridge.Bits
import Mathlib.Tactic

/-!
# Blocks of records

`n` records whose fields have the widths `ws` can be arranged in a block field
by field (first the first fields of all records: `byField`), or record by
record. The field `j` of the record `i` then stands at `n * offset ws j + i * ws[j]`
(`slice_byField`), or at `i * ws.sum + offset ws j` (`field_slice`). A block
arranged in the one way is read in the other way without a difference only if
it holds the same bits at these places (`Coincides`, `coincides_iff`): always
if there is one record (`coincides_of_le_one`), but not otherwise
(`not_coincides`).
-/

namespace RtcmBridge

variable {α : Type*} {ws js : List ℕ} {n w i j : ℕ}

/-- The `w` elements from the place `p` on. -/
def slice (l : List α) (p w : ℕ) : List α := (l.drop p).take w

/-- The place of the field `j` in a record. -/
def offset (ws : List ℕ) (j : ℕ) : ℕ := (ws.take j).sum

/-- The field `j` of a record. -/
def field (ws : List ℕ) (j : ℕ) (part : List α) : List α := slice part (offset ws j) (ws.getD j 0)

/-- Records, as the lists of their fields, arranged field by field. -/
def byField : List ℕ → List (List (List α)) → List α
  | [], _ => []
  | _ :: ws, rows => (rows.map fun row => row.headD []).flatten ++ byField ws (rows.map List.tail)

/-- In a block of `n` records, the fields `js` have the same contents at their
    places in both arrangements. -/
def Coincides (ws js : List ℕ) (n : ℕ) (block : List α) : Prop :=
  ∀ i < n, ∀ j ∈ js, slice block (i * ws.sum + offset ws j) (ws.getD j 0) =
    slice block (n * offset ws j + i * ws.getD j 0) (ws.getD j 0)

instance [DecidableEq α] (block : List α) : Decidable (Coincides ws js n block) :=
  inferInstanceAs (Decidable (∀ i < n, ∀ j ∈ js, _ = _))

/-! ### Slices -/

/-- A slice of the first part is that of the whole. -/
theorem slice_append_left {l m : List α} {p : ℕ} (h : p + w ≤ l.length) :
    slice (l ++ m) p w = slice l p w := by
  rw [slice, slice, List.drop_append_of_le_length (by omega),
    List.take_append_of_le_length (by rw [List.length_drop]; omega)]

/-- A slice of the second part is that of the whole, further behind. -/
theorem slice_append_right (l m : List α) (p : ℕ) :
    slice (l ++ m) (l.length + p) w = slice m p w := by
  rw [slice, slice, List.drop_append, List.drop_of_length_le (Nat.le_add_right ..), List.nil_append,
    Nat.add_sub_cancel_left]

/-- A slice of a slice is a slice. -/
theorem slice_slice (l : List α) {p q v : ℕ} (h : q + v ≤ w) :
    slice (slice l p w) q v = slice l (p + q) v := by
  rw [slice, slice, slice, List.drop_take, List.take_take, Nat.min_eq_left (by omega),
    List.drop_drop]

/-- In a row of parts of one width, the slices are the parts. -/
theorem slice_flatten {parts : List (List α)} (h : ∀ part ∈ parts, part.length = w)
    (hi : i < parts.length) : slice parts.flatten (i * w) w = parts[i] := by
  induction parts generalizing i with
  | nil => exact absurd hi (Nat.not_lt_zero _)
  | cons part parts ih =>
    have hpart := h part (List.mem_cons_self ..)
    rw [List.flatten_cons]
    cases i with
    | zero =>
      rw [slice, Nat.zero_mul, List.drop_zero, List.take_left' hpart, List.getElem_cons_zero]
    | succ i =>
      rw [Nat.succ_mul, Nat.add_comm, ← hpart, slice_append_right, hpart,
        ih (fun p hp => h p (List.mem_cons_of_mem _ hp)) (Nat.lt_of_succ_lt_succ hi),
        List.getElem_cons_succ]

/-- The pieces of a cut are the slices. -/
theorem getElem_cut {l : List α} (hi : i < (cut w n l).length) :
    (cut w n l)[i] = slice l (i * w) w := by
  induction n generalizing i l with
  | zero => exact absurd hi (Nat.not_lt_zero _)
  | succ n ih =>
    cases i with
    | zero => rw [slice, Nat.zero_mul, List.drop_zero]; rfl
    | succ i =>
      rw [length_cut] at hi
      simp only [cut, List.getElem_cons_succ]
      rw [ih (by rw [length_cut]; exact Nat.lt_of_succ_lt_succ hi), slice, slice, List.drop_drop,
        Nat.succ_mul, Nat.add_comm w]

/-! ### The two arrangements -/

/-- Every field ends within the record. -/
theorem offset_add_le (h : j < ws.length) : offset ws j + ws.getD j 0 ≤ ws.sum := by
  have hget : ws.getD j 0 = ws[j] := by
    rw [List.getD_eq_getElem?_getD, List.getElem?_eq_getElem h, Option.getD_some]
  calc offset ws j + ws.getD j 0 = (ws.take (j + 1)).sum := by
        rw [hget, offset, List.take_succ_eq_append_getElem h, List.sum_append, List.sum_singleton]
    _ ≤ ws.sum := (List.take_sublist (j + 1) ws).sum_le_sum fun _ _ => Nat.zero_le _

theorem offset_cons_succ (w : ℕ) (ws : List ℕ) (j : ℕ) :
    offset (w :: ws) (j + 1) = w + offset ws j := by
  rw [offset, offset, List.take_succ_cons, List.sum_cons]

theorem field_zero (w : ℕ) (ws : List ℕ) (l : List α) : field (w :: ws) 0 l = l.take w := by
  rw [field, offset, slice, List.take_zero, List.sum_nil, List.drop_zero, List.getD_cons_zero]

theorem field_succ (w : ℕ) (ws : List ℕ) (j : ℕ) (l : List α) :
    field (w :: ws) (j + 1) l = field ws j (l.drop w) := by
  rw [field, field, offset_cons_succ, slice, slice, List.drop_drop, List.getD_cons_succ]

/-- A field of a record is a slice of the block of records. -/
theorem field_slice (block : List α) (h : j < ws.length) :
    field ws j (slice block (i * ws.sum) ws.sum) =
      slice block (i * ws.sum + offset ws j) (ws.getD j 0) :=
  slice_slice block (offset_add_le h)

theorem length_slice {l : List α} {p : ℕ} (h : p + w ≤ l.length) : (slice l p w).length = w := by
  rw [slice, List.length_take, List.length_drop]
  omega

/-- The fields of the records that a block is cut into have their widths. -/
theorem length_field_slice {block : List α} (hlen : block.length = n * ws.sum) (hi : i < n)
    (hj : j < ws.length) : (field ws j (slice block (i * ws.sum) ws.sum)).length = ws.getD j 0 := by
  have hle : i * ws.sum + ws.sum ≤ n * ws.sum := by
    rw [← Nat.succ_mul]
    exact Nat.mul_le_mul_right _ hi
  have := offset_add_le hj
  rw [field_slice block hj, length_slice (by omega)]

/-- Read record by record, a block yields the given values exactly if each of its slices does. -/
theorem map_cut_eq_map_iff {β γ : Type*} {f : List α → β} {g : γ → β} {block : List α} {l : List γ}
    (hl : l.length = n) : (cut w n block).map f = l.map g ↔
      ∀ i (hi : i < l.length), f (slice block (i * w) w) = g l[i] := by
  subst hl
  constructor
  · intro h i hi
    have := List.getElem_of_eq h (by rw [List.length_map, length_cut]; exact hi)
    rwa [List.getElem_map, List.getElem_map, getElem_cut] at this
  · intro h
    refine List.ext_getElem (by simp) fun i hi hi' => ?_
    rw [List.getElem_map, List.getElem_map, getElem_cut, h i (by rwa [List.length_map] at hi')]

/-- The same, where the values depend on the place of the record. -/
theorem zipWith_cut_eq_iff {β γ δ : Type*} {f : β → List α → δ} {g : β → γ → δ} {block : List α}
    {ids : List β} {l : List γ} (hids : ids.length = l.length) (hl : l.length = n) :
    List.zipWith f ids (cut w n block) = List.zipWith g ids l ↔
      ∀ i (hi : i < l.length), f ids[i] (slice block (i * w) w) = g ids[i] l[i] := by
  subst hl
  constructor
  · intro h i hi
    have := List.getElem_of_eq h (i := i) (by rw [List.length_zipWith, length_cut]; omega)
    rwa [List.getElem_zipWith, List.getElem_zipWith, getElem_cut] at this
  · intro h
    refine List.ext_getElem (by simp) fun i hi hi' => ?_
    rw [List.getElem_zipWith, List.getElem_zipWith, getElem_cut]
    exact h i (by rw [List.length_zipWith] at hi'; omega)

/-- The lists of the fields of a record fit the widths `ws`. -/
abbrev Fits (ws : List ℕ) (row : List (List α)) : Prop := row.map List.length = ws

theorem Fits.cons {row : List (List α)} (h : Fits (w :: ws) row) :
    (row.headD []).length = w ∧ Fits ws row.tail := by
  obtain ⟨head, tail, rfl⟩ := List.exists_cons_of_length_eq_add_one
    (by rw [← List.length_map (f := List.length), h, List.length_cons])
  rw [Fits, List.map_cons, List.cons.injEq] at h
  exact h

/-- A record is cut into its fields again. -/
theorem field_flatten {row : List (List α)} (h : Fits ws row) (hj : j < ws.length) :
    field ws j row.flatten = row.getD j [] := by
  induction ws generalizing row j with
  | nil => exact absurd hj (Nat.not_lt_zero _)
  | cons w ws ih =>
    obtain ⟨head, tail, rfl⟩ := List.exists_cons_of_length_eq_add_one
      (by rw [← List.length_map (f := List.length), h, List.length_cons])
    have hw : head.length = w := h.cons.1
    have htail : Fits ws tail := h.cons.2
    rw [List.flatten_cons]
    cases j with
    | zero => rw [field_zero, List.take_left' hw, List.getD_cons_zero]
    | succ j =>
      rw [field_succ, List.drop_left' hw, ih htail (Nat.lt_of_succ_lt_succ hj), List.getD_cons_succ]

/-- The fields of a record fill its width. -/
theorem Fits.length_flatten {row : List (List α)} (h : Fits ws row) :
    row.flatten.length = ws.sum := by
  rw [List.length_flatten, h]

theorem length_heads {rows : List (List (List α))} (h : ∀ row ∈ rows, Fits (w :: ws) row) :
    (rows.map fun row => row.headD []).flatten.length = rows.length * w := by
  have hheads : (rows.map fun row => row.headD []).map List.length = rows.map fun _ => w := by
    rw [List.map_map]
    exact List.map_congr_left fun row hrow => (h row hrow).cons.1
  rw [List.length_flatten, hheads, List.map_const', List.sum_replicate_nat]

theorem fits_tails {rows : List (List (List α))} (h : ∀ row ∈ rows, Fits (w :: ws) row) :
    ∀ row ∈ rows.map List.tail, Fits ws row := by
  intro row' hrow'
  obtain ⟨row, hrow, rfl⟩ := List.mem_map.1 hrow'
  exact (h row hrow).cons.2

/-- Field by field, the records take as many bits as record by record. -/
theorem length_byField {rows : List (List (List α))} (h : ∀ row ∈ rows, Fits ws row) :
    (byField ws rows).length = rows.length * ws.sum := by
  induction ws generalizing rows with
  | nil => rw [List.sum_nil, Nat.mul_zero]; rfl
  | cons w ws ih =>
    rw [byField, List.length_append, length_heads h, ih (fits_tails h), List.length_map,
      List.sum_cons, Nat.mul_add]

/-- The place of a field in a block that is arranged field by field. -/
theorem slice_byField {rows : List (List (List α))} (h : ∀ row ∈ rows, Fits ws row)
    (hn : rows.length = n) (hi : i < rows.length) (hj : j < ws.length) :
    slice (byField ws rows) (n * offset ws j + i * ws.getD j 0) (ws.getD j 0) =
      rows[i].getD j [] := by
  induction ws generalizing rows j with
  | nil => exact absurd hj (Nat.not_lt_zero _)
  | cons w ws ih =>
    have hlen := length_heads h
    rw [hn] at hlen
    rw [byField]
    cases j with
    | zero =>
      -- The first fields all have the width `w`.
      have hheads : ∀ part ∈ rows.map fun row => row.headD [], part.length = w := by
        intro part hpart
        obtain ⟨row, hrow, rfl⟩ := List.mem_map.1 hpart
        exact (h row hrow).cons.1
      have hle : i * w + w ≤ n * w := by
        rw [← Nat.succ_mul, ← hn]
        exact Nat.mul_le_mul_right w hi
      rw [offset, List.take_zero, List.sum_nil, Nat.mul_zero, Nat.zero_add, List.getD_cons_zero,
        slice_append_left (by rw [hlen]; exact hle),
        slice_flatten hheads (by rw [List.length_map]; exact hi), List.getElem_map]
      cases rows[i] <;> rfl
    | succ j =>
      -- The other fields are those of the tails, after the first ones.
      have htail := ih (fits_tails h) (by rw [List.length_map, hn])
        (by rw [List.length_map]; exact hi) (Nat.lt_of_succ_lt_succ hj)
      rw [List.getElem_map] at htail
      rw [offset_cons_succ, Nat.mul_add, List.getD_cons_succ, Nat.add_assoc, ← hlen,
        slice_append_right, htail]
      cases rows[i] <;> rfl

/-- A block that is arranged field by field is read record by record. -/
theorem coincides_iff {γ : Type*} {l : List γ} {fields : γ → List (List α)}
    (h : ∀ a, Fits ws (fields a)) (hn : l.length = n) (hjs : ∀ j ∈ js, j < ws.length) :
    Coincides ws js n (byField ws (l.map fields)) ↔
      ∀ i (hi : i < l.length), ∀ j ∈ js,
        field ws j (slice (byField ws (l.map fields)) (i * ws.sum) ws.sum) =
          (fields l[i]).getD j [] := by
  have hrows : ∀ row ∈ l.map fields, Fits ws row := by
    intro row hrow
    obtain ⟨a, _, rfl⟩ := List.mem_map.1 hrow
    exact h a
  subst hn
  refine forall₂_congr fun i hi => forall₂_congr fun j hj => ?_
  rw [field_slice _ (hjs j hj),
    slice_byField hrows (List.length_map _) (by rwa [List.length_map]) (hjs j hj), List.getElem_map]

/-- Of a single record, the two arrangements are the same. -/
theorem coincides_of_le_one (hn : n ≤ 1) (block : List α) : Coincides ws js n block := by
  intro i hi j _
  obtain rfl : n = 1 := by omega
  obtain rfl : i = 0 := by omega
  rw [Nat.zero_mul, Nat.zero_add, Nat.one_mul, Nat.zero_mul, Nat.add_zero]

/-! ### Blocks where they differ -/

/-- What stands in the block is from a field of a record. -/
theorem mem_byField {rows : List (List (List α))} {a : α} (h : a ∈ byField ws rows) :
    ∃ row ∈ rows, ∃ part ∈ row, a ∈ part := by
  induction ws generalizing rows with
  | nil => exact absurd h List.not_mem_nil
  | cons w ws ih =>
    rcases List.mem_append.1 h with h | h
    · obtain ⟨part, hpart, ha⟩ := List.mem_flatten.1 h
      obtain ⟨row, hrow, rfl⟩ := List.mem_map.1 hpart
      cases row with
      | nil => exact absurd ha List.not_mem_nil
      | cons part row => exact ⟨part :: row, hrow, part, List.mem_cons_self .., ha⟩
    · obtain ⟨row', hrow', part, hpart, ha⟩ := ih h
      obtain ⟨row, hrow, rfl⟩ := List.mem_map.1 hrow'
      exact ⟨row, hrow, part, List.mem_of_mem_tail hpart, ha⟩

/-- `n` times `a`, but `b` in the second place. -/
def second (n : ℕ) (a b : α) : List α := a :: b :: .replicate (n - 2) a

theorem length_second (hn : 2 ≤ n) (a b : α) : (second n a b).length = n := by
  simp only [second, List.length_cons, List.length_replicate]
  omega

/-- Where only the first field of the second record has ones, and the second
    record starts after the first two fields, the arrangements differ. -/
theorem not_coincides {γ : Type*} {fields : γ → List (List Bool)} {a b : γ}
    {tail : List (List Bool)} (hn : 2 ≤ n) (hw : 0 < w) (hsum : 2 * w ≤ (w :: ws).sum)
    (h : ∀ c, Fits (w :: ws) (fields c)) (ha : ∀ part ∈ fields a, ∀ bit ∈ part, bit = false)
    (hb : fields b = .replicate w true :: tail) (htail : ∀ part ∈ tail, ∀ bit ∈ part, bit = false)
    (h0 : 0 ∈ js) :
    ¬Coincides (w :: ws) js n (byField (w :: ws) ((second n a b).map fields)) := by
  intro hco
  set rows := (List.replicate (n - 2) a).map fields with hrows
  have hzero : ∀ row ∈ fields a :: tail :: rows, ∀ part ∈ row, ∀ bit ∈ part, bit = false := by
    intro row hrow
    rcases List.mem_cons.1 hrow with rfl | hrow
    · exact ha
    rcases List.mem_cons.1 hrow with rfl | hrow
    · exact htail
    · obtain ⟨c, hc, rfl⟩ := List.mem_map.1 hrow
      rw [List.eq_of_mem_replicate hc]
      exact ha
  have hall : (second n a b).map fields = fields a :: (.replicate w true :: tail) :: rows := by
    rw [second, List.map_cons, List.map_cons, hb]
  have hlen : ((second n a b).map fields).length = n := by rw [List.length_map, length_second hn]
  have hfits : ∀ row ∈ (second n a b).map fields, Fits (w :: ws) row := by
    intro row hrow
    obtain ⟨c, _, rfl⟩ := List.mem_map.1 hrow
    exact h c
  have hslice := slice_byField hfits (i := 1) (j := 0) hlen (by omega) (Nat.succ_pos _)
  -- Record by record, the first field of the second record begins at `(w :: ws).sum`.
  rw [← hco 1 (by omega) 0 h0] at hslice
  have hone : (byField (w :: ws) ((second n a b).map fields))[(w :: ws).sum]? = some true := by
    have hget := congrArg (·[0]?) hslice
    simp only [slice, offset, List.getElem?_take, List.getElem?_drop, hall] at hget
    rw [hall]
    simpa [hw] using hget
  -- That is behind the ones.
  have hblock : byField (w :: ws) ((second n a b).map fields) =
      (fields a).headD [] ++ .replicate w true ++ ((rows.map fun row => row.headD []).flatten ++
        byField ws ((fields a).tail :: tail :: rows.map List.tail)) := by
    rw [hall]
    simp [byField]
  have hfirst : ((fields a).headD [] ++ .replicate w true).length = w + w := by
    rw [List.length_append, (h a).cons.1, List.length_replicate]
  rw [hblock, List.getElem?_append_right (by omega)] at hone
  rcases List.mem_append.1 (List.mem_of_getElem? hone) with hmem | hmem
  · obtain ⟨part, hpart, htrue⟩ := List.mem_flatten.1 hmem
    obtain ⟨row, hrow, rfl⟩ := List.mem_map.1 hpart
    have hin := List.mem_cons_of_mem (fields a) (List.mem_cons_of_mem tail hrow)
    cases row with
    | nil => exact absurd htrue List.not_mem_nil
    | cons part row =>
      exact Bool.noConfusion (hzero _ hin part (List.mem_cons_self ..) _ htrue)
  · obtain ⟨row', hrow', part, hpart, htrue⟩ := mem_byField hmem
    have hrow : ∃ row ∈ fields a :: tail :: rows, part ∈ row := by
      rcases List.mem_cons.1 hrow' with rfl | hrow'
      · exact ⟨fields a, List.mem_cons_self .., List.mem_of_mem_tail hpart⟩
      rcases List.mem_cons.1 hrow' with rfl | hrow'
      · exact ⟨row', List.mem_cons_of_mem _ (List.mem_cons_self ..), hpart⟩
      · obtain ⟨row, hrow, rfl⟩ := List.mem_map.1 hrow'
        have hmem := List.mem_cons_of_mem (fields a) (List.mem_cons_of_mem tail hrow)
        exact ⟨row, hmem, List.mem_of_mem_tail hpart⟩
    obtain ⟨row, hrow, hpart⟩ := hrow
    exact Bool.noConfusion (hzero row hrow part hpart _ htrue)

end RtcmBridge

import Mathlib.Tactic

/-!
# Resumable scanners

A *scanner* looks at the head of a sequence and either decides to `advance`
over a positive number of elements, with an output, or to `wait` for more
input. Its verdicts are *stable*: more input never revises a verdict to
advance, only one to wait.

`Scanner.run` iterates the verdicts from the head of a sequence to the first
wait. Stability makes the iteration independent of how the sequence arrives:
scanning it piece by piece, keeping what is left over between the pieces, gives
the same outputs as scanning the whole (`Scanner.outs_append`).

The hits of a run tile the part of the sequence it consumes
(`Scanner.tiles_run`), and each is the verdict at its own offset
(`Scanner.verdict_of_mem_run`): the two facts from which soundness (every hit is
genuine) and completeness (nothing genuine is passed over) are read off.
-/

namespace RtcmBridge

/-- What a scanner decides at the head of its input. -/
inductive Verdict (β : Type*)
  | wait
  | advance (n : ℕ) (out : β)

/-- A scanner of sequences of `α`, with outputs in `β`. -/
structure Scanner (α β : Type*) where
  /-- The verdict at the head of a sequence. -/
  verdict : List α → Verdict β
  /-- A scanner only advances over elements it has, and over at least one. -/
  bounds : ∀ {l n b}, verdict l = .advance n b → 0 < n ∧ n ≤ l.length
  /-- More input does not revise a verdict to advance. -/
  stable : ∀ {l n b}, verdict l = .advance n b → ∀ m, verdict (l ++ m) = .advance n b

/-- An output made over the interval `[off, off + len)` of the input. -/
structure Hit (β : Type*) where
  off : ℕ
  len : ℕ
  out : β

namespace Hit

variable {β : Type*}

/-- The hits `hs` tile the interval `[a, b)`, one after the other. -/
def Tiles : ℕ → List (Hit β) → ℕ → Prop
  | a, [], b => a = b
  | a, h :: hs, b => h.off = a ∧ Tiles (a + h.len) hs b

/-- Every offset of a tiled interval is in some hit. -/
theorem Tiles.exists_mem {a b j : ℕ} {hs : List (Hit β)} (h : Tiles a hs b) (ha : a ≤ j)
    (hb : j < b) : ∃ x ∈ hs, x.off ≤ j ∧ j < x.off + x.len := by
  induction hs generalizing a with
  | nil => exact absurd (show a = b from h) (by omega)
  | cons x hs ih =>
    obtain ⟨rfl, ht⟩ := h
    by_cases hj : j < x.off + x.len
    · exact ⟨x, List.mem_cons_self, ha, hj⟩
    · obtain ⟨y, hy, hyj⟩ := ih ht (not_lt.1 hj)
      exact ⟨y, List.mem_cons_of_mem _ hy, hyj⟩

/-- No hit is before the start. -/
theorem Tiles.le_off {a b : ℕ} {hs : List (Hit β)} (h : Tiles a hs b) :
    ∀ x ∈ hs, a ≤ x.off := by
  induction hs generalizing a with
  | nil => exact fun _ hx => absurd hx List.not_mem_nil
  | cons x hs ih =>
    intro y hy
    rcases List.mem_cons.1 hy with rfl | hy
    · exact h.1.ge
    · exact (Nat.le_add_right _ _).trans (ih h.2 y hy)

/-- Hits that tile an interval are disjoint and in increasing order. -/
theorem Tiles.pairwise {a b : ℕ} {hs : List (Hit β)} (h : Tiles a hs b) :
    hs.Pairwise fun x y => x.off + x.len ≤ y.off := by
  induction hs generalizing a with
  | nil => exact .nil
  | cons x hs ih => exact .cons (h.1 ▸ h.2.le_off) (ih h.2)

end Hit

namespace Scanner

variable {α β : Type*} (sc : Scanner α β)

/-! ## Runs -/

/-- The hits of the scanner on `l`, whose head is at the offset `off`, and what
    is left of `l` at the first wait. -/
def run (off : ℕ) (l : List α) : List (Hit β) × List α :=
  match _h : sc.verdict l with
  | .wait => ([], l)
  | .advance n b => (⟨off, n, b⟩ :: (run (off + n) (l.drop n)).1, (run (off + n) (l.drop n)).2)
termination_by l.length
decreasing_by all_goals
  have := sc.bounds ‹_›
  rw [List.length_drop]
  omega

/-- While the verdict is to wait, nothing is taken. -/
theorem run_of_wait {off : ℕ} {l : List α} (h : sc.verdict l = .wait) : sc.run off l = ([], l) := by
  rw [run]
  split <;> simp_all

/-- A hit is taken off the front, and the run goes on behind it. -/
theorem run_of_advance {off n : ℕ} {b : β} {l : List α} (h : sc.verdict l = .advance n b) :
    sc.run off l =
      (⟨off, n, b⟩ :: (sc.run (off + n) (l.drop n)).1, (sc.run (off + n) (l.drop n)).2) := by
  rw [run]
  split <;> simp_all

/-- Induction along a run: at the head, the scanner waits, or it advances and
    goes on with the rest. -/
theorem run_induction {P : ℕ → List α → Prop} (hwait : ∀ off l, sc.verdict l = .wait → P off l)
    (hadv : ∀ off l n b, sc.verdict l = .advance n b → P (off + n) (l.drop n) → P off l)
    (off : ℕ) (l : List α) : P off l := by
  induction hk : l.length using Nat.strong_induction_on generalizing off l with
  | _ k ih =>
    rcases h : sc.verdict l with _ | ⟨n, b⟩
    · exact hwait off l h
    · have hb := sc.bounds h
      exact hadv off l n b h (ih _ (by rw [List.length_drop]; omega) _ _ rfl)

theorem length_run_le (off : ℕ) (l : List α) : (sc.run off l).2.length ≤ l.length := by
  induction off, l using sc.run_induction with
  | hwait off l h => simp [sc.run_of_wait h]
  | hadv off l n b h ih =>
    rw [sc.run_of_advance h]
    exact ih.trans (by rw [List.length_drop]; omega)

/-- A run only drops a prefix of its input. -/
theorem run_eq_drop (off : ℕ) (l : List α) :
    (sc.run off l).2 = l.drop (l.length - (sc.run off l).2.length) := by
  induction off, l using sc.run_induction with
  | hwait off l h => simp [sc.run_of_wait h]
  | hadv off l n b h ih =>
    have hle := sc.length_run_le (off + n) (l.drop n)
    have hb := sc.bounds h
    rw [sc.run_of_advance h]
    refine ih.trans ?_
    rw [List.length_drop] at hle ⊢
    rw [List.drop_drop]
    congr 1
    change n + _ = l.length - (sc.run (off + n) (l.drop n)).2.length
    omega

/-- The hits of a run tile the part of the input it consumes. -/
theorem tiles_run (off : ℕ) (l : List α) :
    Hit.Tiles off (sc.run off l).1 (off + (l.length - (sc.run off l).2.length)) := by
  induction off, l using sc.run_induction with
  | hwait off l h => simp [sc.run_of_wait h, Hit.Tiles]
  | hadv off l n b h ih =>
    have hle := sc.length_run_le (off + n) (l.drop n)
    have hb := sc.bounds h
    rw [sc.run_of_advance h]
    refine ⟨rfl, ?_⟩
    convert ih using 1
    change off + (l.length - (sc.run (off + n) (l.drop n)).2.length) = _
    rw [List.length_drop] at hle ⊢
    omega

/-- Every hit of a run is the verdict at its own offset. -/
theorem verdict_of_mem_run (off : ℕ) (l : List α) :
    ∀ x ∈ (sc.run off l).1, sc.verdict (l.drop (x.off - off)) = .advance x.len x.out := by
  induction off, l using sc.run_induction with
  | hwait off l h => simp [sc.run_of_wait h]
  | hadv off l n b h ih =>
    rw [sc.run_of_advance h]
    intro x hx
    rcases List.mem_cons.1 hx with rfl | hx
    · simpa using h
    · have hoff := (sc.tiles_run (off + n) (l.drop n)).le_off x hx
      rw [← ih x hx, List.drop_drop]
      congr 2
      omega

/-- The outputs of a run, and what it leaves, do not depend on the offset. -/
theorem run_outs (off off' : ℕ) (l : List α) :
    (sc.run off l).1.map Hit.out = (sc.run off' l).1.map Hit.out ∧
      (sc.run off l).2 = (sc.run off' l).2 := by
  induction off, l using sc.run_induction generalizing off' with
  | hwait off l h => simp [sc.run_of_wait h]
  | hadv off l n b h ih =>
    obtain ⟨h₁, h₂⟩ := ih (off' + n)
    rw [sc.run_of_advance h, sc.run_of_advance h, List.map_cons, List.map_cons, h₁, h₂]
    exact ⟨rfl, rfl⟩

/-- The hits of a run with a later offset are later. -/
theorem run_add (off k : ℕ) (l : List α) :
    (sc.run (off + k) l).1 = (sc.run off l).1.map fun x => { x with off := x.off + k } := by
  induction off, l using sc.run_induction with
  | hwait off l h => simp [sc.run_of_wait h]
  | hadv off l n b h ih =>
    rw [sc.run_of_advance h, sc.run_of_advance h, List.map_cons, ← ih, Nat.add_right_comm]

/-- The hits on a piece of input after another: the scanner goes on where it had
    stopped. -/
theorem run_append (off : ℕ) (l m : List α) : (sc.run off (l ++ m)).1 =
    (sc.run off l).1 ++
      (sc.run (off + (l.length - (sc.run off l).2.length)) ((sc.run off l).2 ++ m)).1 := by
  induction off, l using sc.run_induction with
  | hwait off l h => simp [sc.run_of_wait h]
  | hadv off l n b h ih =>
    have hb := sc.bounds h
    have hle := sc.length_run_le (off + n) (l.drop n)
    rw [List.length_drop] at hle ih
    rw [sc.run_of_advance (sc.stable h m), sc.run_of_advance h,
      List.drop_append_of_le_length hb.2, ih, List.cons_append]
    have hpos : off + n + (l.length - n - (sc.run (off + n) (l.drop n)).2.length) =
        off + (l.length - (sc.run (off + n) (l.drop n)).2.length) := by omega
    rw [hpos]

/-! ## Outputs in pieces -/

/-- The outputs of the scanner on `l`. -/
def outs (l : List α) : List β := (sc.run 0 l).1.map Hit.out

/-- What the scanner leaves of `l`, waiting for more. -/
def rest (l : List α) : List α := (sc.run 0 l).2

theorem outs_of_wait {l : List α} (h : sc.verdict l = .wait) : sc.outs l = [] := by
  rw [outs, sc.run_of_wait h, List.map_nil]

theorem rest_of_wait {l : List α} (h : sc.verdict l = .wait) : sc.rest l = l := by
  rw [rest, sc.run_of_wait h]

theorem outs_of_advance {n : ℕ} {b : β} {l : List α} (h : sc.verdict l = .advance n b) :
    sc.outs l = b :: sc.outs (l.drop n) := by
  rw [outs, sc.run_of_advance h, List.map_cons, (sc.run_outs _ 0 _).1, outs]

theorem rest_of_advance {n : ℕ} {b : β} {l : List α} (h : sc.verdict l = .advance n b) :
    sc.rest l = sc.rest (l.drop n) := by
  rw [rest, sc.run_of_advance h, (sc.run_outs _ 0 _).2, rest]

/-- What is left waits for more. -/
theorem verdict_rest (l : List α) : sc.verdict (sc.rest l) = .wait := by
  induction hk : l.length using Nat.strong_induction_on generalizing l with
  | _ k ih =>
    rcases h : sc.verdict l with _ | ⟨n, b⟩
    · rw [sc.rest_of_wait h, h]
    · have hb := sc.bounds h
      rw [sc.rest_of_advance h, ih _ (by rw [List.length_drop]; omega) _ rfl]

theorem length_rest_le (l : List α) : (sc.rest l).length ≤ l.length := sc.length_run_le 0 l

/-- What is left is the end of the input. -/
theorem rest_eq_drop (l : List α) : sc.rest l = l.drop (l.length - (sc.rest l).length) :=
  sc.run_eq_drop 0 l

/-- A piece of input after another: the scanner goes on from what it had left. -/
theorem outs_append (l m : List α) : sc.outs (l ++ m) = sc.outs l ++ sc.outs (sc.rest l ++ m) ∧
    sc.rest (l ++ m) = sc.rest (sc.rest l ++ m) := by
  induction hk : l.length using Nat.strong_induction_on generalizing l with
  | _ k ih =>
    rcases h : sc.verdict l with _ | ⟨n, b⟩
    · simp [sc.outs_of_wait h, sc.rest_of_wait h]
    · have hb := sc.bounds h
      obtain ⟨h₁, h₂⟩ := ih _ (by rw [List.length_drop]; omega) (l.drop n) rfl
      rw [sc.outs_of_advance (sc.stable h m), sc.rest_of_advance (sc.stable h m),
        List.drop_append_of_le_length hb.2, h₁, h₂, sc.outs_of_advance h, sc.rest_of_advance h]
      exact ⟨rfl, rfl⟩

end Scanner

end RtcmBridge

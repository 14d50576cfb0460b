import Mathlib.Data.List.DropRight
import RtcmBridge.Bytes
import RtcmBridge.Search

/-!
# Text

The functions on strings that the configuration parsers use, of the standard
library and of Boost, in the classic locale.
-/

namespace RtcmBridge

/-- `std::isspace`. -/
def isSpace (b : UInt8) : Bool := b = 32 || (9 ≤ b && b ≤ 13)

/-- `boost::algorithm::trim_copy`. -/
def trimCopy (s : Bytes) : Bytes := (s.dropWhile isSpace).rdropWhile isSpace

/-- `boost::algorithm::to_lower_copy`. -/
def toLowerCopy (s : Bytes) : Bytes := s.map fun b => if 65 ≤ b ∧ b ≤ 90 then b + 32 else b

/-- `std::string(s.c_str())`. -/
def cString (s : Bytes) : Bytes := s.takeWhile (· ≠ 0)

/-- The lines of a text that `std::getline` reads, one after the other. -/
def lines : Bytes → List Bytes
  | [] => []
  | b :: s =>
    if b = 10 then [] :: lines s
    else match lines s with
      | [] => [[b]]
      | line :: ls => (b :: line) :: ls

/-- `s.find(b, pos)`. -/
def findFrom (b : UInt8) (s : Bytes) (pos : ℕ) : Option ℕ := (find [b] (s.drop pos)).map (pos + ·)

/-- `std::isdigit` in the C locale. -/
def isDigit (b : UInt8) : Bool := 48 ≤ b && b ≤ 57

/-- `std::stoi`: the number, and how many bytes were read for it; `none` if it throws. -/
def stoi (value : Bytes) : Option (ℤ × ℕ) :=
  let rest := value.dropWhile isSpace
  let (sign, unsigned) : ℤ × Bytes := match rest with
    | 45 :: unsigned => (-1, unsigned)
    | 43 :: unsigned => (1, unsigned)
    | unsigned => (1, unsigned)
  let digits := unsigned.takeWhile isDigit
  let n := sign * digits.foldl (fun n b => n * 10 + (b.toNat - 48 : ℕ)) 0
  if digits = [] ∨ n < -2 ^ 31 ∨ 2 ^ 31 ≤ n then none
  else some (n, value.length - unsigned.length + digits.length)

variable {s l m w : Bytes} {b : UInt8} {k pos : ℕ}

/-! ### Strings of C -/

/-- A C string ends before the first zero. -/
theorem not_mem_cString (s : Bytes) : 0 ∉ cString s := fun h => by
  simpa using List.mem_takeWhile_imp h

/-- Without a zero in it, the text is the whole C string. -/
theorem cString_of_not_mem (h : 0 ∉ s) : cString s = s :=
  List.takeWhile_eq_self_iff.2 fun b hb => by simpa using fun hb0 : b = 0 => h (hb0 ▸ hb)

/-! ### Trimming -/

/-- Neither the first nor the last byte is white space. -/
def Trimmed (s : Bytes) : Prop :=
  (∀ b ∈ s.head?, isSpace b = false) ∧ ∀ b ∈ s.getLast?, isSpace b = false

theorem trimmed_singleton {b : UInt8} (h : isSpace b = false) : Trimmed [b] :=
  ⟨fun _ hc => Option.some.inj hc ▸ h, fun _ hc => Option.some.inj hc ▸ h⟩

/-- A text ends without a space if its last part does, or is empty. -/
theorem last_append_not_space {w m : Bytes} (hw : ∀ b ∈ w.getLast?, isSpace b = false)
    (hm : ∀ b ∈ m.getLast?, isSpace b = false) : ∀ b ∈ (w ++ m).getLast?, isSpace b = false := by
  intro b hb
  rw [List.getLast?_append] at hb
  rcases hl : m.getLast? with _ | b'
  · rw [hl, Option.none_or] at hb
    exact hw b hb
  · rw [hl] at hb
    exact hm b (hl ▸ hb)

/-- Trimming only drops characters at the two ends. -/
theorem isInfix_trimCopy (s : Bytes) : trimCopy s <:+: s :=
  (List.rdropWhile_prefix _ _).isInfix.trans (List.dropWhile_suffix _).isInfix

/-- What is trimmed neither begins nor ends with a space. -/
theorem trimmed_trimCopy (s : Bytes) : Trimmed (trimCopy s) := by
  constructor
  · intro b hb
    obtain ⟨t, ht⟩ : trimCopy s <+: s.dropWhile isSpace := List.rdropWhile_prefix _ _
    have hne : trimCopy s ≠ [] := fun h => by simp [h] at hb
    have hhead : (s.dropWhile isSpace).head? = some b := by
      rw [← ht, List.head?_append_of_ne_nil _ hne]
      exact hb
    have := List.head?_dropWhile_not isSpace s
    rwa [hhead] at this
  · intro b hb
    obtain ⟨hne, rfl⟩ := List.mem_getLast?_eq_getLast hb
    exact Bool.eq_false_iff.2 (List.rdropWhile_last_not isSpace _ hne)

/-- Trimming twice is trimming once. -/
theorem trimCopy_of_trimmed (h : Trimmed s) : trimCopy s = s := by
  have hl : s.dropWhile isSpace = s := by
    rcases s with _ | ⟨b, s⟩
    · rfl
    · rw [List.dropWhile_cons, if_neg (by simp [h.1 b rfl])]
  rw [trimCopy, hl, List.rdropWhile_eq_self_iff]
  intro hne
  rw [h.2 _ (List.getLast?_eq_some_getLast hne)]
  exact Bool.false_ne_true

/-! ### Lines -/

/-- The first line ends with the first line feed. -/
theorem lines_append (hl : 10 ∉ l) (s : Bytes) : lines (l ++ 10 :: s) = l :: lines s := by
  induction l with
  | nil => rfl
  | cons b l ih =>
    rw [List.mem_cons, not_or] at hl
    rw [List.cons_append, lines, if_neg (Ne.symm hl.1), ih hl.2]

/-- The last line need not end with one. -/
theorem lines_last (hl : 10 ∉ l) (hne : l ≠ []) : lines l = [l] := by
  induction l with
  | nil => exact absurd rfl hne
  | cons b l ih =>
    rw [List.mem_cons, not_or] at hl
    rw [lines, if_neg (Ne.symm hl.1)]
    rcases l with _ | ⟨b', l⟩
    · rfl
    · rw [ih hl.2 (List.cons_ne_nil _ _)]

/-- There is no line feed in a line. -/
theorem not_mem_of_mem_lines (h : l ∈ lines s) : 10 ∉ l := by
  induction s generalizing l with
  | nil => exact absurd h List.not_mem_nil
  | cons b s ih =>
    rw [lines] at h
    split_ifs at h with hb
    · rcases List.mem_cons.1 h with rfl | h
      · exact List.not_mem_nil
      · exact ih h
    · rcases hs : lines s with _ | ⟨line, ls⟩
      all_goals
        rw [hs] at h
        rcases List.mem_cons.1 h with rfl | h
      · simp [Ne.symm hb]
      · exact absurd h List.not_mem_nil
      · rw [List.mem_cons, not_or]
        exact ⟨Ne.symm hb, ih (hs ▸ List.mem_cons_self)⟩
      · exact ih (hs ▸ List.mem_cons_of_mem _ h)

/-! ### Searching for a byte -/

/-- `find` is the place of the first occurrence. -/
theorem find_singleton_iff : find [b] s = some k ↔
    ∃ w m, s = w ++ b :: m ∧ b ∉ w ∧ k = w.length := by
  induction s generalizing k with
  | nil => simp [find]
  | cons a s ih =>
    rw [find]
    by_cases hab : b = a
    · -- The first character is the one.
      subst hab
      rw [if_pos (by simp), Option.some.injEq]
      constructor
      · rintro rfl
        exact ⟨[], s, rfl, List.not_mem_nil, rfl⟩
      · rintro ⟨_ | ⟨a, w⟩, m, hs, hw, rfl⟩
        · rfl
        · obtain ⟨rfl, -⟩ := List.cons.inj hs
          exact absurd List.mem_cons_self hw
    · -- It is one further in the tail.
      rw [if_neg (by simp [hab]), Option.map_eq_some_iff]
      constructor
      · rintro ⟨k, hk, rfl⟩
        obtain ⟨w, m, rfl, hw, rfl⟩ := ih.1 hk
        exact ⟨a :: w, m, rfl, by simp [hab, hw], rfl⟩
      · rintro ⟨_ | ⟨a', w⟩, m, hs, hw, rfl⟩
        · exact absurd (List.cons.inj hs).1.symm hab
        · obtain ⟨rfl, rfl⟩ := List.cons.inj hs
          exact ⟨w.length, ih.2 ⟨w, m, rfl, fun h => hw (List.mem_cons_of_mem _ h), rfl⟩, rfl⟩

/-- From a position, it is that of the first occurrence behind it. -/
theorem findFrom_eq_some_iff : findFrom b s pos = some k ↔
    ∃ w m, s.drop pos = w ++ b :: m ∧ b ∉ w ∧ k = pos + w.length := by
  rw [findFrom, Option.map_eq_some_iff]
  constructor
  · rintro ⟨j, hj, rfl⟩
    obtain ⟨w, m, hs, hw, rfl⟩ := find_singleton_iff.1 hj
    exact ⟨w, m, hs, hw, rfl⟩
  · rintro ⟨w, m, hs, hw, rfl⟩
    exact ⟨w.length, find_singleton_iff.2 ⟨w, m, hs, hw, rfl⟩, rfl⟩

theorem findFrom_eq_none_iff : findFrom b s pos = none ↔ b ∉ s.drop pos := by
  rw [findFrom, Option.map_eq_none_iff, find_eq_none_iff, not_iff_not]
  exact ⟨fun h => h.subset List.mem_cons_self, fun h => by
    obtain ⟨w, m, hs⟩ := List.append_of_mem h
    exact ⟨w, m, by rw [hs, List.append_assoc]; rfl⟩⟩

end RtcmBridge

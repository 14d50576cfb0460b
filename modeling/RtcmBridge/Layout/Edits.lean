import Mathlib.Logic.Relation
import RtcmBridge.ConfigurationFile

/-!
# Changes of the layout of a file

Blank lines and comments can be put anywhere in a file, and removed again; a line
can be surrounded with white space; and the name of a section can be written with
other letter cases (`Edit`). The loop over the lines does the same before and
after any number of such changes (`parseLines_of_sameLayout`).
-/

namespace RtcmBridge

/-! ### Trimming -/

/-- White space only. -/
def Space (s : Bytes) : Prop := ∀ b ∈ s, isSpace b = true

variable {s left right : Bytes}

theorem head?_trimCopy (s : Bytes) : (trimCopy s).head? = (s.dropWhile isSpace).head? := by
  rw [trimCopy]
  rcases hs : s.dropWhile isSpace with _ | ⟨b, m⟩
  · rfl
  have hb := List.head?_dropWhile_not isSpace s
  rw [hs] at hb
  obtain ⟨t, ht⟩ := List.rdropWhile_prefix isSpace (l := b :: m)
  have hne : (b :: m).rdropWhile isSpace ≠ [] := fun h =>
    absurd (List.rdropWhile_eq_nil_iff.1 h b List.mem_cons_self) (by simpa using hb)
  rw [← List.head?_append_of_ne_nil _ hne, ht]

/-- White space around a text is trimmed. -/
theorem trimCopy_append (hl : Space left) (hr : Space right) (s : Bytes) :
    trimCopy (left ++ s ++ right) = trimCopy s := by
  have hright (m : Bytes) : (m ++ right).rdropWhile isSpace = m.rdropWhile isSpace := by
    rw [List.rdropWhile, List.rdropWhile, List.reverse_append,
      List.dropWhile_append_of_pos fun b hb => hr b (List.mem_reverse.1 hb)]
  rw [trimCopy, trimCopy, List.append_assoc, List.dropWhile_append_of_pos hl, List.dropWhile_append]
  split_ifs with hempty
  · rw [List.isEmpty_iff.1 hempty, List.dropWhile_eq_nil_iff.2 hr]
  · exact hright _

namespace ConfigurationFile

/-! ### Edits -/

/-- A blank line or a comment: the first byte that is not white space, if there is
    one, is a `#`. -/
def Ignored (line : Bytes) : Prop := ∀ b ∈ (line.dropWhile isSpace).head?, b = 35

/-- A change of the layout of some lines. -/
inductive Edit : List Bytes → List Bytes → Prop
  | insert (before after : List Bytes) {line : Bytes} :
      Ignored line → Edit (before ++ after) (before ++ line :: after)
  | space (before after : List Bytes) (line : Bytes) {left right : Bytes} :
      Space left → Space right →
        Edit (before ++ line :: after) (before ++ (left ++ line ++ right) :: after)
  | letterCase (before after : List Bytes) {name name' : Bytes} :
      toLowerCopy name = toLowerCopy name' →
        Edit (before ++ (91 :: (name ++ [93])) :: after)
          (before ++ (91 :: (name' ++ [93])) :: after)

/-- Lines that differ in their layout only, by any number of edits and their
    undoings. -/
def SameLayout : List Bytes → List Bytes → Prop := Relation.EqvGen Edit

section Loop

variable {σ γ : Type} {header : Bytes → Except Bytes σ} {body : σ → Bytes → γ → Parsed γ}
  {ls ls' : List Bytes} {line line' name name' : Bytes}

/-- The lines in front do not matter. -/
theorem parseLines_append (before : List Bytes)
    (h : ∀ current configuration, parseLines header body current ls configuration =
      parseLines header body current ls' configuration) (current : σ) (configuration : γ) :
    parseLines header body current (before ++ ls) configuration =
      parseLines header body current (before ++ ls') configuration := by
  induction before generalizing current configuration with
  | nil => exact h current configuration
  | cons line before ih => simp only [List.cons_append, parseLines, ih]

/-- An empty line or a comment can be left out. -/
theorem parseLines_ignored (h : Ignored line) (current : σ) (ls : List Bytes) (configuration : γ) :
    parseLines header body current (line :: ls) configuration =
      parseLines header body current ls configuration := by
  rw [parseLines, if_neg]
  rintro ⟨hne, hcomment⟩
  obtain ⟨b, m, hb⟩ := List.exists_cons_of_ne_nil hne
  have hhead := head?_trimCopy line
  rw [hb, List.head?_cons] at hhead
  exact hcomment (by rw [hb, List.head?_cons, h b hhead.symm])

/-- The loop sees a line trimmed. -/
theorem parseLines_trim (h : trimCopy line = trimCopy line') (current : σ) (ls : List Bytes)
    (configuration : γ) :
    parseLines header body current (line :: ls) configuration =
      parseLines header body current (line' :: ls) configuration := by
  rw [parseLines, parseLines, h]

theorem trimmed_header (name : Bytes) : Trimmed (91 :: (name ++ [93])) := by
  refine ⟨?_, ?_⟩
  · rintro b ⟨⟩
    rfl
  · rw [← List.cons_append, List.getLast?_concat]
    rintro b ⟨⟩
    rfl

/-- Two headers that name one section are read alike. -/
theorem parseLines_header (h : header (91 :: (name ++ [93])) = header (91 :: (name' ++ [93])))
    (current : σ) (ls : List Bytes) (configuration : γ) :
    parseLines header body current ((91 :: (name ++ [93])) :: ls) configuration =
      parseLines header body current ((91 :: (name' ++ [93])) :: ls) configuration := by
  rw [parseLines, parseLines, trimCopy_of_trimmed (trimmed_header name),
    trimCopy_of_trimmed (trimmed_header name'), h]
  rfl

/-- The headers are read with all letter cases alike. -/
theorem parseSectionHeader_letterCase {names : List (Bytes × σ)}
    (h : toLowerCopy name = toLowerCopy name') :
    parseSectionHeader names (91 :: (name ++ [93])) =
      parseSectionHeader names (91 :: (name' ++ [93])) := by
  have hinner (name : Bytes) :
      ((91 :: (name ++ [93])).drop 1).take ((91 :: (name ++ [93])).length - 2) = name := by
    simp
  have hbrackets (name : Bytes) : ¬((91 :: (name ++ [93])).length < 2 ∨
      (91 :: (name ++ [93])).head? ≠ some 91 ∨ (91 :: (name ++ [93])).getLast? ≠ some 93) := by
    have hlast : (91 :: (name ++ [93])).getLast? = some 93 := by
      rw [← List.cons_append, List.getLast?_concat]
    simp [hlast]
  rw [parseSectionHeader, parseSectionHeader, if_neg (hbrackets name), if_neg (hbrackets name'),
    hinner, hinner, h]

/-- The layout does not change what the loop does. -/
theorem parseLines_of_sameLayout {names : List (Bytes × σ)} (h : SameLayout ls ls') (current : σ)
    (configuration : γ) :
    parseLines (parseSectionHeader names) body current ls configuration =
      parseLines (parseSectionHeader names) body current ls' configuration := by
  induction h with
  | rel ls ls' hedit =>
    cases hedit with
    | insert before after hline =>
      exact parseLines_append before
        (fun current configuration => (parseLines_ignored hline current after configuration).symm)
        current configuration
    | space before after line hl hr =>
      exact parseLines_append before (parseLines_trim (trimCopy_append hl hr line).symm · after ·)
        current configuration
    | letterCase before after hname =>
      exact parseLines_append before
        (parseLines_header (parseSectionHeader_letterCase hname) · after ·) current configuration
  | refl ls => rfl
  | symm ls ls' _ ih => exact ih.symm
  | trans ls ls' ls'' _ _ ih ih' => exact ih.trans ih'

end Loop

end ConfigurationFile

end RtcmBridge

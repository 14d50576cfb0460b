import RtcmBridge.Digits
import RtcmBridge.Response

/-!
# Header blocks

A header block consists of lines that are not empty, each with a line end, and of an empty
line. If no line contains a line feed, the block is read in one way only
(`headerBlock_inj`), and it ends where the first end of a header block is found, whatever
follows (`find_headerBlock`).
-/

namespace RtcmBridge

/-- A line of a header block: it is not empty, and does not contain a line feed. -/
structure HeaderLine (l : Bytes) : Prop where
  ne_nil : l ≠ []
  noLineFeed : 10 ∉ l

/-- The lines, each with a line end, and an empty line. -/
def headerBlock (ls : List Bytes) : Bytes := ls.flatMap (· ++ crlf) ++ crlf

variable {l m : Bytes} {ls ls' : List Bytes}

theorem headerBlock_cons (l : Bytes) (ls : List Bytes) :
    headerBlock (l :: ls) = l ++ 13 :: 10 :: headerBlock ls := by
  simp [headerBlock, crlf]

/-- A text is cut in one way at the first line end. -/
theorem line_inj {l' m' : Bytes} (hl : 10 ∉ l) (hl' : 10 ∉ l')
    (h : l ++ 13 :: 10 :: m = l' ++ 13 :: 10 :: m') : l = l' ∧ m = m' := by
  have hcut (l m : Bytes) : l ++ 13 :: 10 :: m = (l ++ [13]) ++ 10 :: m := by simp
  have hno {l : Bytes} (hl : 10 ∉ l) : 10 ∉ l ++ [13] := by simpa using hl
  rw [hcut, hcut] at h
  obtain ⟨hfirst, hrest⟩ :=
    append_inj_of_notMem (hno hl) (hno hl') (.inr ⟨m, rfl⟩) (.inr ⟨m', rfl⟩) h
  exact ⟨List.append_cancel_right hfirst, (List.cons.inj hrest).2⟩

/-- A header block is read in one way only. -/
theorem headerBlock_inj (h : ∀ l ∈ ls, HeaderLine l) (h' : ∀ l ∈ ls', HeaderLine l)
    (heq : headerBlock ls = headerBlock ls') : ls = ls' := by
  have hnil : headerBlock [] = [] ++ 13 :: 10 :: [] := rfl
  induction ls generalizing ls' with
  | nil =>
    rcases ls' with _ | ⟨l', ls'⟩
    · rfl
    · have hl' := h' l' List.mem_cons_self
      rw [hnil, headerBlock_cons] at heq
      exact absurd (line_inj List.not_mem_nil hl'.noLineFeed heq).1.symm hl'.ne_nil
  | cons l ls ih =>
    have hl := h l List.mem_cons_self
    rcases ls' with _ | ⟨l', ls'⟩
    · rw [hnil, headerBlock_cons] at heq
      exact absurd (line_inj hl.noLineFeed List.not_mem_nil heq).1 hl.ne_nil
    · rw [headerBlock_cons, headerBlock_cons] at heq
      obtain ⟨rfl, hrest⟩ := line_inj hl.noLineFeed (h' l' List.mem_cons_self).noLineFeed heq
      rw [ih (fun l hl => h l (List.mem_cons_of_mem _ hl))
        (fun l hl => h' l (List.mem_cons_of_mem _ hl)) hrest]

/-- The end of a header block is found at the end of the first line, or behind it. -/
theorem find_line (hl : 10 ∉ l) (m : Bytes) : find headersEndMark (l ++ 13 :: 10 :: m) =
    if crlf <+: m then some l.length
    else (find headersEndMark m).map (· + (l.length + 2)) := by
  induction l with
  | nil =>
    have hten : find headersEndMark (10 :: m) = (find headersEndMark m).map (· + 1) := by
      rw [find, if_neg (by simp [headersEndMark])]
    rw [List.nil_append, find, hten]
    by_cases hm : crlf <+: m
    · -- An empty line follows: the block ends here.
      rw [if_pos hm, if_pos (by simpa [headersEndMark, crlf] using hm)]
      rfl
    · rw [if_neg hm, if_neg (by simpa [headersEndMark, crlf] using hm), Option.map_map]
      rfl
  | cons b l ih =>
    rw [List.mem_cons, not_or] at hl
    have hno : headersEndMark.isPrefixOf (b :: (l ++ 13 :: 10 :: m)) = false := by
      rcases l with _ | ⟨b', l⟩
      · simp [headersEndMark, List.isPrefixOf]
      · have : 10 ≠ b' := fun h => hl.2 (h ▸ List.mem_cons_self)
        simp [headersEndMark, List.isPrefixOf, this]
    rw [List.cons_append, find, hno, if_neg Bool.false_ne_true, ih hl.2]
    by_cases hm : crlf <+: m
    · rw [if_pos hm, if_pos hm]
      rfl
    · rw [if_neg hm, if_neg hm, Option.map_map, List.length_cons, Nat.add_right_comm]
      rfl

/-- A header block ends at the first end of a header block. -/
theorem find_headerBlock (hne : ls ≠ []) (h : ∀ l ∈ ls, HeaderLine l) (m : Bytes) :
    find headersEndMark (headerBlock ls ++ m) = some ((headerBlock ls).length - 4) := by
  induction ls with
  | nil => exact absurd rfl hne
  | cons l ls ih =>
    have hl := h l List.mem_cons_self
    rw [headerBlock_cons, List.append_assoc, List.cons_append, List.cons_append,
      find_line hl.noLineFeed]
    rcases ls with _ | ⟨l', ls⟩
    · rw [if_pos ⟨m, rfl⟩]
      simp [headerBlock, crlf]
    · -- The next line is not empty.
      have hl' := h l' (List.mem_cons_of_mem _ List.mem_cons_self)
      have hno : ¬crlf <+: headerBlock (l' :: ls) ++ m := by
        obtain ⟨b, l', rfl⟩ := List.exists_cons_of_ne_nil hl'.ne_nil
        have hten := hl'.noLineFeed
        rw [headerBlock_cons]
        rcases l' with _ | ⟨b', l'⟩
        · simp [crlf]
        · simp [crlf] at hten ⊢
          tauto
      rw [if_neg hno, ih (by simp) fun l hl => h l (List.mem_cons_of_mem _ hl)]
      have hlen : 4 ≤ (headerBlock (l' :: ls)).length := by
        have := List.length_pos_of_ne_nil hl'.ne_nil
        simp [headerBlock, crlf]
        omega
      simp
      omega

end RtcmBridge

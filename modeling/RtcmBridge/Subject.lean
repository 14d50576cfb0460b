import RtcmBridge.Bytes

/-!
# Subjects of NATS

A subject is split into tokens at its dots. In a subscription a token `*` matches
any token, and a final `>` one or more tokens; without these a subscription
matches its own subject only (`matchesSubject_iff`).
-/

namespace RtcmBridge

/-! ### Splitting -/

section Splitting

variable {α : Type*} [DecidableEq α] {a b : α} {s t : List α} {ts ts₁ ts₂ : List (List α)}

/-- The first part of a sequence ends at the first separator, or there is none. -/
theorem splitOn_eq_cons (h : s.splitOn a = t :: ts) :
    a ∉ t ∧ ((ts = [] ∧ s = t) ∨ ∃ m, s = t ++ a :: m ∧ m.splitOn a = ts) := by
  induction s generalizing t ts with
  | nil =>
    obtain ⟨rfl, rfl⟩ := List.cons.inj h
    exact ⟨List.not_mem_nil, .inl ⟨rfl, rfl⟩⟩
  | cons b s ih =>
    rw [List.splitOn_cons_eq_if_modifyHead] at h
    split_ifs at h with hb
    · obtain rfl := eq_of_beq hb
      obtain ⟨rfl, rfl⟩ := List.cons.inj h
      exact ⟨List.not_mem_nil, .inr ⟨s, rfl, rfl⟩⟩
    · have hne : b ≠ a := by simpa using hb
      rcases hs : s.splitOn a with _ | ⟨t', ts'⟩
      · exact absurd hs (List.splitOn_ne_nil a s)
      · rw [hs, List.modifyHead_cons] at h
        obtain ⟨rfl, rfl⟩ := List.cons.inj h
        obtain ⟨hnot, hrest⟩ := ih hs
        refine ⟨by simp [hnot, Ne.symm hne], ?_⟩
        rcases hrest with ⟨rfl, rfl⟩ | ⟨m, rfl, hm⟩
        · exact .inl ⟨rfl, rfl⟩
        · exact .inr ⟨m, rfl, hm⟩

/-- One part can be replaced by another. -/
theorem exists_of_splitOn (h : s.splitOn a = ts₁ ++ t :: ts₂) :
    ∃ l r, s = l ++ t ++ r ∧ (ts₂ = [] → r = []) ∧
      ∀ t', a ∉ t' → (l ++ t' ++ r).splitOn a = ts₁ ++ t' :: ts₂ := by
  induction ts₁ generalizing s with
  | nil =>
    obtain ⟨-, ⟨rfl, rfl⟩ | ⟨m, rfl, hm⟩⟩ := splitOn_eq_cons h
    · refine ⟨[], [], by simp, fun _ => rfl, fun t' ht' => ?_⟩
      rw [List.nil_append, List.append_nil, List.splitOn_eq_singleton ht']
      rfl
    · refine ⟨[], a :: m, by simp, fun hnil => absurd (hm.trans hnil) (List.splitOn_ne_nil a m),
        fun t' ht' => ?_⟩
      rw [List.nil_append, List.splitOn_append_cons_self_of_not_mem ht', hm]
      rfl
  | cons u ts₁ ih =>
    obtain ⟨hu, ⟨hnil, -⟩ | ⟨m, rfl, hm⟩⟩ := splitOn_eq_cons h
    · simp at hnil
    · obtain ⟨l, r, rfl, hr, hreplace⟩ := ih hm
      refine ⟨u ++ a :: l, r, by simp, hr, fun t' ht' => ?_⟩
      rw [List.append_assoc, List.append_assoc, List.cons_append, ← List.append_assoc l,
        List.splitOn_append_cons_self_of_not_mem hu, hreplace t' ht']
      rfl

/-- The end of a sequence is the end of its last part. -/
theorem exists_splitOn_concat (hb : b ≠ a) (s : List α) :
    ∃ ts t, (s ++ [b]).splitOn a = ts ++ [t ++ [b]] := by
  induction s with
  | nil => exact ⟨[], [], List.splitOn_eq_singleton (by simp [Ne.symm hb])⟩
  | cons x s ih =>
    obtain ⟨ts, t, h⟩ := ih
    rw [List.cons_append, List.splitOn_cons_eq_if_modifyHead, h]
    split_ifs
    · exact ⟨[] :: ts, t, rfl⟩
    · rcases ts with _ | ⟨u, ts⟩
      · exact ⟨[], x :: t, rfl⟩
      · exact ⟨(x :: u) :: ts, t, rfl⟩

end Splitting

/-! ### Matching -/

/-- The tokens of a subject. -/
def tokens (subject : Bytes) : List Bytes := subject.splitOn 46

theorem infix_of_mem_tokens {t s : Bytes} (h : t ∈ tokens s) : t <:+: s := by
  obtain ⟨ts₁, ts₂, heq⟩ := List.append_of_mem h
  obtain ⟨l, r, rfl, -⟩ := exists_of_splitOn heq
  exact ⟨l, r, rfl⟩

/-- The tokens of a subscription match those of a subject. -/
def matchTokens : List Bytes → List Bytes → Bool
  | [], [] => true
  | p :: ps, t :: ts =>
    (p = ascii ">" && ps = []) || ((p = ascii "*" || p = t) && matchTokens ps ts)
  | _, _ => false

/-- A subscription gets the messages of a subject. -/
def matchesSubject (subscription subject : Bytes) : Bool :=
  matchTokens (tokens subscription) (tokens subject)

/-- A subscription without wildcards. -/
structure Literal (subscription : Bytes) : Prop where
  noStar : ascii "*" ∉ tokens subscription
  noTail : (tokens subscription).getLast? ≠ some (ascii ">")

variable {ps ps₁ ps₂ ts : List Bytes} {p t : Bytes} {subscription subject : Bytes}

/-- A subject matches itself. -/
theorem matchTokens_self (ts : List Bytes) : matchTokens ts ts = true := by
  induction ts with
  | nil => rfl
  | cons t ts ih => simp [matchTokens, ih]

/-- A wildcard in place of a token. -/
theorem matchTokens_replace (h : p = ascii "*" ∨ p = ascii ">" ∧ ps₂ = []) (t : Bytes) :
    matchTokens (ps₁ ++ p :: ps₂) (ps₁ ++ t :: ps₂) = true := by
  induction ps₁ with
  | nil => rcases h with rfl | ⟨rfl, rfl⟩ <;> simp [matchTokens, matchTokens_self]
  | cons q ps₁ ih => simp [matchTokens, ih]

/-- Without wildcards only the same tokens match. -/
theorem matchTokens_iff (hstar : ascii "*" ∉ ps) (htail : ps.getLast? ≠ some (ascii ">")) :
    matchTokens ps ts = true ↔ ps = ts := by
  refine ⟨fun h => ?_, fun h => h ▸ matchTokens_self ps⟩
  induction ps generalizing ts with
  | nil =>
    cases ts with
    | nil => rfl
    | cons t ts => simp [matchTokens] at h
  | cons p ps ih =>
    cases ts with
    | nil => simp [matchTokens] at h
    | cons t ts =>
      rw [List.mem_cons, not_or] at hstar
      have hone : ¬(p = ascii ">" ∧ ps = []) := by
        rintro ⟨rfl, rfl⟩
        exact htail rfl
      have hrest : ps.getLast? ≠ some (ascii ">") := by
        rcases ps with _ | ⟨q, ps⟩
        · simp
        · simpa using htail
      simp only [matchTokens, Bool.or_eq_true, Bool.and_eq_true, decide_eq_true_eq] at h
      obtain ⟨hp, hm⟩ := h.resolve_left hone
      rw [hp.resolve_left (Ne.symm hstar.1), ih hstar.2 hrest hm]

/-- A last token that is no wildcard is the last one of the subject. -/
theorem exists_of_matchTokens_concat (hstar : p ≠ ascii "*") (htail : p ≠ ascii ">")
    (h : matchTokens (ps ++ [p]) ts = true) : ∃ us, ts = us ++ [p] := by
  induction ps generalizing ts with
  | nil =>
    rcases ts with _ | ⟨t, _ | ⟨u, ts⟩⟩
    · simp [matchTokens] at h
    · refine ⟨[], ?_⟩
      simp only [List.nil_append, matchTokens, hstar, htail, decide_false, Bool.false_and,
        Bool.false_or, Bool.and_true, decide_eq_true_eq] at h
      rw [h]
      rfl
    · simp [matchTokens, htail] at h
  | cons q ps ih =>
    rcases ts with _ | ⟨t, ts⟩
    · simp [matchTokens] at h
    · simp only [List.cons_append, matchTokens, Bool.or_eq_true, Bool.and_eq_true,
        decide_eq_true_eq] at h
      rcases h with ⟨-, hnil⟩ | ⟨-, hm⟩
      · simp at hnil
      · obtain ⟨us, rfl⟩ := ih hm
        exact ⟨t :: us, rfl⟩

/-- What a subscription ends with, unless it is a wildcard or a dot, the subjects
    end with that it matches. -/
theorem getLast?_of_matchesSubject {b : UInt8} {s : Bytes} (hdot : b ≠ 46) (hstar : b ≠ 42)
    (htail : b ≠ 62) (h : matchesSubject (s ++ [b]) subject = true) :
    subject.getLast? = some b := by
  obtain ⟨ts, t, ht⟩ := exists_splitOn_concat hdot s
  rw [matchesSubject, tokens, ht] at h
  have hlast {c : UInt8} (hc : b ≠ c) : t ++ [b] ≠ [c] := fun heq =>
    hc (by simpa using congrArg List.getLast? heq)
  obtain ⟨us, hus⟩ := exists_of_matchTokens_concat (hlast hstar) (hlast htail) h
  obtain ⟨l, r, hlr, hr, -⟩ := exists_of_splitOn hus
  rw [hlr, hr rfl]
  simp

/-- A subscription that is not literal has a wildcard in it. -/
theorem exists_of_not_literal (h : ¬Literal subscription) : ∃ ts₁ p ts₂,
    tokens subscription = ts₁ ++ p :: ts₂ ∧ (p = ascii "*" ∨ p = ascii ">" ∧ ts₂ = []) := by
  by_cases hstar : ascii "*" ∈ tokens subscription
  · obtain ⟨ts₁, ts₂, heq⟩ := List.append_of_mem hstar
    exact ⟨ts₁, ascii "*", ts₂, heq, .inl rfl⟩
  · obtain ⟨ts₁, heq⟩ := List.getLast?_eq_some_iff.1 (not_not.1 fun hne => h ⟨hstar, hne⟩)
    exact ⟨ts₁, ascii ">", [], heq, .inr ⟨rfl, rfl⟩⟩

/-- A literal subscription matches its own subject only. -/
theorem matchesSubject_iff (h : Literal subscription) :
    matchesSubject subscription subject = true ↔ subscription = subject := by
  rw [matchesSubject, matchTokens_iff h.noStar h.noTail]
  have hjoin (s : Bytes) : [46].intercalate (tokens s) = s := List.intercalate_splitOn 46
  exact ⟨fun heq => by rw [← hjoin subscription, heq, hjoin], fun heq => heq ▸ rfl⟩

end RtcmBridge

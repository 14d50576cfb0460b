import RtcmBridge.Bytes
import Mathlib.Data.List.DropRight
import Mathlib.Tactic

/-!
# Digits

Numbers as strings of digits in a base of at most sixteen (`printed`), and the
number that a string of digits stands for (`valueOf`). A string is cut at a
character that does not occur in front of it in one way only
(`append_inj_of_notMem`).
-/

namespace RtcmBridge

/-- The number `n` in the base `b`. -/
def printed (b n : ℕ) : Bytes := (Nat.toDigits b n).map fun c => UInt8.ofNat c.toNat

/-- The digit `d`. -/
def digitOf (d : ℕ) : UInt8 := .ofNat (Nat.digitChar d).toNat

/-- A hexadecimal digit, of either case. -/
def isHexDigit (c : UInt8) : Bool :=
  (48 ≤ c && c ≤ 57) || (97 ≤ c && c ≤ 102) || (65 ≤ c && c ≤ 70)

/-- The value of a digit. -/
def digitValue (c : UInt8) : ℕ :=
  if c ≤ 57 then c.toNat - 48 else if c ≤ 70 then c.toNat - 55 else c.toNat - 87

/-- The number that a string of digits stands for. -/
def valueOf (b : ℕ) (l : Bytes) : ℕ := l.foldl (fun v c => b * v + digitValue c) 0

variable {b n m d : ℕ} {c : UInt8} {l u u' v v' : Bytes}

/-- The value of a digit is the digit. -/
theorem digitValue_digitOf (h : d < 16) : digitValue (digitOf d) = d := by
  interval_cases d <;> rfl

theorem isHexDigit_digitOf (h : d < 16) : isHexDigit (digitOf d) = true := by
  interval_cases d <;> rfl

/-- The last digit is the remainder. -/
theorem printed_eq (hb : 1 < b) (n : ℕ) :
    printed b n = if n < b then [digitOf n] else printed b (n / b) ++ [digitOf (n % b)] := by
  rw [printed, Nat.toDigits_eq_if hb]
  split_ifs
  · rfl
  · rw [List.map_append]
    rfl

/-- The digits but the last one are those of the quotient. -/
theorem printed_induction {P : ℕ → Bytes → Prop} (hb : 1 < b)
    (hlt : ∀ n < b, P n [digitOf n])
    (hge : ∀ n, b ≤ n → P (n / b) (printed b (n / b)) →
      P n (printed b (n / b) ++ [digitOf (n % b)])) (n : ℕ) : P n (printed b n) := by
  induction n using Nat.strong_induction_on with
  | _ n ih =>
    rw [printed_eq hb]
    split_ifs with hn
    · exact hlt n hn
    · have hpos : 0 < n := by omega
      exact hge n (Nat.le_of_not_lt hn) (ih _ (Nat.div_lt_self hpos hb))

theorem valueOf_append_singleton (b : ℕ) (l : Bytes) (c : UInt8) :
    valueOf b (l ++ [c]) = b * valueOf b l + digitValue c := by
  rw [valueOf, List.foldl_append]
  rfl

/-- The number that is printed is the one that is read. -/
theorem valueOf_printed (hb : 1 < b) (h16 : b ≤ 16) (n : ℕ) : valueOf b (printed b n) = n := by
  refine printed_induction (P := fun n l => valueOf b l = n) hb (fun n hn => ?_)
    (fun n _ ih => ?_) n
  · exact (Nat.zero_add _).trans (digitValue_digitOf (by omega))
  · have hmod : n % b < b := Nat.mod_lt _ (by omega)
    rw [valueOf_append_singleton, ih, digitValue_digitOf (by omega), Nat.div_add_mod]

/-- The notation determines the number. -/
theorem printed_inj (hb : 1 < b) (h16 : b ≤ 16) : printed b n = printed b m ↔ n = m := by
  refine ⟨fun h => ?_, congrArg _⟩
  rw [← valueOf_printed hb h16 n, h, valueOf_printed hb h16]

/-- All characters are digits of the base. -/
theorem mem_printed (hb : 1 < b) (h : c ∈ printed b n) : ∃ d < b, c = digitOf d := by
  refine printed_induction (P := fun _ l => c ∈ l → ∃ d < b, c = digitOf d) hb
    (fun n hn h => ⟨n, hn, List.mem_singleton.1 h⟩) (fun n _ ih h => ?_) n h
  rcases List.mem_append.1 h with h | h
  · exact ih h
  · exact ⟨n % b, Nat.mod_lt _ (by omega), List.mem_singleton.1 h⟩

/-- There is no zero in front but that of the number zero. -/
theorem printed_eq_cons (hb : 1 < b) (h16 : b ≤ 16) (n : ℕ) :
    ∃ c l, printed b n = c :: l ∧ (c = digitOf 0 → n = 0) := by
  refine printed_induction (P := fun n s => ∃ c l, s = c :: l ∧ (c = digitOf 0 → n = 0)) hb
    (fun n hn => ⟨_, [], rfl, fun h => ?_⟩) (fun n hn ⟨c, l, hl, hc⟩ => ?_) n
  · have := congrArg digitValue h
    rwa [digitValue_digitOf (by omega), digitValue_digitOf (by omega)] at this
  · refine ⟨c, l ++ [digitOf (n % b)], by rw [hl]; rfl, fun h => ?_⟩
    have hzero : n / b = 0 := hc h
    have hpos : 0 < n / b := Nat.div_pos hn (by omega)
    omega

theorem digitOf_inj {e : ℕ} (hd : d < 16) (he : e < 16) : digitOf d = digitOf e ↔ d = e := by
  refine ⟨fun h => ?_, congrArg _⟩
  rw [← digitValue_digitOf hd, h, digitValue_digitOf he]

theorem lt_pow_length_printed (hb : 1 < b) (n : ℕ) : n < b ^ (printed b n).length := by
  refine printed_induction (P := fun n l => n < b ^ l.length) hb (fun n hn => ?_)
    (fun n _ ih => ?_) n
  · rwa [List.length_singleton, pow_one]
  · rw [List.length_append, List.length_singleton, pow_succ]
    exact (Nat.div_lt_iff_lt_mul (by omega)).1 ih

/-! ### Separators -/

/-- A string is cut in one way before the first occurrence of a character. -/
theorem append_inj_of_notMem {s s' : Bytes} (hu : c ∉ u) (hu' : c ∉ u')
    (hs : s = [] ∨ ∃ t, s = c :: t) (hs' : s' = [] ∨ ∃ t, s' = c :: t)
    (h : u ++ s = u' ++ s') : u = u' ∧ s = s' := by
  induction u generalizing u' with
  | nil =>
    rcases u' with _ | ⟨x, u'⟩
    · exact ⟨rfl, h⟩
    · rcases hs with rfl | ⟨t, rfl⟩
      · exact absurd h (by simp)
      · exact absurd (List.cons.inj h).1 fun hx => hu' (hx ▸ List.mem_cons_self ..)
  | cons x u ih =>
    rcases u' with _ | ⟨y, u'⟩
    · rcases hs' with rfl | ⟨t, rfl⟩
      · exact absurd h (by simp)
      · exact absurd (List.cons.inj h).1 fun hx => hu (hx ▸ List.mem_cons_self ..)
    · rw [List.cons_append, List.cons_append] at h
      obtain ⟨rfl, htail⟩ := List.cons.inj h
      obtain ⟨rfl, rfl⟩ := ih (fun h => hu (List.mem_cons_of_mem _ h))
        (fun h => hu' (List.mem_cons_of_mem _ h)) htail
      exact ⟨rfl, rfl⟩

/-- A string is known from its length and what is left of it without the zeros at its end. -/
theorem eq_of_rdropWhile_eq {α : Type*} [DecidableEq α] {z : α} {l m : List α}
    (hlen : l.length = m.length) (h : l.rdropWhile (· == z) = m.rdropWhile (· == z)) : l = m := by
  have hsplit (l : List α) : ∃ k, l = l.rdropWhile (· == z) ++ List.replicate k z := by
    refine ⟨(l.rtakeWhile (· == z)).length, ?_⟩
    have hall : ∀ x ∈ l.rtakeWhile (· == z), x = z := fun x hx =>
      beq_iff_eq.1 (List.mem_rtakeWhile_imp (p := (· == z)) hx)
    rw [← List.eq_replicate_of_mem hall, List.rdropWhile_append_rtakeWhile]
  obtain ⟨k, hk⟩ := hsplit l
  obtain ⟨k', hk'⟩ := hsplit m
  have hlen' := hlen
  rw [hk, hk', List.length_append, List.length_append, List.length_replicate,
    List.length_replicate, h] at hlen'
  rw [hk, hk', h, Nat.add_left_cancel hlen']

end RtcmBridge

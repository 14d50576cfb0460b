import RtcmBridge.Digits
import RtcmBridge.MessageDecoder.Basic
import Mathlib.Tactic

/-!
# The text of a summary

What is printed for each item of a summary. A number of tenths of millimetres is
printed in metres by `operator<<` with the default precision: rounded to six
significant digits (`sixDigits`), without the zeros at the end, and with an exponent
from a million on (`metres`). The lines of the cells, which are computed with
floating point numbers, are a parameter.
-/

namespace RtcmBridge.RtcmMessageDecoder

/-- `operator<<` for an integer. -/
def decimal (v : ℤ) : Bytes :=
  if v < 0 then 45 :: printed 10 v.natAbs else printed 10 v.natAbs

/-- The nearest multiple of `unit`, divided by it. A half is rounded to even. -/
def roundHalfEven (n unit : ℕ) : ℕ :=
  if 2 * (n % unit) < unit ∨ (2 * (n % unit) = unit ∧ n / unit % 2 = 0) then n / unit
  else n / unit + 1

/-- A number rounded to six significant digits. -/
def sixDigits (n : ℕ) : ℕ :=
  let unit := 10 ^ (Nat.log 10 n - 5)
  roundHalfEven n unit * unit

/-- The digits behind the point, and the point if there are any. -/
def fraction (l : Bytes) : Bytes :=
  let digits := l.rdropWhile (· == 48)
  if digits = [] then [] else 46 :: digits

/-- The last four digits. -/
def fourDigits (m : ℕ) : Bytes := [m / 1000 % 10, m / 100 % 10, m / 10 % 10, m % 10].map digitOf

/-- Two digits at least. -/
def twoDigits (n : ℕ) : Bytes := if n < 10 then digitOf 0 :: printed 10 n else printed 10 n

/-- The text of `n * 0.0001` without an exponent. -/
def fixed (n : ℕ) : Bytes := printed 10 (n / 10 ^ 4) ++ fraction (fourDigits (n % 10 ^ 4))

/-- The text of `n * 0.0001` with an exponent. -/
def scientific (n : ℕ) : Bytes :=
  let digits := printed 10 n
  digits.take 1 ++ fraction (digits.drop 1) ++ ascii "e+" ++ twoDigits (digits.length - 5)

/-- The text of `n * 0.0001`, for `n` of six significant digits. -/
def general (n : ℕ) : Bytes := if n < 10 ^ 10 then fixed n else scientific n

/-- `operator<<` for `v * 0.0001`. -/
def metres (v : ℤ) : Bytes :=
  if v < 0 then 45 :: general (sixDigits v.natAbs) else general (sixDigits v.natAbs)

/-- `fmt_prn`. -/
def fmtPrn (c : Char) (prn : ℕ) : Bytes := UInt8.ofNat c.toNat :: twoDigits prn

/-- The text of an item. That of the line of a cell is a parameter. -/
def Item.print (line : SigInfo → Msm.Observation → Bytes) : Item → Bytes
  | text s => ascii s
  | error s => ascii s
  | name s => ascii " (" ++ ascii s ++ ascii ")"
  | number key v => ascii key ++ decimal v
  | scaled key v => ascii key ++ metres v
  | quoted key s => ascii key ++ ascii "\"" ++ s ++ ascii "\""
  | heading c sat => ascii "\n  PRN " ++ fmtPrn c sat ++ ascii ":"
  | observation sig o => line sig o

/-- The string that `decode` returns. -/
def summary (line : SigInfo → Msm.Observation → Bytes) (items : List Item) : Bytes :=
  items.flatMap (Item.print line)

/-! ### Numbers in metres -/

/-- A number that is not zero is not rounded to zero. -/
theorem sixDigits_pos {n : ℕ} (h : n ≠ 0) : 0 < sixDigits n := by
  have hunit : 10 ^ (Nat.log 10 n - 5) ≤ n :=
    (Nat.pow_le_pow_right (by decide) (Nat.sub_le ..)).trans (Nat.pow_log_le_self 10 h)
  have hpos : 0 < 10 ^ (Nat.log 10 n - 5) := Nat.pow_pos (by decide)
  refine Nat.mul_pos ?_ hpos
  have := Nat.div_pos hunit hpos
  rw [roundHalfEven]
  split_ifs <;> omega

/-- A printed decimal has digits only. -/
theorem mem_printed_ten {n : ℕ} {c : UInt8} (h : c ∈ printed 10 n) :
    48 ≤ c.toNat ∧ c.toNat ≤ 57 := by
  obtain ⟨d, hd, rfl⟩ := mem_printed (by decide) h
  interval_cases d <;> decide

/-- A character that is no digit is not printed. -/
theorem notMem_printed_ten {c : UInt8} (n : ℕ) (hc : c.toNat < 48 ∨ 57 < c.toNat) :
    c ∉ printed 10 n := fun h => by
  have := mem_printed_ten h
  omega

/-- A fraction is empty or starts with the point. -/
theorem fraction_eq (l : Bytes) : fraction l = [] ∨ ∃ t, fraction l = 46 :: t := by
  rw [fraction]
  split_ifs
  · exact .inl rfl
  · exact .inr ⟨_, rfl⟩

/-- Two fractions of one width that print alike are equal: the zeros dropped are determined by
    the width. -/
theorem fraction_inj {l m : Bytes} (hlen : l.length = m.length) (h : fraction l = fraction m) :
    l = m := by
  refine eq_of_rdropWhile_eq (z := 48) hlen ?_
  rw [fraction, fraction] at h
  split_ifs at h with hl hm hm
  · rw [hl, hm]
  · exact (List.cons.inj h).2

/-- A fraction has the point and its digits only. -/
theorem mem_fraction {l : Bytes} {c : UInt8} (h : c ∈ fraction l) : c = 46 ∨ c ∈ l := by
  rw [fraction] at h
  split_ifs at h
  · exact absurd h List.not_mem_nil
  · exact (List.mem_cons.1 h).imp_right fun h => (List.rdropWhile_prefix _ _).subset h

theorem length_fourDigits (m : ℕ) : (fourDigits m).length = 4 := rfl

theorem mem_fourDigits {m : ℕ} {c : UInt8} (h : c ∈ fourDigits m) :
    48 ≤ c.toNat ∧ c.toNat ≤ 57 := by
  obtain ⟨d, hd, rfl⟩ := List.mem_map.1 h
  have hlt : d < 10 := by
    simp only [List.mem_cons, List.not_mem_nil, or_false] at hd
    omega
  interval_cases d <;> decide

/-- Four digits determine a number below ten thousand. -/
theorem fourDigits_inj {m m' : ℕ} (hm : m < 10 ^ 4) (hm' : m' < 10 ^ 4)
    (h : fourDigits m = fourDigits m') : m = m' := by
  simp only [fourDigits, List.map_cons, List.map_nil, List.cons.injEq, and_true] at h
  rw [digitOf_inj (by omega) (by omega), digitOf_inj (by omega) (by omega),
    digitOf_inj (by omega) (by omega), digitOf_inj (by omega) (by omega)] at h
  omega

/-- The notation without an exponent determines the number. -/
theorem fixed_inj {n n' : ℕ} (h : fixed n = fixed n') : n = n' := by
  rw [fixed, fixed] at h
  obtain ⟨hwhole, hfraction⟩ := append_inj_of_notMem (notMem_printed_ten _ (by decide))
    (notMem_printed_ten _ (by decide)) (fraction_eq _) (fraction_eq _) h
  have hdiv := (printed_inj (by decide) (by decide)).1 hwhole
  have hmod := fourDigits_inj (Nat.mod_lt _ (by decide)) (Nat.mod_lt _ (by decide))
    (fraction_inj (by rw [length_fourDigits, length_fourDigits]) hfraction)
  omega

/-- An exponent is determined by its digits, padded or not. -/
theorem twoDigits_inj {n n' : ℕ} (h : twoDigits n = twoDigits n') : n = n' := by
  have hzero {m : ℕ} {t : Bytes} (hm : ¬m < 10) (h : digitOf 0 :: t = printed 10 m) : False := by
    obtain ⟨c, l, hl, hc⟩ := printed_eq_cons (b := 10) (by decide) (by decide) m
    have := hc (List.cons.inj (h.trans hl)).1.symm
    omega
  rw [twoDigits, twoDigits] at h
  split_ifs at h with hn hn' hn'
  · exact (printed_inj (by decide) (by decide)).1 (List.cons.inj h).2
  · exact (hzero hn' h).elim
  · exact (hzero hn h.symm).elim
  · exact (printed_inj (by decide) (by decide)).1 h

/-- The digits in front of the exponent. -/
theorem scientific_eq (n : ℕ) : ∃ d l, printed 10 n = d :: l ∧
    scientific n = (d :: fraction l) ++ 101 :: 43 :: twoDigits ((printed 10 n).length - 5) ∧
    101 ∉ d :: fraction l := by
  obtain ⟨d, l, hl, _⟩ := printed_eq_cons (b := 10) (by decide) (by decide) n
  refine ⟨d, l, hl, ?_, fun h => ?_⟩
  · rw [scientific, hl]
    simp
    rfl
  · have hdigit (c : UInt8) (hc : c ∈ d :: l) := mem_printed_ten (hl ▸ hc)
    rcases List.mem_cons.1 h with rfl | h
    · exact absurd (hdigit 101 (List.mem_cons_self ..)).2 (by decide)
    · rcases mem_fraction h with h | h
      · exact absurd h (by decide)
      · exact absurd (hdigit 101 (List.mem_cons_of_mem _ h)).2 (by decide)

/-- The notation with an exponent determines the number: its digits, and how many they are. -/
theorem scientific_inj {n n' : ℕ} (hn : 10 ^ 10 ≤ n) (hn' : 10 ^ 10 ≤ n')
    (h : scientific n = scientific n') : n = n' := by
  have hlong {m : ℕ} (hm : 10 ^ 10 ≤ m) : 10 < (printed 10 m).length :=
    (Nat.pow_lt_pow_iff_right (by decide)).1
      (hm.trans_lt (lt_pow_length_printed (by decide) m))
  have hlen := hlong hn
  have hlen' := hlong hn'
  obtain ⟨d, l, hl, hs, hd⟩ := scientific_eq n
  obtain ⟨d', l', hl', hs', hd'⟩ := scientific_eq n'
  rw [hs, hs'] at h
  obtain ⟨hmantissa, hexponent⟩ :=
    append_inj_of_notMem hd hd' (.inr ⟨_, rfl⟩) (.inr ⟨_, rfl⟩) h
  have hexp := twoDigits_inj (List.cons.inj (List.cons.inj hexponent).2).2
  have hlengths : l.length = l'.length := by
    have h₁ := congrArg List.length hl
    have h₂ := congrArg List.length hl'
    rw [List.length_cons] at h₁ h₂
    omega
  obtain ⟨rfl, hfraction⟩ := List.cons.inj hmantissa
  obtain rfl := fraction_inj hlengths hfraction
  exact (printed_inj (by decide) (by decide)).1 (hl.trans hl'.symm)

/-- Without an exponent there is no `e`, so the two notations are never confused. -/
theorem notMem_fixed (n : ℕ) : 101 ∉ fixed n := by
  intro h
  rcases List.mem_append.1 h with h | h
  · exact notMem_printed_ten _ (by decide) h
  · rcases mem_fraction h with h | h
    · exact absurd h (by decide)
    · exact absurd (mem_fourDigits h).2 (by decide)

/-- The text determines the number. -/
theorem general_inj {n n' : ℕ} (h : general n = general n') : n = n' := by
  have hmem (m : ℕ) : 101 ∈ scientific m := by
    obtain ⟨_, _, _, hs, _⟩ := scientific_eq m
    rw [hs]
    exact List.mem_append_right _ (List.mem_cons_self ..)
  rw [general, general] at h
  split_ifs at h with hn hn' hn'
  · exact fixed_inj h
  · exact absurd (h ▸ hmem n') (notMem_fixed n)
  · exact absurd (h ▸ hmem n) (notMem_fixed n')
  · exact scientific_inj (Nat.le_of_not_lt hn) (Nat.le_of_not_lt hn') h

/-! ### Signs -/

/-- Two signed numbers, whose digits are `a` and `a'`, have the same text only if they
    have the same sign and the same digits. -/
theorem sign_eq_iff {v v' : ℤ} {a a' : Bytes} (ha : ∀ t, a ≠ 45 :: t) (ha' : ∀ t, a' ≠ 45 :: t) :
    (if v < 0 then 45 :: a else a) = (if v' < 0 then 45 :: a' else a') ↔
      (v < 0 ↔ v' < 0) ∧ a = a' := by
  split_ifs with hv hv' hv'
  · rw [List.cons_inj_right]
    exact (and_iff_right (iff_of_true hv hv')).symm
  · exact iff_of_false (fun h => ha' _ h.symm) fun h => hv' (h.1.1 hv)
  · exact iff_of_false (fun h => ha _ h) fun h => hv (h.1.2 hv')
  · exact (and_iff_right (iff_of_false hv hv')).symm

theorem printed_ne_minus (n : ℕ) (t : Bytes) : printed 10 n ≠ 45 :: t := fun h =>
  notMem_printed_ten (c := 45) n (by decide) (h ▸ List.mem_cons_self ..)

/-- The text of an absolute value does not begin with a sign. -/
theorem general_ne_minus (n : ℕ) (t : Bytes) : general n ≠ 45 :: t := by
  intro h
  rw [general] at h
  split_ifs at h
  · obtain ⟨c, l, hl, _⟩ := printed_eq_cons (b := 10) (by decide) (by decide) (n / 10 ^ 4)
    rw [fixed, hl] at h
    exact printed_ne_minus _ l (hl.trans (congrArg (· :: l) (List.cons.inj h).1))
  · obtain ⟨c, l, hl, _⟩ := printed_eq_cons (b := 10) (by decide) (by decide) n
    rw [scientific, hl] at h
    exact printed_ne_minus _ l (hl.trans (congrArg (· :: l) (List.cons.inj h).1))

/-- The decimal notation of integers determines them. -/
theorem decimal_inj {v v' : ℤ} : decimal v = decimal v' ↔ v = v' := by
  rw [decimal, decimal, sign_eq_iff (printed_ne_minus _) (printed_ne_minus _),
    printed_inj (by decide) (by decide)]
  omega

/-- A number of tenths of millimetres, as it is printed. -/
def rounded (v : ℤ) : ℤ := if v < 0 then -sixDigits v.natAbs else sixDigits v.natAbs

/-- The text of a coordinate determines the number to six significant digits, and
    no more. -/
theorem metres_eq_iff (v v' : ℤ) : metres v = metres v' ↔ rounded v = rounded v' := by
  have hpos {v : ℤ} (h : v < 0) : 0 < sixDigits v.natAbs := sixDigits_pos (by omega)
  have hgeneral : general (sixDigits v.natAbs) = general (sixDigits v'.natAbs) ↔
      sixDigits v.natAbs = sixDigits v'.natAbs := ⟨general_inj, congrArg general⟩
  rw [metres, metres, sign_eq_iff (general_ne_minus _) (general_ne_minus _), hgeneral, rounded,
    rounded]
  split_ifs with hv hv' hv'
  · omega
  · have := hpos hv
    omega
  · have := hpos hv'
    omega
  · omega

/-! ### Spaces -/

theorem notMem_decimal (v : ℤ) : 32 ∉ decimal v := by
  rw [decimal]
  split_ifs
  · exact List.not_mem_cons_of_ne_of_not_mem (by decide) (notMem_printed_ten _ (by decide))
  · exact notMem_printed_ten _ (by decide)

theorem notMem_twoDigits (n : ℕ) : 32 ∉ twoDigits n := by
  rw [twoDigits]
  split_ifs
  · exact List.not_mem_cons_of_ne_of_not_mem (by decide) (notMem_printed_ten _ (by decide))
  · exact notMem_printed_ten _ (by decide)

theorem notMem_general (n : ℕ) : 32 ∉ general n := by
  have hfraction {l : Bytes} (hl : 32 ∉ l) : 32 ∉ fraction l := fun h =>
    (mem_fraction h).elim (by decide) hl
  rw [general]
  split_ifs
  · refine List.not_mem_append (notMem_printed_ten _ (by decide)) (hfraction fun h => ?_)
    exact absurd (mem_fourDigits h).1 (by decide)
  · obtain ⟨d, l, hl, hs, _⟩ := scientific_eq n
    have hdigits : 32 ∉ d :: l := hl ▸ notMem_printed_ten n (by decide)
    obtain ⟨hd, hl⟩ := List.ne_and_not_mem_of_not_mem_cons hdigits
    rw [hs]
    refine List.not_mem_append (List.not_mem_cons_of_ne_of_not_mem hd (hfraction hl)) ?_
    exact List.not_mem_cons_of_ne_of_not_mem (by decide)
      (List.not_mem_cons_of_ne_of_not_mem (by decide) (notMem_twoDigits _))

/-- A printed length has no blank in it, so the blank before the next key ends it. -/
theorem notMem_metres (v : ℤ) : 32 ∉ metres v := by
  rw [metres]
  split_ifs
  · exact List.not_mem_cons_of_ne_of_not_mem (by decide) (notMem_general _)
  · exact notMem_general _

end RtcmBridge.RtcmMessageDecoder

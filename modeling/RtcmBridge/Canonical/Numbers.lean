import RtcmBridge.AcceptedOptions
import RtcmBridge.Digits

/-!
# Numbers in configuration files

A number that `std::to_string` writes is read back by `parse_positive_int`, if it is
positive (`parsePositiveInt_toString`).
-/

namespace RtcmBridge

/-- The decimal notation is that of the digits. -/
theorem ascii_repr (n : ℕ) : ascii (Nat.repr n) = printed 10 n := by
  simp [ascii, printed, Nat.repr]

theorem isDigit_digitOf {d : ℕ} (h : d < 10) : isDigit (digitOf d) = true := by
  interval_cases d <;> rfl

/-- A printed number has digits only. -/
theorem isDigit_of_mem_printed {n : ℕ} {c : UInt8} (h : c ∈ printed 10 n) : isDigit c = true := by
  obtain ⟨d, hd, rfl⟩ := mem_printed (by decide) h
  exact isDigit_digitOf hd

/-- A number consists of digits. -/
theorem notMem_printed {c : UInt8} (hc : isDigit c = false) (n : ℕ) : c ∉ printed 10 n := by
  intro h
  rw [isDigit_of_mem_printed h] at hc
  cases hc

theorem printed_ne_nil (n : ℕ) : printed 10 n ≠ [] := by
  obtain ⟨c, l, h, -⟩ := printed_eq_cons (b := 10) (by decide) (by decide) n
  rw [h]
  exact List.cons_ne_nil c l

/-- The characters that are no digits are those below `0` and above `9`. -/
theorem isDigit_eq_false_of_isSpace {c : UInt8} (h : isSpace c = true) : isDigit c = false := by
  simp only [isSpace, Bool.or_eq_true, Bool.and_eq_true, decide_eq_true_eq] at h
  simp only [isDigit, Bool.and_eq_false_iff, decide_eq_false_iff_not, UInt8.not_le]
  refine .inl ?_
  rcases h with rfl | ⟨-, h⟩
  · decide
  · exact UInt8.lt_of_le_of_lt h (by decide)

theorem isSpace_of_isDigit {c : UInt8} (h : isDigit c = true) : isSpace c = false := by
  by_contra hc
  rw [isDigit_eq_false_of_isSpace (Bool.not_eq_false _ ▸ hc)] at h
  cases h

/-- A printed number has nothing to trim. -/
theorem trimmed_printed (n : ℕ) : Trimmed (printed 10 n) :=
  ⟨fun _ hb => isSpace_of_isDigit (isDigit_of_mem_printed (List.mem_of_mem_head? hb)),
    fun _ hb => isSpace_of_isDigit (isDigit_of_mem_printed (List.mem_of_getLast? hb))⟩

/-- Read digit by digit, a printed number is the number. -/
theorem foldl_printed (n : ℕ) :
    (printed 10 n).foldl (fun n b => n * 10 + (b.toNat - 48)) 0 = n := by
  have hdigit : ∀ d < 10, (digitOf d).toNat - 48 = d := by decide
  refine printed_induction (P := fun n s => s.foldl (fun n b => n * 10 + (b.toNat - 48)) 0 = n)
    (by decide) (fun n hn => ?_) (fun n hn ih => ?_) n
  · rw [List.foldl_cons, List.foldl_nil, hdigit n hn, Nat.zero_mul, Nat.zero_add]
  · rw [List.foldl_append, ih, List.foldl_cons, List.foldl_nil, hdigit _ (Nat.mod_lt _ (by decide))]
    omega

/-- `std::stoi` reads a number to its end. -/
theorem stoi_printed {n : ℕ} (h : n < 2 ^ 31) :
    stoi (printed 10 n) = some ((n : ℤ), (printed 10 n).length) := by
  have hspace : (printed 10 n).dropWhile isSpace = printed 10 n := by
    obtain ⟨c, l, heq, -⟩ := printed_eq_cons (b := 10) (by decide) (by decide) n
    rw [heq, List.dropWhile_cons, if_neg]
    rw [isSpace_of_isDigit (isDigit_of_mem_printed (heq ▸ List.mem_cons_self))]
    exact Bool.false_ne_true
  have hdigits : (printed 10 n).takeWhile isDigit = printed 10 n :=
    List.takeWhile_eq_self_iff.2 fun _ => isDigit_of_mem_printed
  have hsign (c : UInt8) (l : Bytes) (hc : isDigit c = false) : printed 10 n ≠ c :: l := by
    intro heq
    exact notMem_printed hc n (heq ▸ List.mem_cons_self)
  rw [stoi, hspace]
  split
  next sign unsigned heq =>
    split at heq
    · exact absurd ‹_› (hsign 45 _ rfl)
    · exact absurd ‹_› (hsign 43 _ rfl)
    · obtain ⟨rfl, rfl⟩ := Prod.mk.inj heq
      simp only [hdigits, foldl_printed, one_mul]
      rw [if_neg]
      · simp
      · rintro (hnil | hlt)
        · exact printed_ne_nil n hnil
        · omega

namespace ConfigurationFile

/-- A positive `int` is printed without a sign. -/
theorem toString_of_pos {n : Int32} (h : 0 < n.toInt) :
    ascii (toString n) = printed 10 n.toInt.toNat := by
  change ascii (Int.repr n.toInt) = _
  obtain ⟨m, hm⟩ := Int.eq_ofNat_of_zero_le h.le
  rw [hm]
  exact ascii_repr m

/-- A number is read as it is written. -/
theorem parsePositiveInt_toString {n : Int32} (h : 0 < n.toInt) :
    parsePositiveInt (ascii (toString n)) = some n := by
  have hlt := Int32.toInt_lt n
  rw [toString_of_pos h, parsePositiveInt, stoi_printed (by omega)]
  dsimp only
  rw [if_neg (by omega), Int.toNat_of_nonneg h.le, Int32.ofInt_toInt]

end ConfigurationFile

end RtcmBridge

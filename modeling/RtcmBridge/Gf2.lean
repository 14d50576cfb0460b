import RtcmBridge.Bits

/-!
# Polynomials over GF(2) as numbers

A number stands for the polynomial over GF(2) whose coefficients are its bits
(`Gf2.ofNat`): an exclusive or is a sum, and a shift multiplies by a power of `X`.

A division register of `w` bits shifts, and adds the generator when a bit leaves
it (`Gf2.step`): it multiplies by `X` modulo the generator (`residue_step`). The
polynomials of `w` bits are different modulo a generator of the degree `w`
(`eq_of_residue_eq`), so that a register holds the remainder of what was shifted
into it (`ofNat_eq_modByMonic`).

Which patterns of errors are no multiples of a generator, so that a checksum
reveals them: those of odd weight (`even_count_of_dvd`), short bursts
(`not_mem_of_dvd_burst`), and two errors that are less than the order of `X`
apart (`pow_eq_one_of_dvd_two`, with `pow_ne_one_of_lt` to bound the order).
-/

namespace RtcmBridge.Gf2

open Polynomial

/-- The polynomial whose coefficients are the bits of a number. -/
noncomputable def ofNat (n : ℕ) : (ZMod 2)[X] :=
  ∑ i ∈ Finset.range n, if n.testBit i then X ^ i else 0

/-- The coefficients are the bits. -/
theorem coeff_ofNat (n i : ℕ) : (ofNat n).coeff i = if n.testBit i then 1 else 0 := by
  have hterm (j : ℕ) : (if n.testBit j then X ^ j else (0 : (ZMod 2)[X])).coeff i =
      if i = j then (if n.testBit j then 1 else 0) else 0 := by
    split_ifs <;> simp_all [coeff_X_pow]
  rw [ofNat, finsetSum_coeff, Finset.sum_congr rfl fun j _ => hterm j, Finset.sum_ite_eq]
  by_cases hi : i ∈ Finset.range n
  · rw [if_pos hi]
  · have hlt : n < 2 ^ i := (not_lt.1 (mt Finset.mem_range.2 hi)).trans_lt Nat.lt_two_pow_self
    rw [if_neg hi, Nat.testBit_lt_two_pow hlt, if_neg Bool.false_ne_true]

/-! ### Sums and shifts -/

@[simp]
theorem ofNat_zero : ofNat 0 = 0 := rfl

/-- Exclusive or is the sum of the polynomials. -/
theorem ofNat_xor (a b : ℕ) : ofNat (a ^^^ b) = ofNat a + ofNat b := by
  ext i
  rw [coeff_add, coeff_ofNat, coeff_ofNat, coeff_ofNat, Nat.testBit_xor]
  cases a.testBit i <;> cases b.testBit i <;> decide

/-- A polynomial determines its number. -/
theorem ofNat_injective : Function.Injective ofNat := by
  intro a b h
  refine Nat.eq_of_testBit_eq fun i => ?_
  have := congrArg (coeff · i) h
  simp only [coeff_ofNat] at this
  cases ha : a.testBit i <;> cases hb : b.testBit i <;> simp_all

/-- A number in front of another of `k` bits. -/
theorem ofNat_mul_add (a : ℕ) {b k : ℕ} (hb : b < 2 ^ k) :
    ofNat (a * 2 ^ k + b) = ofNat a * X ^ k + ofNat b := by
  ext i
  rw [Nat.mul_comm, coeff_add, coeff_mul_X_pow', coeff_ofNat, coeff_ofNat, coeff_ofNat,
    Nat.testBit_two_pow_mul_add a hb]
  by_cases hi : i < k
  · simp [hi, not_le.2 hi]
  · have hlt : b < 2 ^ i := hb.trans_le (Nat.pow_le_pow_right two_pos (not_lt.1 hi))
    simp [hi, not_lt.1 hi, Nat.testBit_lt_two_pow hlt]

/-- A shift is a product with a power of `X`. -/
theorem ofNat_mul_two_pow (a k : ℕ) : ofNat (a * 2 ^ k) = ofNat a * X ^ k := by
  have := ofNat_mul_add a (Nat.two_pow_pos k)
  rwa [Nat.add_zero, ofNat_zero, add_zero] at this

theorem ofNat_two_mul (a : ℕ) : ofNat (2 * a) = X * ofNat a := by
  have := ofNat_mul_two_pow a 1
  rwa [pow_one, pow_one, Nat.mul_comm, mul_comm (ofNat a)] at this

@[simp]
theorem ofNat_one : ofNat 1 = 1 := by
  ext i
  rw [coeff_ofNat, coeff_one]
  rcases i with _ | i
  · simp
  · simp [Nat.testBit_succ]

/-- A bit string in front of another. -/
theorem ofNat_natOf_append (l m : List Bool) :
    ofNat (natOf (l ++ m)) = ofNat (natOf l) * X ^ m.length + ofNat (natOf m) := by
  rw [natOf_append, ofNat_mul_add _ (natOf_lt m)]

/-! ### Degrees -/

/-- A number of `w` bits has a degree below `w`. -/
theorem degree_ofNat_lt {n w : ℕ} (h : n < 2 ^ w) : (ofNat n).degree < w := by
  rw [degree_lt_iff_coeff_zero]
  intro i hi
  have hlt := h.trans_le (Nat.pow_le_pow_right two_pos hi)
  rw [coeff_ofNat, Nat.testBit_lt_two_pow hlt, if_neg Bool.false_ne_true]

/-- A generator of the degree `w`. -/
structure Generator (w g : ℕ) : Prop where
  top : g.testBit w = true
  lt : g < 2 ^ (w + 1)

section Register

variable {w g r s : ℕ} (hg : Generator w g)

namespace Generator

include hg

/-- The generator has its top bit, so its degree is the width. -/
theorem degree : (ofNat g).degree = w := by
  refine le_antisymm (Order.lt_succ_iff.1 ?_) ?_
  · exact (degree_ofNat_lt hg.lt).trans_eq rfl
  · exact le_degree_of_ne_zero (by rw [coeff_ofNat, if_pos hg.top]; exact one_ne_zero)

theorem natDegree : (ofNat g).natDegree = w := natDegree_eq_of_degree_eq_some hg.degree

theorem monic : (ofNat g).Monic := by
  rw [Monic, leadingCoeff, hg.natDegree, coeff_ofNat, if_pos hg.top]

end Generator

/-! ### The division register -/

/-- The register `r` of `w` bits is shifted; if a bit leaves it, the generator is
    added. -/
def step (w g r : ℕ) : ℕ := if (2 * r).testBit w then 2 * r ^^^ g else 2 * r

include hg in
/-- A step stays in the register. -/
theorem step_lt (hr : r < 2 ^ w) : step w g r < 2 ^ w := by
  have hlt : 2 * r < 2 ^ (w + 1) := by rw [pow_succ]; omega
  refine Nat.lt_pow_two_of_testBit _ fun i hi => ?_
  rw [step]
  rcases Nat.eq_or_lt_of_le hi with rfl | hi
  · split_ifs with h
    · rw [Nat.testBit_xor, h, hg.top, Bool.xor_self]
    · simpa using h
  · have hpow : 2 ^ (w + 1) ≤ 2 ^ i := Nat.pow_le_pow_right two_pos hi
    have h₁ := Nat.testBit_lt_two_pow (hlt.trans_le hpow)
    have h₂ := Nat.testBit_lt_two_pow (hg.lt.trans_le hpow)
    split_ifs
    · rw [Nat.testBit_xor, h₁, h₂, Bool.xor_self]
    · exact h₁

include hg in
/-- So do any number of steps. -/
theorem iterate_step_lt (hr : r < 2 ^ w) (k : ℕ) : (step w g)^[k] r < 2 ^ w := by
  induction k generalizing r with
  | zero => exact hr
  | succ k ih =>
    rw [Function.iterate_succ_apply]
    exact ih (step_lt hg hr)

/-- The polynomials modulo `g`. -/
abbrev Residues (g : ℕ) := (ZMod 2)[X] ⧸ Ideal.span {ofNat g}

/-- What a polynomial is modulo `g`. -/
noncomputable abbrev residue (g : ℕ) : (ZMod 2)[X] →+* Residues g := Ideal.Quotient.mk _

/-- Two polynomials have one residue if and only if the generator divides their difference. -/
theorem residue_eq_iff {p q : (ZMod 2)[X]} : residue g p = residue g q ↔ ofNat g ∣ p - q := by
  rw [Ideal.Quotient.eq, Ideal.mem_span_singleton]

/-- The residue is zero exactly for the multiples of the generator. -/
theorem residue_eq_zero_iff {p : (ZMod 2)[X]} : residue g p = 0 ↔ ofNat g ∣ p := by
  rw [Ideal.Quotient.eq_zero_iff_mem, Ideal.mem_span_singleton]

/-- A step multiplies by `X`. -/
theorem residue_step (w g r : ℕ) :
    residue g (ofNat (step w g r)) = residue g X * residue g (ofNat r) := by
  have hzero : residue g (ofNat g) = 0 := residue_eq_zero_iff.2 dvd_rfl
  rw [step, ← map_mul, ← ofNat_two_mul]
  split_ifs
  · rw [ofNat_xor, map_add, hzero, add_zero]
  · rfl

/-- `k` steps multiply with `X ^ k`. -/
theorem residue_iterate_step (w g r k : ℕ) :
    residue g (ofNat ((step w g)^[k] r)) = residue g X ^ k * residue g (ofNat r) := by
  induction k with
  | zero => rw [Function.iterate_zero_apply, pow_zero, one_mul]
  | succ k ih => rw [Function.iterate_succ_apply', residue_step, ih, pow_succ', mul_assoc]

include hg in
/-- Polynomials of `w` bits are different modulo a generator of the degree `w`. -/
theorem eq_of_residue_eq (hr : r < 2 ^ w) (hs : s < 2 ^ w)
    (h : residue g (ofNat r) = residue g (ofNat s)) : r = s := by
  rw [residue_eq_iff] at h
  refine ofNat_injective (sub_eq_zero.1 (eq_zero_of_dvd_of_degree_lt h ?_))
  rw [hg.degree]
  exact (degree_sub_le _ _).trans_lt (max_lt (degree_ofNat_lt hr) (degree_ofNat_lt hs))

include hg in
/-- The remainder is the polynomial of `w` bits that is the same modulo the generator. -/
theorem ofNat_eq_modByMonic {p : (ZMod 2)[X]} (hr : r < 2 ^ w)
    (h : residue g (ofNat r) = residue g p) : ofNat r = p %ₘ ofNat g := by
  obtain ⟨q, hq⟩ := residue_eq_iff.1 h.symm
  refine (div_modByMonic_unique q (ofNat r) hg.monic ⟨?_, ?_⟩).2.symm
  · rw [← hq, add_sub_cancel]
  · rw [hg.degree]
    exact degree_ofNat_lt hr

/-! ### Products -/

/-- The product of two polynomials of `w` bits modulo `g`, one bit of `a` after the
    other. -/
def mulMod (w g a b : ℕ) : ℕ :=
  (natBits w a).foldl (fun r bit => step w g r ^^^ if bit then b else 0) 0

/-- `mulMod` is the product of the residues. -/
theorem residue_mulMod {a : ℕ} (ha : a < 2 ^ w) (b : ℕ) :
    residue g (ofNat (mulMod w g a b)) = residue g (ofNat a) * residue g (ofNat b) := by
  have hfold (l : List Bool) :
      residue g (ofNat (l.foldl (fun r bit => step w g r ^^^ if bit then b else 0) 0)) =
        residue g (ofNat (natOf l)) * residue g (ofNat b) := by
    induction l using List.reverseRecOn with
    | nil => rw [List.foldl_nil, natOf_nil, ofNat_zero, map_zero, zero_mul]
    | append_singleton l bit ih =>
      rw [List.foldl_append, List.foldl_cons, List.foldl_nil, ofNat_xor, map_add, residue_step, ih,
        ofNat_natOf_append, List.length_singleton, map_add, map_mul, map_pow]
      cases bit <;> simp [natOf] <;> ring
  rw [mulMod, hfold, natOf_natBits, Nat.mod_eq_of_lt ha]

include hg in
theorem mulMod_lt {b : ℕ} (hb : b < 2 ^ w) (a : ℕ) : mulMod w g a b < 2 ^ w := by
  have hfold (l : List Bool) :
      l.foldl (fun r bit => step w g r ^^^ if bit then b else 0) 0 < 2 ^ w := by
    induction l using List.reverseRecOn with
    | nil => exact Nat.two_pow_pos w
    | append_singleton l bit ih =>
      rw [List.foldl_append]
      refine Nat.xor_lt_two_pow (step_lt hg ih) ?_
      split_ifs
      exacts [hb, Nat.two_pow_pos w]
  exact hfold _

include hg in
/-- Squaring again and again. -/
theorem residue_iterate_square (hr : r < 2 ^ w) (k : ℕ) :
    residue g (ofNat ((fun v => mulMod w g v v)^[k] r)) = residue g (ofNat r) ^ 2 ^ k := by
  induction k generalizing r with
  | zero => rw [Function.iterate_zero_apply, pow_zero, pow_one]
  | succ k ih =>
    rw [Function.iterate_succ_apply, ih (mulMod_lt hg hr r), residue_mulMod hr, ← sq, ← pow_mul,
      pow_succ']

end Register

/-! ### Patterns of errors -/

section Patterns

variable {w g : ℕ} {l : List Bool}

/-- At one, the polynomial of a list of bits is their parity. -/
theorem eval_one_ofNat_natOf (l : List Bool) :
    (ofNat (natOf l)).eval 1 = (l.count true : ZMod 2) := by
  induction l with
  | nil => simp
  | cons b l ih =>
    rw [natOf_cons, ofNat_mul_add _ (natOf_lt l), eval_add, eval_mul, eval_pow, eval_X, one_pow,
      mul_one, ih]
    cases b
    · simp
    · simp [add_comm]

/-- The multiples of a generator with an even number of ones have an even number
    of ones. -/
theorem even_count_of_dvd (hlt : g < 2 ^ w) (hg : Even ((natBits w g).count true))
    (h : ofNat g ∣ ofNat (natOf l)) : Even (l.count true) := by
  have hzero : (ofNat g).eval 1 = 0 := by
    rw [← Nat.mod_eq_of_lt hlt, ← natOf_natBits, eval_one_ofNat_natOf]
    exact ZMod.natCast_eq_zero_iff_even.2 hg
  obtain ⟨q, hq⟩ := h
  rw [← ZMod.natCast_eq_zero_iff_even, ← eval_one_ofNat_natOf, hq, eval_mul, hzero, zero_mul]

/-- A generator that is odd does not divide a power of `X`. -/
theorem dvd_of_dvd_mul_X_pow (hodd : g.testBit 0 = true) {p : (ZMod 2)[X]} {k : ℕ}
    (h : ofNat g ∣ p * X ^ k) : ofNat g ∣ p := by
  obtain ⟨q, hq⟩ : X ∣ ofNat g - 1 := by
    rw [X_dvd_iff, coeff_sub, coeff_ofNat, if_pos hodd, coeff_one_zero, sub_self]
  have hcoprime : IsCoprime (ofNat g) X := ⟨1, -q, by rw [eq_add_of_sub_eq hq]; ring⟩
  exact hcoprime.pow_right.dvd_of_dvd_mul_right h

/-- A power of `X` that is `X` again, modulo an odd generator. -/
theorem pow_eq_one_of_pow_succ_eq (hodd : g.testBit 0 = true) {k : ℕ}
    (h : residue g X ^ (k + 1) = residue g X) : residue g X ^ k = 1 := by
  rw [← map_pow, residue_eq_iff, pow_succ] at h
  have hdvd : ofNat g ∣ X ^ k - 1 := by
    refine dvd_of_dvd_mul_X_pow (k := 1) hodd ?_
    rwa [pow_one, sub_mul, one_mul]
  rw [← map_pow, ← map_one (residue g), residue_eq_iff]
  exact hdvd

theorem natOf_replicate_false (k : ℕ) : natOf (.replicate k false) = 0 := by
  induction k with
  | zero => rfl
  | succ k ih => rw [List.replicate_succ, natOf_cons, ih, Bool.toNat_false, Nat.zero_mul]

/-- A burst of errors that is no longer than the register is not a multiple. -/
theorem not_mem_of_dvd_burst (hg : Generator w g) (hodd : g.testBit 0 = true) {burst : List Bool}
    (hlen : burst.length ≤ w) {a b : ℕ}
    (h : ofNat g ∣ ofNat (natOf (.replicate a false ++ burst ++ .replicate b false))) :
    true ∉ burst := by
  rw [ofNat_natOf_append, ofNat_natOf_append, natOf_replicate_false, natOf_replicate_false,
    ofNat_zero, zero_mul, zero_add, add_zero] at h
  have hdvd := dvd_of_dvd_mul_X_pow hodd h
  have hlt : natOf burst < 2 ^ w := (natOf_lt burst).trans_le (Nat.pow_le_pow_right two_pos hlen)
  have hzero : ofNat (natOf burst) = 0 :=
    eq_zero_of_dvd_of_degree_lt hdvd ((degree_ofNat_lt hlt).trans_eq hg.degree.symm)
  have hnat : natOf burst = natOf (.replicate burst.length false) := by
    rw [natOf_replicate_false]
    exact ofNat_injective (hzero.trans ofNat_zero.symm)
  rw [natOf_inj (by rw [List.length_replicate]) hnat]
  exact fun hmem => Bool.noConfusion (List.eq_of_mem_replicate hmem)

/-- A single one among zeros. -/
theorem exists_natOf_eq_two_pow (h : l.count true = 1) :
    ∃ i < l.length, natOf l = 2 ^ i := by
  induction l with
  | nil => exact absurd h (by decide)
  | cons b l ih =>
    rw [natOf_cons]
    cases b
    · obtain ⟨i, hi, heq⟩ := ih (by simpa using h)
      exact ⟨i, by rw [List.length_cons]; omega, by rw [heq]; simp⟩
    · refine ⟨l.length, by rw [List.length_cons]; omega, ?_⟩
      have hnone : true ∉ l := List.count_eq_zero.1 (by simpa using h)
      have hall : l = .replicate l.length false :=
        List.eq_replicate_iff.2 ⟨rfl, fun b hb => by cases b <;> simp_all⟩
      have hzero : natOf l = 0 := by rw [hall, natOf_replicate_false]
      rw [hzero, Bool.toNat_true, Nat.one_mul, Nat.add_zero]

/-- Two errors are a multiple only if a power of `X` less than their number of
    places is one modulo the generator. -/
theorem pow_eq_one_of_dvd_two (hodd : g.testBit 0 = true) (hcount : l.count true = 2)
    (h : ofNat g ∣ ofNat (natOf l)) : ∃ d, 0 < d ∧ d < l.length ∧ residue g X ^ d = 1 := by
  induction l with
  | nil => exact absurd hcount (by decide)
  | cons b l ih =>
    rw [natOf_cons] at h
    cases b
    · rw [Bool.toNat_false, Nat.zero_mul, Nat.zero_add] at h
      obtain ⟨d, hpos, hlt, hd⟩ := ih (by simpa using hcount) h
      exact ⟨d, hpos, by rw [List.length_cons]; omega, hd⟩
    · -- The other error is behind the first: the two are `X ^ d + 1`, shifted.
      obtain ⟨i, hi, heq⟩ := exists_natOf_eq_two_pow (l := l) (by simpa using hcount)
      have hpow (k : ℕ) : ofNat (2 ^ k) = X ^ k := by
        have := ofNat_mul_two_pow 1 k
        rwa [one_mul, ofNat_one, one_mul] at this
      have hsplit : (X : (ZMod 2)[X]) ^ l.length + X ^ i = (X ^ (l.length - i) + 1) * X ^ i := by
        rw [add_mul, one_mul, ← pow_add, Nat.sub_add_cancel hi.le]
      rw [ofNat_mul_add _ (natOf_lt l), heq, hpow, Bool.toNat_true, ofNat_one, one_mul, hsplit] at h
      refine ⟨l.length - i, by omega, by rw [List.length_cons]; omega, ?_⟩
      have hdvd := dvd_of_dvd_mul_X_pow hodd h
      rw [← CharTwo.sub_eq_add, ← residue_eq_iff, map_pow, map_one] at hdvd
      exact hdvd

/-- The order of an element that divides `q * p`, but not `q`, is at least the prime `p`. -/
theorem pow_ne_one_of_lt {M : Type*} [Monoid M] {x : M} {p q d : ℕ} (hp : p.Prime)
    (hpow : x ^ (q * p) = 1) (hq : x ^ q ≠ 1) (hpos : 0 < d) (hlt : d < p) : x ^ d ≠ 1 := by
  intro hd
  have hcoprime : (orderOf x).Coprime p :=
    ((Nat.coprime_of_lt_prime hpos.ne' hlt hp).symm.coprime_dvd_left (orderOf_dvd_of_pow_eq_one hd))
  exact hq (orderOf_dvd_iff_pow_eq_one.1
    (hcoprime.dvd_of_dvd_mul_right (orderOf_dvd_of_pow_eq_one hpow)))

end Patterns

end RtcmBridge.Gf2

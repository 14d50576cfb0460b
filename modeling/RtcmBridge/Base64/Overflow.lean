import RtcmBridge.Base64.Standard

/-!
# Undefined behaviour of the Base64 encoder

`base64_encode` again, with `none` where C++17 leaves the behaviour undefined: a
shift to the left is defined on an `int` that is not negative if the product is
representable as an `unsigned int` (and is converted to `int` then), and a sum if
it is an `int`. The accumulator is never cut back: while nothing is undefined it
is the number that the bytes so far stand for (`numberFrom`), which has to be less
than 2 ^ 24 for another shift.
-/

namespace RtcmBridge

namespace base64Encode

/-- `val << 8`, where it is defined. -/
def definedShift (val : Int32) : Option Int32 :=
  if 0 ≤ val.toInt ∧ val.toInt * 2 ^ 8 < 2 ^ 32 then some (val <<< 8) else none

/-- A sum, where it is defined. -/
def definedAdd (a b : Int32) : Option Int32 :=
  if -2 ^ 31 ≤ a.toInt + b.toInt ∧ a.toInt + b.toInt < 2 ^ 31 then some (a + b) else none

/-- The outer loop, where it is defined. -/
def definedLoop : Bytes → Int32 → ℤ → Bytes → Option (Int32 × ℤ × Bytes)
  | [], val, valb, out => some (val, valb, out)
  | c :: cs, val, valb, out => do
    let shifted ← definedShift val
    let val ← definedAdd shifted (Int32.ofNat c.toNat)
    let (valb, out) := emit val (valb + 8) out
    definedLoop cs val valb out

end base64Encode

open base64Encode in
/-- `base64_encode`, where it is defined. -/
def definedBase64Encode (s : Bytes) : Option Bytes := do
  let (val, valb, out) ← definedLoop s 0 (-6) []
  if valb > -6 then
    let shifted ← definedShift val
    some (pad (out ++ [digit (shifted >>> .ofInt (valb + 8))]))
  else some (pad out)

namespace base64Encode

/-- The number that bytes behind `v` stand for. -/
def numberFrom (v : ℕ) (s : Bytes) : ℕ := s.foldl (fun v c => v * 2 ^ 8 + c.toNat) v

variable {val : Int32} {valb : ℤ} {out s : Bytes} {v : ℕ} {c : UInt8}

/-! ### Numbers -/

theorem numberFrom_cons (v : ℕ) (c : UInt8) (s : Bytes) :
    numberFrom v (c :: s) = numberFrom (v * 2 ^ 8 + c.toNat) s := rfl

/-- The value before the string is moved up by its bytes. -/
theorem numberFrom_eq (v : ℕ) (s : Bytes) :
    numberFrom v s = v * 2 ^ (8 * s.length) + numberFrom 0 s := by
  induction s generalizing v with
  | nil => simp [numberFrom]
  | cons c s ih =>
    rw [numberFrom_cons, numberFrom_cons, ih, ih (0 * 2 ^ 8 + c.toNat), List.length_cons,
      Nat.mul_succ, pow_add]
    ring

/-- The number only grows. -/
theorem le_numberFrom (v : ℕ) (s : Bytes) : v ≤ numberFrom v s := by
  rw [numberFrom_eq]
  exact (Nat.le_mul_of_pos_right v (by positivity)).trans (Nat.le_add_right _ _)

theorem numberFrom_concat (v : ℕ) (s : Bytes) (c : UInt8) :
    numberFrom v (s ++ [c]) = numberFrom v s * 2 ^ 8 + c.toNat := by
  rw [numberFrom, List.foldl_append]
  rfl

/-- A number has as many bytes as are left without leading zeros. -/
theorem numberFrom_lt_iff (s : Bytes) (k : ℕ) :
    numberFrom 0 s < 2 ^ (8 * k) ↔ (s.dropWhile (· = 0)).length ≤ k := by
  have hlt (s : Bytes) : numberFrom 0 s < 2 ^ (8 * s.length) := by
    induction s using List.reverseRecOn with
    | nil => exact Nat.one_pos
    | append_singleton s c ih =>
      have := c.toNat_lt
      rw [numberFrom_concat, List.length_append, List.length_singleton, Nat.mul_succ, pow_add]
      omega
  induction s with
  | nil => simp [numberFrom]
  | cons c s ih =>
    by_cases hc : c = 0
    · -- A leading zero does not count.
      subst hc
      exact ih
    · -- The first byte is not zero, so the number has exactly so many bytes.
      have hpos : 0 < c.toNat := Nat.pos_of_ne_zero fun h => hc (UInt8.toNat_inj.1 h)
      rw [List.dropWhile_cons, if_neg (by simpa using hc)]
      constructor
      · intro h
        by_contra hk
        have hle : 2 ^ (8 * k) ≤ 2 ^ (8 * s.length) := by
          refine Nat.pow_le_pow_right two_pos (Nat.mul_le_mul_left 8 ?_)
          rw [List.length_cons] at hk
          omega
        have hge : 2 ^ (8 * s.length) ≤ numberFrom 0 (c :: s) := by
          rw [numberFrom_cons, Nat.zero_mul, Nat.zero_add, numberFrom_eq]
          exact (Nat.le_mul_of_pos_left _ hpos).trans (Nat.le_add_right _ _)
        exact absurd (hle.trans hge) (Nat.not_le.2 h)
      · intro h
        exact (hlt _).trans_le (Nat.pow_le_pow_right two_pos (Nat.mul_le_mul_left 8 h))

/-! ### Steps -/

/-- The shift is undefined for a negative value, or one that does not fit. -/
theorem definedShift_eq_none_iff :
    definedShift val = none ↔ ¬(0 ≤ val.toInt ∧ val.toInt < 2 ^ 24) := by
  rw [definedShift]
  split_ifs with h
  · exact iff_of_false (by simp) (by omega)
  · exact iff_of_true rfl (by omega)

theorem definedShift_of_ne_none (h : definedShift val ≠ none) :
    definedShift val = some (val <<< 8) := by
  rw [definedShift] at h ⊢
  split_ifs at h ⊢
  · rfl
  · exact absurd rfl h

/-- A small accumulator takes another byte. -/
theorem definedLoop_cons (hval : val.toInt = v) (hv : v < 2 ^ 24) (c : UInt8) (cs : Bytes)
    (valb : ℤ) (out : Bytes) :
    definedLoop (c :: cs) val valb out =
      definedLoop cs (shiftIn val c) (emit (shiftIn val c) (valb + 8) out).1
        (emit (shiftIn val c) (valb + 8) out).2 := by
  have hc := c.toNat_lt
  have hadd : definedAdd (val <<< 8) (Int32.ofNat c.toNat) = some (shiftIn val c) := by
    rw [definedAdd, toInt_shiftLeft_eight, toInt_ofNat_byte, hval, if_pos]
    · rfl
    · rw [Int.bmod_def]
      split_ifs <;> omega
  rw [definedLoop, definedShift, if_pos (by omega)]
  simp only [Option.bind_eq_bind, Option.bind_some, hadd]

/-- It is small again, and the number of the bytes, or else there is no other shift. -/
theorem toInt_shiftIn (hval : val.toInt = v) (hv : v < 2 ^ 24) (c : UInt8) :
    (v * 2 ^ 8 + c.toNat < 2 ^ 24 → (shiftIn val c).toInt = (v * 2 ^ 8 + c.toNat : ℕ)) ∧
      (2 ^ 24 ≤ v * 2 ^ 8 + c.toNat → definedShift (shiftIn val c) = none) := by
  have hc := c.toNat_lt
  have hmod := shiftIn_emod val c
  have hlo := Int32.le_toInt (shiftIn val c)
  have hhi := Int32.toInt_lt (shiftIn val c)
  rw [hval] at hmod
  rw [definedShift_eq_none_iff]
  omega

/-! ### The whole loop -/

/-- The loop is defined if the bytes but the last one stand for a small number. -/
theorem definedLoop_eq (hval : val.toInt = v) (hv : v < 2 ^ 24) (s : Bytes) (valb : ℤ)
    (out : Bytes) :
    definedLoop s val valb out =
      if s = [] ∨ numberFrom v s.dropLast < 2 ^ 24 then some (loop s val valb out) else none := by
  induction s generalizing val v valb out with
  | nil => rw [if_pos (.inl rfl)]; rfl
  | cons c cs ih =>
    obtain ⟨hsmall, hlarge⟩ := toInt_shiftIn hval hv c
    rw [definedLoop_cons hval hv]
    rcases cs with _ | ⟨d, ds⟩
    · rw [if_pos (.inr hv)]
      rfl
    · rw [List.dropLast_cons_cons, numberFrom_cons]
      by_cases hnext : v * 2 ^ 8 + c.toNat < 2 ^ 24
      · rw [ih (hsmall hnext) hnext]
        simp only [List.cons_ne_nil, false_or]
        rfl
      · have hle := le_numberFrom (v * 2 ^ 8 + c.toNat) (d :: ds).dropLast
        have hcond : ¬(c :: d :: ds = [] ∨
            numberFrom (v * 2 ^ 8 + c.toNat) (d :: ds).dropLast < 2 ^ 24) := by
          rw [not_or]
          exact ⟨List.cons_ne_nil _ _, by omega⟩
        rw [definedLoop, hlarge (by omega), if_neg hcond]
        rfl

/-- The loop over two strings is that over the second after that over the first. -/
theorem definedLoop_append (s m : Bytes) (val : Int32) (valb : ℤ) (out : Bytes) :
    definedLoop (s ++ m) val valb out =
      (definedLoop s val valb out).bind fun r => definedLoop m r.1 r.2.1 r.2.2 := by
  induction s generalizing val valb out with
  | nil => rfl
  | cons c s ih =>
    simp only [List.cons_append, definedLoop, Option.bind_eq_bind, ih, Option.bind_assoc]

/-- The last shift is defined if all the bytes stand for a small number: it is that
    of one more byte. -/
theorem definedShift_loop (s : Bytes) {r : Int32 × ℤ × Bytes}
    (hr : definedLoop s 0 (-6) [] = some r) :
    definedShift r.1 = none ↔ ¬numberFrom 0 s < 2 ^ 24 := by
  have happend := definedLoop_append s [0] 0 (-6) []
  rw [hr, Option.bind_some, definedLoop_eq (v := 0) rfl (by decide), List.dropLast_concat]
    at happend
  constructor
  · intro h hlt
    rw [if_pos (.inr hlt), definedLoop, h] at happend
    exact Option.some_ne_none _ happend
  · intro hlt
    have hcond : ¬(s ++ [0] = [] ∨ numberFrom 0 s < 2 ^ 24) := by
      rw [not_or]
      exact ⟨by simp, hlt⟩
    rw [if_neg hcond] at happend
    by_contra h
    have hsmall := not_not.1 (mt definedShift_eq_none_iff.2 h)
    rw [definedLoop_cons (v := r.1.toInt.toNat) (by omega) (by omega)] at happend
    exact Option.some_ne_none _ happend.symm

/-- There are bits left if the bytes do not come in groups of three. -/
theorem valb_loop (s : Bytes) (val : Int32) (out : Bytes) :
    (loop s val (-6) out).2.1 > -6 ↔ s.length % 3 ≠ 0 := by
  induction s using Rfc4648.encode.induct generalizing val out with
  | case1 => simp [loop]
  | case2 a =>
    rw [loop_first, loop]
    simp
  | case3 a b =>
    rw [loop_first, loop_second, loop]
    simp
  | case4 a b c s ih =>
    rw [loop_first, loop_second, loop_third, ih]
    simp only [List.length_cons]
    omega

/-- The bytes but the last one stand for a number that is smaller by one byte. -/
theorem numberFrom_dropLast_lt_iff (s : Bytes) :
    s = [] ∨ numberFrom 0 s.dropLast < 2 ^ 24 ↔ numberFrom 0 s < 2 ^ 32 := by
  rcases s.eq_nil_or_concat' with rfl | ⟨l, c, rfl⟩
  · simp [numberFrom]
  · have hc := c.toNat_lt
    have hne : l ++ [c] ≠ [] := by simp
    rw [or_iff_right hne, List.dropLast_concat, numberFrom_concat]
    omega

end base64Encode

open base64Encode

/-- Where `base64_encode` is defined, by the number that its bytes stand for. -/
theorem definedBase64Encode_eq (s : Bytes) :
    definedBase64Encode s =
      if numberFrom 0 s < 2 ^ 32 ∧ (s.length % 3 ≠ 0 → numberFrom 0 s < 2 ^ 24) then
        some (base64Encode s) else none := by
  have hloop := definedLoop_eq (show (0 : Int32).toInt = (0 : ℕ) from rfl) (by decide) s (-6) []
  rw [if_congr (numberFrom_dropLast_lt_iff s) rfl rfl] at hloop
  rw [definedBase64Encode]
  by_cases hnumber : numberFrom 0 s < 2 ^ 32
  · rw [if_pos hnumber] at hloop
    have hshift := definedShift_loop s hloop
    have hvalb := valb_loop s 0 []
    rw [base64Encode]
    set r := loop s 0 (-6) [] with hr
    simp only [hloop, Option.bind_eq_bind, Option.bind_some]
    -- Bits are left over exactly if the bytes are no whole groups.
    by_cases hgroups : r.2.1 > -6
    · rw [if_pos hgroups, if_pos hgroups]
      by_cases hsmall : numberFrom 0 s < 2 ^ 24
      · rw [if_pos ⟨hnumber, fun _ => hsmall⟩,
          definedShift_of_ne_none (mt hshift.1 (not_not.2 hsmall))]
        rfl
      · rw [if_neg fun h => hsmall (h.2 (hvalb.1 hgroups)), hshift.2 hsmall]
        rfl
    · rw [if_neg hgroups, if_neg hgroups, if_pos ⟨hnumber, fun h => absurd (hvalb.2 h) hgroups⟩]
  · rw [if_neg hnumber] at hloop
    rw [hloop, if_neg fun h => hnumber h.1]
    rfl

/-- **`base64_encode` overflows but for short strings.** Its behaviour is defined if
    and only if the string has at most three bytes behind its leading zero bytes, or
    four and a length that is a multiple of three. -/
theorem base64Encode_defined_iff (s : Bytes) :
    (∃ out, definedBase64Encode s = some out) ↔
      (s.dropWhile (· = 0)).length ≤ 3 ∨
        (s.dropWhile (· = 0)).length = 4 ∧ s.length % 3 = 0 := by
  have hthree := numberFrom_lt_iff s 3
  have hfour := numberFrom_lt_iff s 4
  rw [definedBase64Encode_eq]
  split_ifs with h
  · exact iff_of_true ⟨_, rfl⟩ (by omega)
  · exact iff_of_false (by simp) (by omega)

/-- The fifth byte of a user name makes the first shift that is undefined. -/
theorem definedBase64Encode_credentials : definedBase64Encode (ascii "user:pass") = none := rfl

end RtcmBridge

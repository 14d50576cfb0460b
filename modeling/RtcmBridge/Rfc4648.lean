import RtcmBridge.Bytes

/-!
# Base64

The encoding of RFC 4648: three bytes are four groups of six bits, and a group is
a character of the alphabet. One or two bytes at the end are filled up with zero
bits to whole groups, and the text with `=` to four characters.

`decode_encode_eq`: what is encoded can be decoded again.
-/

namespace RtcmBridge.Rfc4648

/-- The character of a group: the letters, the digits, `+` and `/`. -/
def char (v : ℕ) : UInt8 :=
  if v < 26 then .ofNat (v + 65)
  else if v < 52 then .ofNat (v + 71)
  else if v < 62 then .ofNat (v - 4)
  else if v = 62 then 43 else 47

/-- The group of a character. -/
def group (c : UInt8) : Option ℕ :=
  let v := c.toNat
  if 65 ≤ v ∧ v ≤ 90 then some (v - 65)
  else if 97 ≤ v ∧ v ≤ 122 then some (v - 71)
  else if 48 ≤ v ∧ v ≤ 57 then some (v + 4)
  else if v = 43 then some 62 else if v = 47 then some 63 else none

/-- The encoding, from group to group. -/
def encode : Bytes → Bytes
  | [] => []
  | [a] =>
    let n := a.toNat * 2 ^ 4
    [char (n / 2 ^ 6), char (n % 2 ^ 6), 61, 61]
  | [a, b] =>
    let n := (a.toNat * 2 ^ 8 + b.toNat) * 2 ^ 2
    [char (n / 2 ^ 12), char (n / 2 ^ 6 % 2 ^ 6), char (n % 2 ^ 6), 61]
  | a :: b :: c :: s =>
    let n := (a.toNat * 2 ^ 8 + b.toNat) * 2 ^ 8 + c.toNat
    char (n / 2 ^ 18) :: char (n / 2 ^ 12 % 2 ^ 6) :: char (n / 2 ^ 6 % 2 ^ 6) ::
      char (n % 2 ^ 6) :: encode s

/-- The bytes of a text, if it is an encoding. -/
def decode : Bytes → Option Bytes
  | [] => some []
  | w :: x :: y :: z :: s => do
    let w ← group w
    let x ← group x
    if y = 61 ∧ z = 61 ∧ s = [] then
      let n := w * 2 ^ 6 + x
      if n % 2 ^ 4 = 0 then some [.ofNat (n / 2 ^ 4)] else none
    else
      let y ← group y
      if z = 61 ∧ s = [] then
        let n := (w * 2 ^ 6 + x) * 2 ^ 6 + y
        if n % 2 ^ 2 = 0 then some [.ofNat (n / 2 ^ 10), .ofNat (n / 2 ^ 2)] else none
      else
        let z ← group z
        let n := ((w * 2 ^ 6 + x) * 2 ^ 6 + y) * 2 ^ 6 + z
        let rest ← decode s
        some (.ofNat (n / 2 ^ 16) :: .ofNat (n / 2 ^ 8) :: .ofNat n :: rest)
  | _ => none

variable {v : ℕ}

/-- A character of the alphabet is decoded to its value. -/
theorem group_char (h : v < 64) : group (char v) = some v := by
  interval_cases v <;> rfl

/-- The padding is not in the alphabet. -/
theorem char_ne_pad (h : v < 64) : char v ≠ 61 := by
  interval_cases v <;> decide

theorem ofNat_of_mod {n : ℕ} {b : UInt8} (h : n % 2 ^ 8 = b.toNat) : UInt8.ofNat n = b := by
  rw [← UInt8.toNat_inj, UInt8.toNat_ofNat', h]

/-- What is encoded can be decoded again. -/
theorem decode_encode_eq (s : Bytes) : decode (encode s) = some s := by
  induction s using encode.induct with
  | case1 => rfl
  | case2 a =>
    have ha := a.toNat_lt
    -- Two characters, of which four bits are zero.
    have hn : a.toNat * 2 ^ 4 / 2 ^ 6 * 2 ^ 6 + a.toNat * 2 ^ 4 % 2 ^ 6 = a.toNat * 2 ^ 4 := by
      omega
    rw [encode, decode, group_char (by omega), group_char (by omega)]
    simp only [Option.bind_eq_bind, Option.bind_some, and_self, reduceIte, hn]
    rw [if_pos (by omega), ofNat_of_mod (b := a) (by omega)]
  | case3 a b =>
    have ha := a.toNat_lt
    have hb := b.toNat_lt
    -- Three characters, of which two bits are zero; the third is not the padding.
    set n := (a.toNat * 2 ^ 8 + b.toNat) * 2 ^ 2 with hdef
    have hn : (n / 2 ^ 12 * 2 ^ 6 + n / 2 ^ 6 % 2 ^ 6) * 2 ^ 6 + n % 2 ^ 6 = n := by omega
    have hthird := char_ne_pad (show n % 2 ^ 6 < 64 by omega)
    rw [encode, decode, group_char (by omega), group_char (by omega), group_char (by omega)]
    simp only [Option.bind_eq_bind, Option.bind_some, ← hdef, hthird, false_and, and_self,
      reduceIte, hn]
    rw [if_pos (by omega), ofNat_of_mod (b := a) (by omega), ofNat_of_mod (b := b) (by omega)]
  | case4 a b c s ih =>
    have ha := a.toNat_lt
    have hb := b.toNat_lt
    have hc := c.toNat_lt
    -- A whole group.
    set n := (a.toNat * 2 ^ 8 + b.toNat) * 2 ^ 8 + c.toNat with hdef
    have hn : ((n / 2 ^ 18 * 2 ^ 6 + n / 2 ^ 12 % 2 ^ 6) * 2 ^ 6 + n / 2 ^ 6 % 2 ^ 6) * 2 ^ 6 +
        n % 2 ^ 6 = n := by
      omega
    have hthird := char_ne_pad (show n / 2 ^ 6 % 2 ^ 6 < 64 by omega)
    have hfourth := char_ne_pad (show n % 2 ^ 6 < 64 by omega)
    rw [encode, decode, group_char (by omega), group_char (by omega), group_char (by omega),
      group_char (by omega), ih]
    simp only [Option.bind_eq_bind, Option.bind_some, ← hdef, hthird, hfourth, false_and, reduceIte,
      hn]
    rw [ofNat_of_mod (b := a) (by omega), ofNat_of_mod (b := b) (by omega),
      ofNat_of_mod (b := c) (by omega)]

end RtcmBridge.Rfc4648

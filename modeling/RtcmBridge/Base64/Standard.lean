import RtcmBridge.Base64
import RtcmBridge.MachineInt
import RtcmBridge.NtripConnection.Basic
import RtcmBridge.Rfc4648

/-!
# The Base64 encoder and the standard

The accumulator is never cut back, and wraps around. A character depends on the
low bits of it only, which are those of the last bytes: the invariant is what the
accumulator is modulo 2 ^ 32 after each byte (`shiftIn_emod`). Three bytes leave
the count of bits as it was, with four characters more.
-/

namespace RtcmBridge

namespace base64Encode

/-- The accumulator with one more byte. -/
def shiftIn (val : Int32) (c : UInt8) : Int32 := (val <<< 8) + Int32.ofNat c.toNat

variable {val : Int32} {out s : Bytes}

theorem toInt_ofNat_byte (c : UInt8) : (Int32.ofNat c.toNat).toInt = c.toNat :=
  Int32.toInt_ofNat_of_lt (c.toNat_lt.trans (by decide))

/-- Modulo the width of an `int`, a byte is shifted in without a loss. -/
theorem shiftIn_emod (val : Int32) (c : UInt8) :
    (shiftIn val c).toInt % 2 ^ 32 = (val.toInt * 2 ^ 8 + c.toNat) % 2 ^ 32 := by
  rw [shiftIn, Int32.toInt_add, toInt_shiftLeft_eight, toInt_ofNat_byte, Int.bmod_add_bmod]
  exact_mod_cast Int.bmod_emod

/-- The characters are those of the standard. -/
theorem b64_eq : b64 = (List.range 64).map Rfc4648.char := rfl

theorem digit_eq {v : ℕ} (hv : v < 64) (h : val.toInt % 64 = v) : digit val = Rfc4648.char v := by
  rw [digit, toInt_and_sixtyThree, h, Int.toNat_natCast, b64_eq, byteAt,
    List.getD_eq_getElem?_getD, List.getElem?_map, List.getElem?_range hv]
  rfl

/-- Six bits of the value, wherever they are, are written as their character. -/
theorem digit_shiftRight {v : ℕ} (k : ℕ) (hk : k < 32) (hv : v < 64)
    (h : val.toInt / 2 ^ k % 64 = v) : digit (val >>> .ofInt k) = Rfc4648.char v :=
  digit_eq hv (by rw [toInt_shiftRight val hk, h])

/-! ### The loops -/

theorem emit_of_neg {valb : ℤ} (h : valb < 0) (val : Int32) (out : Bytes) :
    emit val valb out = (valb, out) := by
  rw [emit, if_neg (by omega)]

/-- The first byte of three gives a character and two more bits. -/
theorem loop_first (c : UInt8) (cs : Bytes) (val : Int32) (out : Bytes) :
    loop (c :: cs) val (-6) out =
      loop cs (shiftIn val c) (-4) (out ++ [digit (shiftIn val c >>> .ofInt 2)]) := by
  rw [loop]
  simp only [Int.reduceAdd]
  rw [emit, if_pos (by decide), emit_of_neg (by decide)]
  rfl

/-- The second one gives a character and four more bits. -/
theorem loop_second (c : UInt8) (cs : Bytes) (val : Int32) (out : Bytes) :
    loop (c :: cs) val (-4) out =
      loop cs (shiftIn val c) (-2) (out ++ [digit (shiftIn val c >>> .ofInt 4)]) := by
  rw [loop]
  simp only [Int.reduceAdd]
  rw [emit, if_pos (by decide), emit_of_neg (by decide)]
  rfl

/-- The third one gives two characters, and no bits are left. -/
theorem loop_third (c : UInt8) (cs : Bytes) (val : Int32) (out : Bytes) :
    loop (c :: cs) val (-2) out =
      loop cs (shiftIn val c) (-6)
        (out ++ [digit (shiftIn val c >>> .ofInt 6), digit (shiftIn val c >>> .ofInt 0)]) := by
  rw [loop]
  simp only [Int.reduceAdd]
  rw [emit, if_pos (by decide), emit, if_pos (by decide), emit_of_neg (by decide),
    List.append_assoc]
  rfl

/-- The output is filled up to a multiple of four. -/
theorem pad_eq (out : Bytes) : pad out = out ++ List.replicate ((4 - out.length % 4) % 4) 61 := by
  induction out using pad.induct with
  | case1 out h ih =>
    have hlen : (4 - out.length % 4) % 4 = (4 - (out.length + 1) % 4) % 4 + 1 := by omega
    rw [pad, if_pos h, ih, List.append_assoc, List.length_append,
      show (ascii "=").length = 1 from rfl, hlen, List.replicate_succ]
    rfl
  | case2 out h =>
    have hzero : (4 - out.length % 4) % 4 = 0 := by omega
    rw [pad, if_neg h, hzero, List.replicate_zero, List.append_nil]

/-- What the last lines of `base64_encode` make of the state of the loop. -/
def finish (r : Int32 × ℤ × Bytes) : Bytes :=
  pad (if r.2.1 > -6 then r.2.2 ++ [digit ((r.1 <<< 8) >>> .ofInt (r.2.1 + 8))] else r.2.2)

/-- The bytes still to come are encoded behind the groups that are complete. -/
theorem finish_loop (s : Bytes) (val : Int32) (hout : out.length % 4 = 0) :
    finish (loop s val (-6) out) = out ++ Rfc4648.encode s := by
  induction s using Rfc4648.encode.induct generalizing val out with
  | case1 =>
    -- Nothing is left, and the output is already a multiple of four.
    rw [loop, finish, if_neg (lt_irrefl _), pad_eq, hout]
    rfl
  | case2 a =>
    have ha := a.toNat_lt
    -- One byte is left: two characters, the second of them filled up with four zeros.
    set v₁ := shiftIn val a
    have h₁ : v₁.toInt % 2 ^ 32 = (val.toInt * 2 ^ 8 + a.toNat) % 2 ^ 32 := shiftIn_emod val a
    set n := a.toNat * 2 ^ 4 with hn
    have hfirst : digit (v₁ >>> .ofInt 2) = Rfc4648.char (n / 2 ^ 6) :=
      digit_shiftRight 2 (by decide) (by omega) (by omega)
    have hsecond : digit ((v₁ <<< 8) >>> .ofInt 4) = Rfc4648.char (n % 2 ^ 6) := by
      refine digit_shiftRight 4 (by decide) (by omega) ?_
      rw [toInt_shiftLeft_eight, Int.bmod_def]
      split_ifs <;> omega
    have hpad (x y : UInt8) : (4 - (out ++ [x] ++ [y]).length % 4) % 4 = 2 := by
      simp only [List.length_append, List.length_singleton]
      omega
    rw [loop_first, loop, finish, if_pos (by decide : (-4 : ℤ) > -6), pad_eq, hpad, Rfc4648.encode,
      hfirst]
    simp only [Int.reduceAdd]
    rw [hsecond]
    simp [hn]
  | case3 a b =>
    have ha := a.toNat_lt
    have hb := b.toNat_lt
    -- Two bytes are left: three characters, the last of them filled up with two zeros.
    set v₁ := shiftIn val a
    set v₂ := shiftIn v₁ b
    have h₁ : v₁.toInt % 2 ^ 32 = (val.toInt * 2 ^ 8 + a.toNat) % 2 ^ 32 := shiftIn_emod val a
    have h₂ : v₂.toInt % 2 ^ 32 = (v₁.toInt * 2 ^ 8 + b.toNat) % 2 ^ 32 := shiftIn_emod v₁ b
    set n := (a.toNat * 2 ^ 8 + b.toNat) * 2 ^ 2 with hn
    have hfirst : digit (v₁ >>> .ofInt 2) = Rfc4648.char (n / 2 ^ 12) :=
      digit_shiftRight 2 (by decide) (by omega) (by omega)
    have hsecond : digit (v₂ >>> .ofInt 4) = Rfc4648.char (n / 2 ^ 6 % 2 ^ 6) :=
      digit_shiftRight 4 (by decide) (by omega) (by omega)
    have hthird : digit ((v₂ <<< 8) >>> .ofInt 6) = Rfc4648.char (n % 2 ^ 6) := by
      refine digit_shiftRight 6 (by decide) (by omega) ?_
      rw [toInt_shiftLeft_eight, Int.bmod_def]
      split_ifs <;> omega
    have hpad (x y z : UInt8) : (4 - (out ++ [x] ++ [y] ++ [z]).length % 4) % 4 = 1 := by
      simp only [List.length_append, List.length_singleton]
      omega
    rw [loop_first, loop_second, loop, finish, if_pos (by decide : (-2 : ℤ) > -6), pad_eq, hpad,
      Rfc4648.encode, hfirst, hsecond]
    simp only [Int.reduceAdd]
    rw [hthird]
    simp [hn]
  | case4 a b c s ih =>
    have ha := a.toNat_lt
    have hb := b.toNat_lt
    have hc := c.toNat_lt
    -- A group of three bytes: four characters, and the count of bits is where it was.
    set v₁ := shiftIn val a
    set v₂ := shiftIn v₁ b
    set v₃ := shiftIn v₂ c
    have h₁ : v₁.toInt % 2 ^ 32 = (val.toInt * 2 ^ 8 + a.toNat) % 2 ^ 32 := shiftIn_emod val a
    have h₂ : v₂.toInt % 2 ^ 32 = (v₁.toInt * 2 ^ 8 + b.toNat) % 2 ^ 32 := shiftIn_emod v₁ b
    have h₃ : v₃.toInt % 2 ^ 32 = (v₂.toInt * 2 ^ 8 + c.toNat) % 2 ^ 32 := shiftIn_emod v₂ c
    set n := (a.toNat * 2 ^ 8 + b.toNat) * 2 ^ 8 + c.toNat with hn
    have hfirst : digit (v₁ >>> .ofInt 2) = Rfc4648.char (n / 2 ^ 18) :=
      digit_shiftRight 2 (by decide) (by omega) (by omega)
    have hsecond : digit (v₂ >>> .ofInt 4) = Rfc4648.char (n / 2 ^ 12 % 2 ^ 6) :=
      digit_shiftRight 4 (by decide) (by omega) (by omega)
    have hthird : digit (v₃ >>> .ofInt 6) = Rfc4648.char (n / 2 ^ 6 % 2 ^ 6) :=
      digit_shiftRight 6 (by decide) (by omega) (by omega)
    have hfourth : digit (v₃ >>> .ofInt 0) = Rfc4648.char (n % 2 ^ 6) :=
      digit_shiftRight 0 (by decide) (by omega) (by omega)
    rw [loop_first, loop_second, loop_third, ih _ (by simp; omega), Rfc4648.encode, hfirst, hsecond,
      hthird, hfourth]
    simp [hn]

end base64Encode

open base64Encode

/-- The encoder of the code is that of the standard, for every string. -/
theorem base64Encode_eq (s : Bytes) : base64Encode s = Rfc4648.encode s :=
  finish_loop s 0 rfl

/-- **`base64_encode` is Base64.** It gives the encoding of the standard, from which
    a decoder recovers the bytes, and the one that the bridges use, where
    `EVP_EncodeBlock` gives that of the standard. -/
theorem base64Encode_standard (s : Bytes) :
    base64Encode s = Rfc4648.encode s ∧ Rfc4648.decode (base64Encode s) = some s ∧
      ∀ evpEncodeBlock : Bytes → Option Bytes,
        (s ≠ [] → evpEncodeBlock s = some (Rfc4648.encode s)) →
          base64 evpEncodeBlock s = base64Encode s := by
  refine ⟨base64Encode_eq s, ?_, fun evpEncodeBlock hevp => ?_⟩
  · rw [base64Encode_eq, Rfc4648.decode_encode_eq]
  · rw [base64, base64Encode_eq]
    split_ifs with hs
    · rw [hs]
      rfl
    · rw [hevp hs]
      rfl

theorem base64Encode_standard_credentials :
    base64 (fun s => some (Rfc4648.encode s)) (ascii "user:pass") =
      base64Encode (ascii "user:pass") :=
  (base64Encode_standard (ascii "user:pass")).2.2 _ fun _ => rfl

end RtcmBridge

import RtcmBridge.Bits
import RtcmBridge.Bytes
import RtcmBridge.MachineInt
import Mathlib.Tactic

/-!
# The bit reader

The class `BitReader` of the two decoders: a cursor in a buffer that reads its
bits, the most significant one of each byte first. `getU`, `getS` and `skip`
return `none` where the code returns `false`.

* `BitReader.At`: the reader stands before some bits, the last ones of the buffer;
* `Reads`: a reading takes just some bits, whatever follows, and returns a value.
  Readings are put together from `Reads.pure`, `Reads.bind` and `Reads.mapM`.
-/

namespace RtcmBridge

/-- Why a decoding stops before its end: it reports an error, or its behaviour
    is undefined (an access outside of an array, a shift by the whole width). -/
inductive Stop
  | undefined
  | report (text : String)
  deriving DecidableEq

/-- The element `i` of an array. -/
def fetch {α : Type*} (l : List α) (i : ℕ) : Except Stop α :=
  match l[i]? with
  | some a => .ok a
  | none => .error .undefined

/-- The members of a `BitReader`. -/
structure BitReader where
  data : Bytes
  totalBits : UInt64
  bitpos : UInt64
  deriving DecidableEq

/-- The bits of a field as a `uint64_t`. -/
def unsigned (l : List Bool) : UInt64 := .ofNat (natOf l)

/-- The number that the bits of a field stand for in two's complement. -/
def signed (l : List Bool) : ℤ := (BitVec.ofNat l.length (natOf l)).toInt

/-- What reads from a bit reader, and may stop. -/
abbrev Reading := StateT BitReader (Except Stop)

namespace BitReader

/-- The constructor, whose product wraps around like the one of the source. -/
def new (data : Bytes) : BitReader := ⟨data, .ofNat data.length * 8, 0⟩

/-- The loop of `getU`: the next `n` bits, from the bit `idx` on, shifted into `v`. -/
def shiftIn (br : BitReader) : ℕ → UInt64 → UInt64 → Except Stop UInt64
  | 0, _, v => pure v
  | n + 1, idx, v => do
    let byte ← fetch br.data (idx / 8).toNat
    let bit := (byte >>> (7 - idx % 8).toUInt8) &&& 1
    br.shiftIn n (idx + 1) (v <<< 1 ||| bit.toUInt64)

/-- The next `n` bits, unsigned. -/
def getU (n : ℤ) : Reading (Option UInt64) := fun br =>
  if n < 0 ∨ 64 < n then pure (none, br)
  else if br.totalBits < br.bitpos + .ofInt n then pure (none, br)
  else do
    let v ← br.shiftIn n.toNat br.bitpos 0
    pure (some v, { br with bitpos := br.bitpos + .ofInt n })

/-- The number that `n` bits stand for in two's complement. The mask that extends
    the sign is shifted by `n`, which is undefined for `n = 64`. -/
def extendSign (n : ℤ) (u : UInt64) : Except Stop ℤ :=
  if n = 0 then pure 0
  else if (u >>> .ofInt (n - 1)) &&& 1 = 1 then
    if n < 64 then pure (u ||| (~~~0 : UInt64) <<< .ofInt n).toBitVec.toInt
    else throw .undefined
  else pure u.toBitVec.toInt

/-- The next `n` bits, signed. -/
def getS (n : ℤ) : Reading (Option ℤ) := do
  match ← getU n with
  | none => pure none
  | some u => pure (some (← extendSign n u))

/-- The sum is one of `size_t`, and may wrap around. -/
def skip (nbits : UInt64) : Reading (Option Unit) := fun br =>
  if br.totalBits < br.bitpos + nbits then pure (none, br)
  else pure (some (), { br with bitpos := br.bitpos + nbits })

end BitReader

/-- The value of a call; a call that fails is reported. -/
def need {α : Type} (text : String) (x : Reading (Option α)) : Reading α := do
  match ← x with
  | some a => pure a
  | none => throw (.report text)

/-- A reading that succeeds hands its reader on. -/
theorem bind_ok {α β : Type} {x : Reading α} {f : α → Reading β} {br br' : BitReader} {a : α}
    (h : x br = .ok (a, br')) : (x >>= f) br = f a br' := by
  simp only [bind, StateT.bind, h, Except.bind]

/-! ### Where a reader stands -/

/-- The reader stands before the bits `l`, the last ones of its buffer. -/
structure BitReader.At (br : BitReader) (l : List Bool) : Prop where
  total : br.totalBits.toNat = 8 * br.data.length
  room : 8 * br.data.length + 64 < 2 ^ 64
  pos : br.bitpos.toNat + l.length = 8 * br.data.length
  bits : (bitsOf br.data).drop br.bitpos.toNat = l

namespace BitReader

variable {br : BitReader} {l : List Bool} {n : ℕ}

/-- A new reader is before all the bits of the payload. -/
theorem at_new {data : Bytes} (h : 8 * data.length + 64 < 2 ^ 64) :
    (new data).At (bitsOf data) where
  total := by
    have h8 : (8 : UInt64).toNat = 8 := rfl
    have hlen : (UInt64.ofNat data.length).toNat = data.length := by
      rw [UInt64.toNat_ofNat', Nat.mod_eq_of_lt (by omega)]
    calc (UInt64.ofNat data.length * 8).toNat = data.length * 8 % 2 ^ 64 := by
          rw [UInt64.toNat_mul, hlen, h8]
      _ = 8 * data.length := by omega
  room := h
  pos := by simp [new]
  bits := rfl

namespace At

/-- The position `n` bits further on. The sum does not wrap around. -/
theorem toNat_bitpos_add (h : br.At l) (hn : n ≤ 64) :
    (br.bitpos + .ofNat n).toNat = br.bitpos.toNat + n := by
  have hpos := h.pos
  have hroom := h.room
  have hval : (UInt64.ofNat n).toNat = n := by
    rw [UInt64.toNat_ofNat', Nat.mod_eq_of_lt (by omega)]
  rw [toNat_add (by omega), hval]

/-- Behind `n` of the bits, a reader is before the rest of them. -/
theorem advance (h : br.At l) (hn : n ≤ 64) (hl : n ≤ l.length) :
    At { br with bitpos := br.bitpos + .ofNat n } (l.drop n) where
  total := h.total
  room := h.room
  pos := by
    have := h.pos
    have := h.toNat_bitpos_add hn
    simp only [List.length_drop]
    omega
  bits := by
    simp only [h.toNat_bitpos_add hn]
    rw [← h.bits, List.drop_drop]

/-- There are `n` more bits if and only if the check of the code passes. -/
theorem bound_iff (h : br.At l) (hn : n ≤ 64) :
    br.totalBits < br.bitpos + .ofNat n ↔ l.length < n := by
  have := h.pos
  rw [UInt64.lt_iff_toNat_lt, h.toNat_bitpos_add hn, h.total]
  omega

end At

/-- The bit that the loop of `getU` takes from a byte. -/
theorem toNat_bit (byte : UInt8) (idx : UInt64) :
    ((byte >>> (7 - idx % 8).toUInt8) &&& 1).toUInt64.toNat =
      (byte.toNat.testBit (7 - idx.toNat % 8)).toNat := by
  have h8 : (idx % 8).toNat = idx.toNat % 8 := UInt64.toNat_mod ..
  have h7 : (7 - idx % 8).toUInt8.toNat = 7 - idx.toNat % 8 := by
    have hsub : (7 - idx % 8).toNat = 7 - idx.toNat % 8 := by
      rw [toNat_sub (by rw [h8]; exact Nat.le_of_lt_succ (Nat.mod_lt _ (by decide))), h8]
      rfl
    rw [UInt64.toNat_toUInt8, hsub]
    exact Nat.mod_eq_of_lt (by omega)
  have hmod : (7 - idx.toNat % 8) % 8 = 7 - idx.toNat % 8 := Nat.mod_eq_of_lt (by omega)
  rw [UInt8.toNat_toUInt64, UInt8.toNat_and, UInt8.toNat_shiftRight, h7, hmod, Nat.toNat_testBit,
    Nat.shiftRight_eq_div_pow]
  exact Nat.and_one_is_mod _

/-- A bit shifted into `v`. -/
theorem toNat_shiftLeft_or (v bit : UInt64) (hbit : bit.toNat < 2) :
    (v <<< 1 ||| bit).toNat = (2 * v.toNat + bit.toNat) % 2 ^ 64 := by
  have hone : (1 : UInt64).toNat % 64 = 1 := rfl
  calc (v <<< 1 ||| bit).toNat = v.toNat <<< 1 % 2 ^ 64 ||| bit.toNat % 2 ^ 64 := by
        rw [UInt64.toNat_or, UInt64.toNat_shiftLeft, hone, Nat.mod_eq_of_lt bit.toNat_lt]
    _ = (v.toNat <<< 1 + bit.toNat) % 2 ^ 64 := by
        rw [← Nat.or_mod_two_pow, Nat.shiftLeft_add_eq_or_of_lt (by rwa [pow_one])]
    _ = (2 * v.toNat + bit.toNat) % 2 ^ 64 := by
        rw [Nat.shiftLeft_eq, pow_one, Nat.mul_comm]

/-- The loop of `getU` stays within the buffer, and appends the bits to `v`. -/
theorem shiftIn_eq {idx : UInt64} (v : UInt64) (hroom : idx.toNat + n < 2 ^ 64)
    (h : idx.toNat + n ≤ 8 * br.data.length) :
    ∃ u, br.shiftIn n idx v = .ok u ∧
      u.toNat = (v.toNat * 2 ^ n + natOf (((bitsOf br.data).drop idx.toNat).take n)) % 2 ^ 64 := by
  induction n generalizing idx v with
  | zero =>
    refine ⟨v, rfl, ?_⟩
    rw [pow_zero, mul_one, List.take_zero, natOf_nil, Nat.add_zero, Nat.mod_eq_of_lt v.toNat_lt]
  | succ n ih =>
    have hdiv : (idx / 8).toNat = idx.toNat / 8 := UInt64.toNat_div ..
    have hin : idx.toNat / 8 < br.data.length := by omega
    have hidx : (idx + 1).toNat = idx.toNat + 1 :=
      toNat_add (by have : (1 : UInt64).toNat = 1 := rfl; omega)
    set byte := br.data[idx.toNat / 8] with hbyte
    have hfetch : fetch br.data (idx / 8).toNat = .ok byte := by
      rw [fetch, hdiv, List.getElem?_eq_getElem hin]
    have hrest : (idx + 1).toNat + n ≤ 8 * br.data.length := by omega
    -- The first bit goes into `v`, the rest follows from there.
    obtain ⟨u, hu, hnat⟩ :=
      ih (v <<< 1 ||| ((byte >>> (7 - idx % 8).toUInt8) &&& 1).toUInt64) (by omega) hrest
    refine ⟨u, ?_, ?_⟩
    · rw [shiftIn, hfetch]
      exact hu
    · have hbit : (bitsOf br.data)[idx.toNat]? = some (byte.toNat.testBit (7 - idx.toNat % 8)) := by
        rw [getElem?_bitsOf (by omega), List.getD_eq_getElem?_getD, List.getElem?_eq_getElem hin]
        rfl
      have hcons : ((bitsOf br.data).drop idx.toNat).take (n + 1) =
          byte.toNat.testBit (7 - idx.toNat % 8) ::
            ((bitsOf br.data).drop (idx + 1).toNat).take n := by
        obtain ⟨hlt, hget⟩ := List.getElem?_eq_some_iff.1 hbit
        rw [List.drop_eq_getElem_cons hlt, List.take_succ_cons, hget, hidx]
      have hlen : (((bitsOf br.data).drop (idx + 1).toNat).take n).length = n := by
        rw [List.length_take, List.length_drop, length_bitsOf, hidx]
        omega
      rw [hnat, hcons, natOf_cons, hlen,
        toNat_shiftLeft_or _ _ (by rw [toNat_bit]; exact Bool.toNat_lt _), toNat_bit,
        Nat.add_mod, Nat.mod_mul_mod, ← Nat.add_mod]
      congr 1
      ring

/-- The loop of `getU` from the position of the reader on. -/
theorem shiftIn_bitpos (br : BitReader) (hn : n ≤ 64) (hroom : br.bitpos.toNat + n < 2 ^ 64)
    (h : br.bitpos.toNat + n ≤ 8 * br.data.length) :
    br.shiftIn n br.bitpos 0 =
      .ok (unsigned (((bitsOf br.data).drop br.bitpos.toNat).take n)) := by
  obtain ⟨u, hu, hnat⟩ := shiftIn_eq 0 hroom h
  have hlt := (natOf_lt (((bitsOf br.data).drop br.bitpos.toNat).take n)).trans_le
    (Nat.pow_le_pow_right two_pos ((List.length_take_le ..).trans hn))
  rw [UInt64.toNat_zero, Nat.zero_mul, Nat.zero_add, Nat.mod_eq_of_lt hlt] at hnat
  rw [hu, unsigned, ← hnat, UInt64.ofNat_toNat]

/-- `getU` takes the next `n` bits, if there are so many. -/
theorem getU_of_le (h : br.At l) (hn : n ≤ 64) (hl : n ≤ l.length) :
    ∃ br', getU n br = .ok (some (unsigned (l.take n)), br') ∧ br'.At (l.drop n) := by
  have hpos := h.pos
  have hroom := h.room
  have hval := shiftIn_bitpos br hn (by omega) (by omega)
  rw [h.bits] at hval
  refine ⟨_, ?_, h.advance hn hl⟩
  rw [getU, if_neg (by omega), ofInt_natCast, if_neg (by rw [h.bound_iff hn]; omega),
    Int.toNat_natCast, hval]
  rfl

/-- Otherwise it takes nothing. -/
theorem getU_of_lt (h : br.At l) (hn : n ≤ 64) (hl : l.length < n) :
    getU n br = .ok (none, br) := by
  rw [getU, if_neg (by omega), ofInt_natCast, if_pos ((h.bound_iff hn).2 hl)]
  rfl

/-- `skip` moves on by `n` bits, if there are so many. -/
theorem skip_of_le (h : br.At l) (hn : n ≤ 64) (hl : n ≤ l.length) :
    ∃ br', skip (.ofNat n) br = .ok (some (), br') ∧ br'.At (l.drop n) := by
  refine ⟨_, ?_, h.advance hn hl⟩
  rw [skip, if_neg (by rw [h.bound_iff hn]; omega)]
  rfl

theorem skip_of_lt (h : br.At l) (hn : n ≤ 64) (hl : l.length < n) :
    skip (.ofNat n) br = .ok (none, br) := by
  rw [skip, if_pos ((h.bound_iff hn).2 hl)]
  rfl

/-! ### Signed fields -/

/-- The value fits, so no bit of it is lost. -/
theorem toNat_unsigned (hl : l.length ≤ 64) : (unsigned l).toNat = natOf l := by
  have := natOf_lt l
  have : 2 ^ l.length ≤ 2 ^ 64 := Nat.pow_le_pow_right two_pos hl
  rw [unsigned, UInt64.toNat_ofNat', Nat.mod_eq_of_lt (by omega)]

/-- The value in two's complement. -/
theorem signed_eq (l : List Bool) : signed l = if 2 * natOf l < 2 ^ l.length then (natOf l : ℤ)
    else natOf l - 2 ^ l.length := by
  rw [signed, BitVec.toInt_eq_toNat_cond, BitVec.toNat_ofNat, Nat.mod_eq_of_lt (natOf_lt l)]
  push_cast
  rfl

/-- `getS` looks at the sign bit. -/
theorem sign_iff {m : ℕ} (hl : l.length = m + 1) (hm : m < 64) :
    (unsigned l >>> .ofNat m) &&& 1 = 1 ↔ 2 ^ m ≤ natOf l := by
  have hlt := natOf_lt l
  rw [hl, pow_succ] at hlt
  have hone : (1 : UInt64).toNat = 1 := rfl
  have hval : ((unsigned l >>> .ofNat m) &&& 1).toNat = natOf l / 2 ^ m := by
    have hshift : (UInt64.ofNat m).toNat % 64 = m := by
      rw [UInt64.toNat_ofNat', Nat.mod_eq_of_lt (a := m) (by omega), Nat.mod_eq_of_lt hm]
    rw [UInt64.toNat_and, UInt64.toNat_shiftRight, hshift, toNat_unsigned (by omega),
      Nat.shiftRight_eq_div_pow, hone, Nat.and_one_is_mod,
      Nat.mod_eq_of_lt (Nat.div_lt_of_lt_mul (by omega))]
  rw [← UInt64.toNat_inj, hval, hone]
  exact ⟨fun h => (Nat.div_pos_iff.1 (by rw [h]; exact one_pos)).2,
    fun h => Nat.div_eq_of_lt_le (by rwa [one_mul]) (by rwa [Nat.succ_mul, one_mul, ← mul_two])⟩

/-- The mask adds `2 ^ 64 - 2 ^ n` to a field of `n` bits. -/
theorem toNat_or_mask (hl : l.length < 64) :
    (unsigned l ||| (~~~0 : UInt64) <<< .ofNat l.length).toNat =
      natOf l + (2 ^ 64 - 2 ^ l.length) := by
  have hshift : (UInt64.ofNat l.length).toNat % 64 = l.length := by
    rw [UInt64.toNat_ofNat', Nat.mod_eq_of_lt (a := l.length) (by omega), Nat.mod_eq_of_lt hl]
  have hpow : 2 ^ 64 = 2 ^ (64 - l.length) * 2 ^ l.length := by
    rw [← pow_add, Nat.sub_add_cancel hl.le]
  have hmask : ((~~~0 : UInt64) <<< .ofNat l.length).toNat =
      (2 ^ (64 - l.length) - 1) <<< l.length := by
    have hones : (~~~0 : UInt64).toNat = 2 ^ 64 - 1 := rfl
    have hpos : 2 ^ 64 ≤ 2 ^ 64 * 2 ^ l.length := Nat.le_mul_of_pos_right _ (Nat.two_pow_pos _)
    have hle : 2 ^ l.length ≤ 2 ^ 64 := Nat.pow_le_pow_right two_pos hl.le
    have hsplit : (2 ^ 64 - 1) * 2 ^ l.length =
        2 ^ 64 * (2 ^ l.length - 1) + (2 ^ 64 - 2 ^ l.length) := by
      rw [Nat.sub_mul, Nat.mul_sub, one_mul, mul_one]
      omega
    rw [UInt64.toNat_shiftLeft, hshift, hones, Nat.shiftLeft_eq, hsplit, Nat.mul_add_mod,
      Nat.mod_eq_of_lt (Nat.sub_lt (by decide) (Nat.two_pow_pos _)), Nat.shiftLeft_eq, Nat.sub_mul,
      one_mul, ← hpow]
  rw [UInt64.toNat_or, hmask, toNat_unsigned hl.le, Nat.or_comm,
    ← Nat.shiftLeft_add_eq_or_of_lt (natOf_lt l), Nat.shiftLeft_eq, Nat.sub_mul, one_mul, ← hpow,
    Nat.add_comm]

/-- A field of less than 64 bits, signed. -/
theorem extendSign_unsigned (hl : l.length < 64) :
    extendSign l.length (unsigned l) = .ok (signed l) := by
  rw [extendSign]
  rcases hm : l.length with _ | m
  -- No sign is looked for in a field without bits.
  · rw [List.length_eq_zero_iff.1 hm]
    rfl
  have hlt := natOf_lt l
  have hpow : 2 ^ (m + 1) ≤ 2 ^ 63 := Nat.pow_le_pow_right two_pos (by omega)
  have hle : 2 ^ (m + 1) ≤ 2 ^ 64 := hpow.trans (by decide)
  have hcast : ((m + 1 : ℕ) : ℤ) - 1 = (m : ℕ) := by push_cast; ring
  rw [if_neg (by omega), hcast, ofInt_natCast, if_congr (sign_iff hm (by omega)) rfl rfl, signed_eq,
    hm]
  rw [hm] at hlt
  by_cases hneg : 2 ^ m ≤ natOf l
  -- The mask makes it `natOf l + 2 ^ 64 - 2 ^ (m + 1)`, negative as an `int64_t`.
  · have hmask := toNat_or_mask hl
    rw [hm] at hmask
    rw [if_pos hneg, if_pos (by omega), if_neg (by rw [pow_succ]; omega), ofInt_natCast,
      BitVec.toInt_eq_toNat_cond, UInt64.toNat_toBitVec, hmask, if_neg (by omega)]
    refine congrArg Except.ok ?_
    rw [Nat.cast_add, Nat.cast_sub hle]
    push_cast
    ring
  · rw [if_neg hneg, if_pos (by rw [pow_succ]; omega), BitVec.toInt_eq_toNat_cond,
      UInt64.toNat_toBitVec, toNat_unsigned hl.le, if_pos (by rw [pow_succ] at hpow; omega)]
    rfl

/-- `getS` takes the next `n` bits as a signed number. -/
theorem getS_of_le (h : br.At l) (hn : n < 64) (hl : n ≤ l.length) :
    ∃ br', getS n br = .ok (some (signed (l.take n)), br') ∧ br'.At (l.drop n) := by
  obtain ⟨br', hget, hat⟩ := getU_of_le h hn.le hl
  have hlen : (l.take n).length = n := by rw [List.length_take, Nat.min_eq_left hl]
  have hext := extendSign_unsigned (l := l.take n) (by rwa [hlen])
  rw [hlen] at hext
  refine ⟨br', ?_, hat⟩
  rw [getS, bind_ok hget]
  simp only [hext]
  rfl

theorem getS_of_lt (h : br.At l) (hn : n ≤ 64) (hl : l.length < n) :
    getS n br = .ok (none, br) := by
  rw [getS, bind_ok (getU_of_lt h hn hl)]
  rfl

end BitReader

end RtcmBridge

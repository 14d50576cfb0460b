import RtcmBridge.BitReader

/-!
# The bit reader as a cursor

A caller reads fields of a buffer into two variables, unsigned and signed ones,
and skips others (`Cursor`, `Call`). `Correct` says what a call has to do, in terms
of the bits of the buffer after the position.

It does so exactly where it `Meets` three conditions: the sum of `size_t` in the
check does not wrap around, the product of `size_t` that counts the bits has not,
and the sign is not extended from 64 bits, where the mask would be shifted by its
width.
-/

namespace RtcmBridge

/-- A bit reader and the variables of its caller. -/
structure Cursor where
  reader : BitReader
  out : UInt64
  signedOut : ℤ
  deriving DecidableEq

namespace Cursor

open BitReader

/-- A call of the reader, of at most 64 bits when a value is read. -/
inductive Call
  | getU (n : Fin 65)
  | getS (n : Fin 65)
  | skip (nbits : UInt64)
  deriving DecidableEq

namespace Call

/-- The bits a call asks for, as a `size_t`. -/
def width : Call → UInt64
  | getU n | getS n => .ofNat n
  | skip nbits => nbits

/-- The number of bits that a call asks for. -/
def bits (call : Call) : ℕ := call.width.toNat

/-- A call, and whether it succeeds. Where it fails, it does not assign to the
    variables. -/
def perform (c : Cursor) : Call → Except Stop (Bool × Cursor)
  | getU n => (BitReader.getU n.val c.reader).map fun r =>
    (r.1.isSome, { c with reader := r.2, out := r.1.getD c.out })
  | getS n => (BitReader.getS n.val c.reader).map fun r =>
    (r.1.isSome, { c with reader := r.2, signedOut := r.1.getD c.signedOut })
  | skip nbits => (BitReader.skip nbits c.reader).map fun r =>
    (r.1.isSome, { c with reader := r.2 })

/-- The variables after the bits `l` were read. -/
def deliver (l : List Bool) (c : Cursor) : Call → UInt64 × ℤ
  | getU _ => (unsigned l, c.signedOut)
  | getS _ => (c.out, signed l)
  | skip _ => (c.out, c.signedOut)

end Call

/-- The position in the buffer, in bits. -/
def pos (c : Cursor) : ℕ := c.reader.bitpos.toNat

/-- The bits after the position. -/
def rest (c : Cursor) : List Bool := (bitsOf c.reader.data).drop c.pos

/-- A cursor before the first bit of `data`. -/
def start (data : Bytes) (out : UInt64) (signedOut : ℤ) : Cursor := ⟨.new data, out, signedOut⟩

/-! ## Correct calls -/

/-- What is promised of a call in the state `c` that returns `ok` in the state `c'`. -/
structure Performed (c : Cursor) (call : Call) (ok : Bool) (c' : Cursor) : Prop where
  ok_iff : ok = true ↔ call.bits ≤ c.rest.length
  advance : ok = true → c'.pos = c.pos + call.bits
  output : ok = true → (c'.out, c'.signedOut) = call.deliver (c.rest.take call.bits) c
  failure : ok = false → c' = c
  data_eq : c'.reader.data = c.reader.data
  monotone : c.pos ≤ c'.pos
  bounded : c'.pos ≤ c'.reader.totalBits.toNat

/-- The call is defined, and does what is promised. -/
def Correct (c : Cursor) (call : Call) : Prop :=
  ∃ ok c', call.perform c = .ok (ok, c') ∧ Performed c call ok c'

/-- When a call is correct. -/
structure Meets (c : Cursor) (call : Call) : Prop where
  /-- The sum in the check does not wrap around. -/
  sum : c.pos + call.bits < 2 ^ 64
  /-- Bits of the buffer are counted in `total_bits_`. -/
  counted : call.bits ≤ c.rest.length → c.pos + call.bits ≤ c.reader.totalBits.toNat
  /-- A field of 64 bits read as a signed one is not negative. -/
  sign : call = .getS 64 → 64 ≤ c.rest.length → c.rest.head? ≠ some true

/-- `P` holds of every call of a sequence, in the state it is made in. -/
def Along (P : Cursor → Call → Prop) (c : Cursor) : List Call → Prop
  | [] => True
  | call :: calls => P c call ∧ ∀ ok c', call.perform c = .ok (ok, c') → Along P c' calls

/-- What holds of every cursor, wherever its calls have led it. -/
structure Inv (c : Cursor) : Prop where
  total_le : c.reader.totalBits.toNat ≤ 8 * c.reader.data.length
  pos_le : c.pos ≤ c.reader.totalBits.toNat

/-- A new reader satisfies the invariant. -/
theorem inv_start (data : Bytes) (out : UInt64) (signedOut : ℤ) :
    (start data out signedOut).Inv where
  total_le := by
    have hlen : (UInt64.ofNat data.length).toNat ≤ data.length := by
      rw [UInt64.toNat_ofNat']
      exact Nat.mod_le _ _
    calc (UInt64.ofNat data.length * 8).toNat ≤ (UInt64.ofNat data.length).toNat * 8 := by
          rw [UInt64.toNat_mul]
          exact Nat.mod_le _ _
      _ ≤ 8 * data.length := by omega
  pos_le := Nat.zero_le _

/-- What is left are the bits behind the position. -/
theorem length_rest (c : Cursor) : c.rest.length = 8 * c.reader.data.length - c.pos := by
  rw [rest, List.length_drop, length_bitsOf]

/-! ## A call -/

/-- What a call for `n` bits does to the reader `br`: it fails, or moves on. -/
def Takes {α : Type} (br : BitReader) (n : UInt64) (r : Option α × BitReader) : Prop :=
  (r = (none, br) ∧ br.totalBits < br.bitpos + n) ∨
    ∃ v, r = (some v, { br with bitpos := br.bitpos + n }) ∧ ¬br.totalBits < br.bitpos + n

section Takes

variable {br : BitReader} {n : Fin 65}

/-- A `getU` that returns has failed or moved on by its width. -/
theorem takes_getU {r : Option UInt64 × BitReader} (h : BitReader.getU n.val br = .ok r) :
    Takes br (.ofNat n) r := by
  have hn := n.is_lt
  rw [BitReader.getU, if_neg (by omega), ofInt_natCast] at h
  split_ifs at h with hlt
  · exact .inl ⟨(Except.ok.inj h).symm, hlt⟩
  · rcases hv : br.shiftIn (n.val : ℤ).toNat br.bitpos 0 with e | v <;> rw [hv] at h
    · cases h
    · exact .inr ⟨v, (Except.ok.inj h).symm, hlt⟩

/-- The same for `getS`. -/
theorem takes_getS {r : Option ℤ × BitReader} (h : BitReader.getS n.val br = .ok r) :
    Takes br (.ofNat n) r := by
  rcases hu : BitReader.getU n.val br with e | ⟨u, br'⟩
  · simp only [BitReader.getS, bind, StateT.bind, hu, Except.bind] at h
    cases h
  · rw [BitReader.getS, bind_ok hu] at h
    rcases takes_getU hu with ⟨heq, hlt⟩ | ⟨v, heq, hlt⟩ <;> obtain ⟨rfl, rfl⟩ := Prod.mk.inj heq
    · exact .inl ⟨(Except.ok.inj h).symm, hlt⟩
    · rcases hs : extendSign n.val v with e | w <;>
        simp only [hs, bind, StateT.bind, liftM, monadLift, MonadLift.monadLift, StateT.lift] at h
      · cases h
      · exact .inr ⟨w, (Except.ok.inj h).symm, hlt⟩

/-- The same for `skip`. -/
theorem takes_skip {nbits : UInt64} {r : Option Unit × BitReader}
    (h : BitReader.skip nbits br = .ok r) : Takes br nbits r := by
  rw [BitReader.skip] at h
  split_ifs at h with hlt
  · exact .inl ⟨(Except.ok.inj h).symm, hlt⟩
  · exact .inr ⟨(), (Except.ok.inj h).symm, hlt⟩

/-- A call that puts what it reads into the variables of its caller. -/
theorem Takes.of_map {α : Type} {c' : Cursor} {ok : Bool} {w : UInt64}
    {x : Except Stop (Option α × BitReader)} {put : Option α × BitReader → Cursor}
    (hx : ∀ r, x = .ok r → Takes br w r)
    (h : (x.map fun r => (r.1.isSome, put r)) = .ok (ok, c')) :
    (ok = false ∧ br.totalBits < br.bitpos + w ∧ c' = put (none, br)) ∨
      (ok = true ∧ ¬br.totalBits < br.bitpos + w ∧
        ∃ v, c' = put (some v, { br with bitpos := br.bitpos + w })) := by
  rcases x with e | r
  · cases h
  obtain ⟨rfl, rfl⟩ := Prod.mk.inj (Except.ok.inj h)
  rcases hx r rfl with ⟨rfl, hlt⟩ | ⟨v, rfl, hlt⟩
  · exact .inl ⟨rfl, hlt, rfl⟩
  · exact .inr ⟨rfl, hlt, v, rfl⟩

end Takes

/-! ## Fields of 64 bits -/

/-- The sign bit is set exactly in the upper half of the values. -/
theorem head?_iff {l : List Bool} {m : ℕ} (hl : l.length = m + 1) :
    l.head? = some true ↔ 2 ^ m ≤ natOf l := by
  obtain ⟨b, t, rfl⟩ := List.exists_cons_of_length_eq_add_one hl
  rw [List.length_cons, Nat.add_right_cancel_iff] at hl
  have hlt := natOf_lt t
  rw [hl] at hlt
  rw [natOf_cons, hl, List.head?_cons]
  cases b <;> simp [hlt]

/-- All the bits of a field of 64 are there. Only a sign that needs no extension is
    right. -/
theorem extendSign_sixtyFour {l : List Bool} (hl : l.length = 64) :
    extendSign 64 (unsigned l) =
      if l.head? = some true then .error .undefined else .ok (signed l) := by
  have hcast : (64 : ℤ) - 1 = (63 : ℕ) := rfl
  rw [extendSign, if_neg (by decide), hcast, ofInt_natCast,
    if_congr ((sign_iff hl (by decide)).trans (head?_iff hl).symm) rfl rfl,
    if_neg (lt_irrefl (64 : ℤ))]
  split_ifs with hs
  · rfl
  · have hlt : natOf l < 2 ^ 63 := not_le.1 fun h => hs ((head?_iff hl).2 h)
    rw [signed_eq, hl, if_pos (by omega), BitVec.toInt_eq_toNat_cond, UInt64.toNat_toBitVec,
      toNat_unsigned hl.le, if_pos (by omega)]
    rfl

/-- What `getS` makes of a field of each width. -/
theorem extendSign_slice {l : List Bool} (hl : l.length ≤ 64) :
    extendSign l.length (unsigned l) =
      if l.length = 64 ∧ l.head? = some true then .error .undefined else .ok (signed l) := by
  rcases hl.lt_or_eq with h | h
  · rw [if_neg fun h' => h.ne h'.1]
    exact extendSign_unsigned h
  · have := extendSign_sixtyFour h
    rw [h]
    simpa using this

section Step

variable {c c' : Cursor} {call : Call} {ok : Bool}

/-- What a call does to the reader. -/
theorem perform_cases (h : call.perform c = .ok (ok, c')) :
    (ok = false ∧ c.reader.totalBits < c.reader.bitpos + call.width ∧ c' = c) ∨
      (ok = true ∧ ¬c.reader.totalBits < c.reader.bitpos + call.width ∧
        c'.reader = { c.reader with bitpos := c.reader.bitpos + call.width }) := by
  cases call with
  | getU n =>
    rcases Takes.of_map (fun _ => takes_getU) h with ⟨hok, hlt, rfl⟩ | ⟨hok, hlt, v, rfl⟩
    · exact .inl ⟨hok, hlt, rfl⟩
    · exact .inr ⟨hok, hlt, rfl⟩
  | getS n =>
    rcases Takes.of_map (fun _ => takes_getS) h with ⟨hok, hlt, rfl⟩ | ⟨hok, hlt, v, rfl⟩
    · exact .inl ⟨hok, hlt, rfl⟩
    · exact .inr ⟨hok, hlt, rfl⟩
  | skip nbits =>
    rcases Takes.of_map (fun _ => takes_skip) h with ⟨hok, hlt, rfl⟩ | ⟨hok, hlt, v, rfl⟩
    · exact .inl ⟨hok, hlt, rfl⟩
    · exact .inr ⟨hok, hlt, rfl⟩

theorem ofNat_fin (n : Fin 65) : (UInt64.ofNat n).toNat = n := by
  have := n.is_lt
  rw [UInt64.toNat_ofNat', Nat.mod_eq_of_lt (by omega)]

/-- A call that asks for more than is left fails, and changes nothing. -/
theorem perform_of_lt (h : c.reader.totalBits < c.reader.bitpos + call.width) :
    call.perform c = .ok (false, c) := by
  have hgetU (n : Fin 65) (h : c.reader.totalBits < c.reader.bitpos + .ofNat n) :
      BitReader.getU n.val c.reader = .ok (none, c.reader) := by
    have hn := n.is_lt
    rw [BitReader.getU, if_neg (by omega), ofInt_natCast, if_pos h]
    rfl
  cases call with
  | getU n => rw [Call.perform, hgetU n h]; rfl
  | getS n => rw [Call.perform, BitReader.getS, bind_ok (hgetU n h)]; rfl
  | skip nbits => rw [Call.perform, BitReader.skip, if_pos (show _ < _ + nbits from h)]; rfl

/-- A call within the bits that are counted. -/
theorem perform_of_le (hinv : c.Inv) (hsum : c.pos + call.bits < 2 ^ 64)
    (hle : c.pos + call.bits ≤ c.reader.totalBits.toNat) :
    call.perform c =
      if call = .getS 64 ∧ c.rest.head? = some true then .error .undefined
      else .ok (true,
        { reader := { c.reader with bitpos := c.reader.bitpos + call.width }
          out := (call.deliver (c.rest.take call.bits) c).1
          signedOut := (call.deliver (c.rest.take call.bits) c).2 }) := by
  have htotal := hinv.total_le
  have hbound : ¬c.reader.totalBits < c.reader.bitpos + call.width := by
    rw [UInt64.lt_iff_toNat_lt, toNat_add hsum]
    exact not_lt.2 hle
  -- All calls but `skip` come down to `getU` of so many bits.
  have hgetU (n : Fin 65) (hn : c.pos + n.val ≤ c.reader.totalBits.toNat)
      (hb : ¬c.reader.totalBits < c.reader.bitpos + .ofNat n) :
      BitReader.getU n.val c.reader = .ok (some (unsigned (c.rest.take n)),
        { c.reader with bitpos := c.reader.bitpos + .ofNat n }) := by
    have hlt := n.is_lt
    have := c.reader.totalBits.toNat_lt
    have hval := shiftIn_bitpos c.reader (n := n) (by omega)
      (by show c.pos + _ < _; omega) (by show c.pos + _ ≤ _; omega)
    rw [BitReader.getU, if_neg (by omega), ofInt_natCast, if_neg hb, Int.toNat_natCast, hval]
    rfl
  cases call with
  | getU n =>
    have hn := ofNat_fin n
    rw [Call.perform, hgetU n (by rwa [Call.bits, Call.width, hn] at hle) hbound, if_neg (by simp)]
    rw [Call.bits, Call.width, hn]
    rfl
  | getS n =>
    have hn := ofNat_fin n
    rw [Call.bits, Call.width, hn] at hle
    have hlen : (c.rest.take n).length = n := by
      rw [List.length_take, length_rest]
      omega
    have hext := extendSign_slice (l := c.rest.take n) (by omega)
    rw [hlen] at hext
    -- Bits as many as the word has: the sign is that of the first of them.
    have hsign : (Call.getS n = .getS 64 ∧ c.rest.head? = some true) ↔
        (n : ℕ) = 64 ∧ (c.rest.take n).head? = some true := by
      rw [Call.getS.injEq, Fin.ext_iff]
      refine and_congr_right fun h => ?_
      rw [List.head?_take, if_neg (by rw [h]; decide)]
    rw [Call.bits, Call.width, hn, Call.perform, BitReader.getS, bind_ok (hgetU n hle hbound),
      if_congr hsign rfl rfl]
    split_ifs at hext ⊢ <;> simp only [hext] <;> rfl
  | skip nbits =>
    rw [Call.perform, BitReader.skip, if_neg (show ¬_ < _ + nbits from hbound), if_neg (by simp)]
    rfl

/-- The position never passes `total_bits_`, also where the sum wraps around. -/
theorem Inv.perform (hinv : c.Inv) (h : call.perform c = .ok (ok, c')) : c'.Inv := by
  rcases perform_cases h with ⟨-, -, rfl⟩ | ⟨-, hle, hr⟩
  · exact hinv
  · exact
      { total_le := by
          rw [hr]
          exact hinv.total_le
        pos_le := by
          rw [pos, hr]
          exact not_lt.1 fun hlt => hle (UInt64.lt_iff_toNat_lt.2 hlt) }

theorem Correct.meets (hinv : c.Inv) (h : Correct c call) : Meets c call := by
  obtain ⟨ok, c', hperform, hp⟩ := h
  have hpos := hinv.pos_le
  have hlength := c.length_rest
  have hsum : c.pos + call.bits < 2 ^ 64 := by
    -- A sum that wraps around is below the position: the call succeeds, and moves back.
    by_contra hwrap
    have hadd : (c.reader.bitpos + call.width).toNat = c.pos + call.bits - 2 ^ 64 := by
      have := c.reader.bitpos.toNat_lt
      have := call.width.toNat_lt
      rw [UInt64.toNat_add]
      simp only [pos, Call.bits] at hwrap ⊢
      omega
    have hbits : call.bits < 2 ^ 64 := call.width.toNat_lt
    rcases perform_cases hperform with ⟨-, hlt, -⟩ | ⟨-, -, hr⟩
    · rw [UInt64.lt_iff_toNat_lt, hadd] at hlt
      omega
    · have hmono := hp.monotone
      rw [show c'.pos = (c.reader.bitpos + call.width).toNat by rw [pos, hr], hadd] at hmono
      omega
  have hcounted (hle : call.bits ≤ c.rest.length) :
      c.pos + call.bits ≤ c.reader.totalBits.toNat := by
    rcases perform_cases hperform with ⟨hok, -, -⟩ | ⟨-, hle', -⟩
    · exact absurd (hp.ok_iff.2 hle) (by rw [hok]; decide)
    · rw [UInt64.lt_iff_toNat_lt, toNat_add hsum] at hle'
      exact not_lt.1 hle'
  refine ⟨hsum, hcounted, ?_⟩
  rintro rfl hle hs
  rw [perform_of_le hinv hsum (hcounted hle), if_pos ⟨rfl, hs⟩] at hperform
  cases hperform

theorem Meets.correct (hinv : c.Inv) (h : Meets c call) : Correct c call := by
  have hpos := hinv.pos_le
  have htotal := hinv.total_le
  have hlength := c.length_rest
  have hadd : (c.reader.bitpos + call.width).toNat = c.pos + call.bits := toNat_add h.sum
  by_cases hlt : c.reader.totalBits < c.reader.bitpos + call.width
  · -- Not enough bits: the call fails.
    rw [UInt64.lt_iff_toNat_lt, hadd] at hlt
    refine ⟨false, c, perform_of_lt ?_, ?_⟩
    · rwa [UInt64.lt_iff_toNat_lt, hadd]
    · exact
        { ok_iff := iff_of_false (by simp) fun hle => absurd (h.counted hle) (not_le.2 hlt)
          advance := (by simp)
          output := (by simp)
          failure := fun _ => rfl
          data_eq := rfl
          monotone := le_rfl
          bounded := hpos }
  · -- There are enough, and the sign is defined.
    rw [UInt64.lt_iff_toNat_lt, hadd, not_lt] at hlt
    have hsign : ¬(call = .getS 64 ∧ c.rest.head? = some true) := by
      rintro ⟨rfl, hs⟩
      exact h.sign rfl (by change _ + 64 ≤ _ at hlt; omega) hs
    refine ⟨true, _, (perform_of_le hinv h.sum hlt).trans (if_neg hsign), ?_⟩
    exact
      { ok_iff := iff_of_true rfl (by omega)
        advance := fun _ => hadd
        output := fun _ => rfl
        failure := (by simp)
        data_eq := rfl
        monotone := (Nat.le_add_right _ _).trans hadd.ge
        bounded := hadd.le.trans hlt }

/-- A call is correct if and only if it meets what is written of it. -/
theorem correct_iff (hinv : c.Inv) : Correct c call ↔ Meets c call :=
  ⟨Correct.meets hinv, Meets.correct hinv⟩

end Step

/-! ## Sequences of calls -/

/-- The calls of a sequence are all correct if and only if all of them meet it. -/
theorem along_iff {c : Cursor} (hinv : c.Inv) (calls : List Call) :
    Along Correct c calls ↔ Along Meets c calls := by
  induction calls generalizing c with
  | nil => exact Iff.rfl
  | cons call calls ih =>
    exact and_congr (correct_iff hinv)
      (forall_congr' fun ok => forall_congr' fun c' => imp_congr_right fun h =>
        ih (hinv.perform h))

/-- Over any buffer, all calls of a sequence do what is promised if and only if each
    meets the conditions in the state it is made in. -/
theorem along_correct_iff (data : Bytes) (out : UInt64) (signedOut : ℤ) (calls : List Call) :
    Along Correct (start data out signedOut) calls ↔ Along Meets (start data out signedOut) calls :=
  along_iff (inv_start data out signedOut) calls

/-- A `skip` near `2 ^ 64` succeeds at the end of a byte, and moves back to its first bit;
    a negative field of 64 bits is not read. -/
theorem not_along_correct :
    ¬Along Correct (start [0] 0 0) [.skip 8, .skip 0xFFFFFFFFFFFFFFF8] ∧
      ¬Along Correct (start [0x80, 0, 0, 0, 0, 0, 0, 0] 0 0) [.getS 64] := by
  constructor
  · rintro ⟨-, h⟩
    obtain ⟨⟨ok, c', hperform, hp⟩, -⟩ := h true ⟨⟨[0], 8, 8⟩, 0, 0⟩ rfl
    have hback : Call.perform ⟨⟨[0], 8, 8⟩, 0, 0⟩ (.skip 0xFFFFFFFFFFFFFFF8) =
        .ok (true, ⟨⟨[0], 8, 0⟩, 0, 0⟩) := by decide +kernel
    rw [hback] at hperform
    obtain ⟨rfl, rfl⟩ := Prod.mk.inj (Except.ok.inj hperform)
    exact absurd hp.monotone (by decide)
  · rintro ⟨⟨ok, c', hperform, -⟩, -⟩
    have hstop : Call.perform (start [0x80, 0, 0, 0, 0, 0, 0, 0] 0 0) (.getS 64) =
        .error .undefined := by decide +kernel
    rw [hstop] at hperform
    cases hperform

end Cursor

end RtcmBridge

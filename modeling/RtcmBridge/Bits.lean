import Mathlib.Tactic

/-!
# Bit strings

Bit strings with the most significant bit first: the number a bit string stands
for (`natOf`), the bit string of a width that stands for a number (`natBits`),
cutting a bit string into parts of equal width (`cut`), and bytes as bit strings
(`bitsOf`, `pack`).
-/

namespace RtcmBridge

/-- The number that a bit string stands for. -/
def natOf (l : List Bool) : ℕ := l.foldl (fun v b => 2 * v + b.toNat) 0

/-- The `w` low bits of a number. -/
def natBits : ℕ → ℕ → List Bool
  | 0, _ => []
  | w + 1, v => v.testBit w :: natBits w v

/-- The first `n` parts of the width `w`. -/
def cut {α : Type*} (w : ℕ) : ℕ → List α → List (List α)
  | 0, _ => []
  | n + 1, l => l.take w :: cut w n (l.drop w)

/-! ### Numbers -/

@[simp]
theorem natOf_nil : natOf [] = 0 := rfl

/-- The first bits weigh more, by the number of the bits behind them. -/
theorem natOf_append (l m : List Bool) : natOf (l ++ m) = natOf l * 2 ^ m.length + natOf m := by
  induction m using List.reverseRecOn with
  | nil => simp
  | append_singleton m b ih =>
    have hstep (l : List Bool) : natOf (l ++ [b]) = 2 * natOf l + b.toNat := by
      rw [natOf, List.foldl_append]
      rfl
    rw [← List.append_assoc, hstep, hstep, ih, List.length_append, List.length_singleton, pow_succ]
    ring

theorem natOf_cons (b : Bool) (l : List Bool) :
    natOf (b :: l) = b.toNat * 2 ^ l.length + natOf l := by
  have := natOf_append [b] l
  rwa [List.singleton_append, show natOf [b] = b.toNat by simp [natOf]] at this

/-- A number of `w` bits is below `2 ^ w`. -/
theorem natOf_lt (l : List Bool) : natOf l < 2 ^ l.length := by
  induction l with
  | nil => simp
  | cons b l ih =>
    rw [natOf_cons, List.length_cons, pow_succ]
    cases b <;> simp <;> omega

@[simp]
theorem length_natBits (w v : ℕ) : (natBits w v).length = w := by
  induction w with
  | zero => rfl
  | succ w ih => rw [natBits, List.length_cons, ih]

/-- Written in `w` bits, a number is kept modulo `2 ^ w`. -/
theorem natOf_natBits (w v : ℕ) : natOf (natBits w v) = v % 2 ^ w := by
  induction w with
  | zero => rw [pow_zero, Nat.mod_one]; rfl
  | succ w ih =>
    rw [natBits, natOf_cons, length_natBits, ih, Nat.toNat_testBit, pow_succ, Nat.mod_mul]
    ring

/-- Bit strings of a length stand for different numbers. -/
theorem natOf_inj {l m : List Bool} (hlen : l.length = m.length) (h : natOf l = natOf m) :
    l = m := by
  induction l generalizing m with
  | nil => exact (List.eq_nil_of_length_eq_zero hlen.symm).symm
  | cons b l ih =>
    rcases m with _ | ⟨c, m⟩
    · exact absurd hlen (by simp)
    · rw [List.length_cons, List.length_cons, Nat.add_right_cancel_iff] at hlen
      rw [natOf_cons, natOf_cons, hlen] at h
      have hl := natOf_lt l
      have hm := natOf_lt m
      rw [hlen] at hl
      have hb : b = c := by cases b <;> cases c <;> simp at h ⊢ <;> omega
      rw [hb, ih hlen (by rw [hb] at h; omega)]

/-- Bits are determined by their number and how many they are. -/
theorem natBits_natOf (l : List Bool) : natBits l.length (natOf l) = l :=
  natOf_inj (length_natBits _ _) (by rw [natOf_natBits, Nat.mod_eq_of_lt (natOf_lt l)])

/-- The most significant bit comes first. -/
theorem getElem?_natBits {w v j : ℕ} (h : j < w) :
    (natBits w v)[j]? = some (v.testBit (w - 1 - j)) := by
  induction w generalizing j with
  | zero => omega
  | succ w ih =>
    rcases j with _ | j
    · rfl
    · rw [natBits, List.getElem?_cons_succ, ih (by omega)]
      congr 2
      omega

/-! ### Cutting -/

section Cut

variable {α : Type*} {w n : ℕ}

@[simp]
theorem length_cut (w n : ℕ) (l : List α) : (cut w n l).length = n := by
  induction n generalizing l with
  | zero => rfl
  | succ n ih => rw [cut, List.length_cons, ih]

/-- The pieces of an exact cut are the list. -/
theorem flatten_cut {l : List α} (h : l.length = n * w) : (cut w n l).flatten = l := by
  induction n generalizing l with
  | zero => rw [Nat.zero_mul, List.length_eq_zero_iff] at h; rw [h]; rfl
  | succ n ih =>
    rw [cut, List.flatten_cons, ih (by rw [List.length_drop, h, Nat.succ_mul]; omega),
      List.take_append_drop]

/-- The pieces of an exact cut are all of the width. -/
theorem length_of_mem_cut {l part : List α} (h : l.length = n * w) (hp : part ∈ cut w n l) :
    part.length = w := by
  induction n generalizing l with
  | zero => exact absurd hp List.not_mem_nil
  | succ n ih =>
    rw [Nat.succ_mul] at h
    rcases List.mem_cons.1 hp with rfl | hp
    · rw [List.length_take]
      omega
    · exact ih (by rw [List.length_drop]; omega) hp

end Cut

/-! ### Bytes -/

/-- The bits of some bytes. -/
def bitsOf (data : List UInt8) : List Bool := data.flatMap fun b => natBits 8 b.toNat

/-- The bytes that hold some bits, the last one filled up with zeros. -/
def pack (l : List Bool) : List UInt8 :=
  let n := (l.length + 7) / 8
  (cut 8 n (l ++ List.replicate (8 * n - l.length) false)).map fun part => .ofNat (natOf part)

@[simp]
theorem length_bitsOf (data : List UInt8) : (bitsOf data).length = 8 * data.length := by
  induction data with
  | nil => rfl
  | cons b data ih =>
    rw [bitsOf, List.flatMap_cons, List.length_append, length_natBits, List.length_cons]
    exact (congrArg (8 + ·) ih).trans (by ring)

theorem bitsOf_append (l m : List UInt8) : bitsOf (l ++ m) = bitsOf l ++ bitsOf m :=
  List.flatMap_append

/-- The bit `i` is in the byte `i / 8`. -/
theorem getElem?_bitsOf {data : List UInt8} {i : ℕ} (h : i < 8 * data.length) :
    (bitsOf data)[i]? = some ((data.getD (i / 8) 0).toNat.testBit (7 - i % 8)) := by
  induction data generalizing i with
  | nil => simp at h
  | cons b data ih =>
    rw [List.length_cons] at h
    rw [bitsOf, List.flatMap_cons]
    by_cases hi : i < 8
    · rw [List.getElem?_append_left (by rw [length_natBits]; exact hi), getElem?_natBits hi,
        Nat.div_eq_of_lt hi, Nat.mod_eq_of_lt hi, List.getD_cons_zero]
    · obtain ⟨i, rfl⟩ : ∃ j, i = j + 8 := ⟨i - 8, by omega⟩
      rw [List.getElem?_append_right (by rw [length_natBits]; omega), length_natBits,
        Nat.add_sub_cancel, Nat.add_div_right _ (by decide), Nat.add_mod_right, List.getD_cons_succ]
      exact ih (by omega)

/-- The packed bytes are filled up to a whole byte. -/
theorem length_pack (l : List Bool) : (pack l).length = (l.length + 7) / 8 := by
  rw [pack, List.length_map, length_cut]

/-- The bytes made of groups of eight bits hold these bits. -/
theorem bitsOf_map_natOf {parts : List (List Bool)} (h : ∀ part ∈ parts, part.length = 8) :
    bitsOf (parts.map fun part => UInt8.ofNat (natOf part)) = parts.flatten := by
  induction parts with
  | nil => rfl
  | cons part parts ih =>
    have h8 := h part (List.mem_cons_self ..)
    have hlt := natOf_lt part
    rw [h8] at hlt
    have hbyte : (UInt8.ofNat (natOf part)).toNat = natOf part := by
      rw [UInt8.toNat_ofNat', Nat.mod_eq_of_lt hlt]
    have hbits := natBits_natOf part
    rw [h8] at hbits
    rw [List.map_cons, bitsOf, List.flatMap_cons, hbyte, hbits, List.flatten_cons]
    exact congrArg (part ++ ·) (ih fun p hp => h p (List.mem_cons_of_mem _ hp))

/-- The bytes hold the bits, and fewer than eight more. -/
theorem bitsOf_pack (l : List Bool) : ∃ fill, bitsOf (pack l) = l ++ fill := by
  set n := (l.length + 7) / 8 with hn
  set full := l ++ List.replicate (8 * n - l.length) false with hfull
  have hlen : full.length = n * 8 := by
    rw [hfull, List.length_append, List.length_replicate]
    omega
  refine ⟨List.replicate (8 * n - l.length) false, ?_⟩
  rw [pack, bitsOf_map_natOf fun part hp => length_of_mem_cut hlen hp]
  exact flatten_cut hlen

end RtcmBridge

import RtcmBridge.MessageDecoder.RoundTrip
import RtcmBridge.MessageDecoder.Text
import Mathlib.Tactic

/-!
# The coordinates of a station

The summary of a message 1005 or 1006 shows its coordinates to six significant
digits. Two messages have different summaries if and only if one of the other
fields that are shown differs, or one of the coordinates after it is rounded
(`summaries_differ_iff`).
-/

namespace RtcmBridge.RtcmMessageDecoder

variable {line : SigInfo → Msm.Observation → Bytes} {l l' : List (Bytes × Bytes)}

/-- Fields that begin with a space, and whose values have none, are told apart in their text. -/
theorem flatMap_fields_inj (hkeys : l.map Prod.fst = l'.map Prod.fst)
    (hspace : ∀ p ∈ l, ∃ k, p.1 = 32 :: k) (hl : ∀ p ∈ l, 32 ∉ p.2) (hl' : ∀ p ∈ l', 32 ∉ p.2)
    (h : l.flatMap (fun p => p.1 ++ p.2) = l'.flatMap fun p => p.1 ++ p.2) : l = l' := by
  -- What follows a value begins with a blank, or is empty.
  have hbegin {l : List (Bytes × Bytes)} (hspace : ∀ p ∈ l, ∃ k, p.1 = 32 :: k) :
      l.flatMap (fun p => p.1 ++ p.2) = [] ∨ ∃ t, l.flatMap (fun p => p.1 ++ p.2) = 32 :: t := by
    rcases l with _ | ⟨p, l⟩
    · exact .inl rfl
    · obtain ⟨k, hk⟩ := hspace p (List.mem_cons_self ..)
      exact .inr ⟨k ++ p.2 ++ l.flatMap (fun p => p.1 ++ p.2), by
        rw [List.flatMap_cons, hk]; rfl⟩
  induction l generalizing l' with
  | nil => rw [List.map_nil, eq_comm, List.map_eq_nil_iff] at hkeys; exact hkeys.symm
  | cons p l ih =>
    rcases l' with _ | ⟨p', l'⟩
    · exact absurd hkeys (by simp)
    rw [List.map_cons, List.map_cons, List.cons.injEq] at hkeys
    obtain ⟨hkey, hkeys⟩ := hkeys
    rw [List.flatMap_cons, List.flatMap_cons, List.append_assoc, List.append_assoc, hkey,
      List.append_right_inj] at h
    have hspaceRest : ∀ p ∈ l, ∃ k, p.1 = 32 :: k := fun q hq =>
      hspace q (List.mem_cons_of_mem _ hq)
    have hspaceRest' : ∀ p ∈ l', ∃ k, p.1 = 32 :: k := by
      intro q hq
      have hmem : q.1 ∈ l.map Prod.fst := hkeys ▸ List.mem_map_of_mem hq
      obtain ⟨r, hr, hrq⟩ := List.mem_map.1 hmem
      exact hrq ▸ hspaceRest r hr
    -- So the first blank ends the value.
    obtain ⟨hvalue, hrest⟩ := append_inj_of_notMem (hl p (List.mem_cons_self ..))
      (hl' p' (List.mem_cons_self ..)) (hbegin hspaceRest) (hbegin hspaceRest') h
    rw [Prod.ext hkey hvalue, ih hkeys hspaceRest (fun q hq => hl q (List.mem_cons_of_mem _ hq))
      (fun q hq => hl' q (List.mem_cons_of_mem _ hq)) hrest]

/-- The key of a number, and its text. -/
def Item.pair : Item → Bytes × Bytes
  | number key v => (ascii key, decimal v)
  | scaled key v => (ascii key, metres v)
  | _ => ([], [])

/-- The message 1005, or 1006 if there is a height. -/
def Station.message (s : Station) : Option (BitVec 16) → Message
  | none => .m1005 s
  | some height => .m1006 s height

/-- A field that is shown differs, after the rounding of the coordinates. -/
def ShownDistinct (s s' : Station) (height height' : Option (BitVec 16)) : Prop :=
  s.station ≠ s'.station ∨ s.itrf ≠ s'.itrf ∨ s.gps ≠ s'.gps ∨ s.glo ≠ s'.glo ∨ s.gal ≠ s'.gal ∨
    rounded s.x.toInt ≠ rounded s'.x.toInt ∨ rounded s.y.toInt ≠ rounded s'.y.toInt ∨
    rounded s.z.toInt ≠ rounded s'.z.toInt ∨
    height.map (fun h => rounded h.toNat) ≠ height'.map fun h => rounded h.toNat

/-- A station message prints its items as keys and values in a row. -/
theorem summary_items (s : Station) (height : Option (BitVec 16)) :
    summary line (s.message height).items =
      ((s.message height).items.map Item.pair).flatMap fun p => p.1 ++ p.2 := by
  cases height <;> simp [Station.message, Message.items, Station.items, summary, Item.print,
    Item.pair]

/-- The key begins with a space, and there is none in the text. -/
def Item.Plain (item : Item) : Prop := (∃ k, item.pair.1 = 32 :: k) ∧ 32 ∉ item.pair.2

theorem plain_number {key : String} (h : (ascii key).head? = some 32) (v : ℤ) :
    (Item.number key v).Plain := ⟨List.head?_eq_some_iff.1 h, notMem_decimal v⟩

theorem plain_scaled {key : String} (h : (ascii key).head? = some 32) (v : ℤ) :
    (Item.scaled key v).Plain := ⟨List.head?_eq_some_iff.1 h, notMem_metres v⟩

/-- Every item of a station message is plain: a key that starts with a blank, and a value without
    one. -/
theorem plain_items (s : Station) (height : Option (BitVec 16)) :
    ∀ item ∈ (s.message height).items, item.Plain := by
  have hstation : ∀ item ∈ s.items, item.Plain := by
    simp only [Station.items, List.forall_mem_cons]
    exact ⟨plain_number rfl _, plain_number rfl _, plain_scaled rfl _, plain_scaled rfl _,
      plain_scaled rfl _, plain_number rfl _, plain_number rfl _, plain_number rfl _,
      fun _ h => absurd h List.not_mem_nil⟩
  cases height with
  | none => exact hstation
  | some h =>
    exact List.forall_mem_append.2 ⟨hstation, List.forall_mem_singleton.2 (plain_scaled rfl _)⟩

/-- The texts of the fields differ where the fields do, after the rounding. -/
theorem map_pair_eq_iff {s s' : Station} {height height' : Option (BitVec 16)}
    (h : height.isSome = height'.isSome) :
    (s.message height).items.map Item.pair = (s'.message height').items.map Item.pair ↔
      ¬ShownDistinct s s' height height' := by
  have hnat {w : ℕ} (v v' : BitVec w) : (v.toNat : ℤ) = v'.toNat ↔ v = v' := by
    rw [Int.natCast_inj, BitVec.toNat_inj]
  rw [ShownDistinct]
  rcases height with _ | height <;> rcases height' with _ | height'
  · simp only [Station.message, Message.items, Station.items, List.map_cons, Item.pair,
      List.cons.injEq, Prod.mk.injEq, decimal_inj, metres_eq_iff, hnat]
    tauto
  · exact absurd h (by simp)
  · exact absurd h (by simp)
  · simp only [Station.message, Message.items, Station.items, List.cons_append, List.nil_append,
      List.map_cons, List.map_nil, Item.pair, List.cons.injEq, Prod.mk.injEq, decimal_inj,
      metres_eq_iff, hnat, Option.map_some, Ne, Option.some.injEq]
    tauto

/-- The keys of two messages of one type are the same. -/
theorem map_key_eq {s s' : Station} {height height' : Option (BitVec 16)}
    (h : height.isSome = height'.isSome) :
    ((s.message height).items.map Item.pair).map Prod.fst =
      ((s'.message height').items.map Item.pair).map Prod.fst := by
  rcases height with _ | height <;> rcases height' with _ | height'
  · simp only [Station.message, Message.items, Station.items, List.map_cons, List.map_nil,
      Item.pair]
  · exact absurd h (by simp)
  · exact absurd h (by simp)
  · simp only [Station.message, Message.items, Station.items, List.cons_append, List.nil_append,
      List.map_cons, List.map_nil, Item.pair]

/-- Two summaries of one shape agree exactly if no coordinate or height is shown differently. -/
theorem summary_eq_iff (head : List Item) {s s' : Station} {height height' : Option (BitVec 16)}
    (h : height.isSome = height'.isSome) :
    summary line (head ++ (s.message height).items) =
        summary line (head ++ (s'.message height').items) ↔
      ¬ShownDistinct s s' height height' := by
  have happend (items : List Item) :
      summary line (head ++ items) = summary line head ++ summary line items := List.flatMap_append
  rw [happend, happend, List.append_right_inj, summary_items, summary_items, ← map_pair_eq_iff h]
  refine ⟨fun heq => ?_, fun heq => by rw [heq]⟩
  have hplain := plain_items s height
  have hplain' := plain_items s' height'
  refine flatMap_fields_inj (map_key_eq h) ?_ ?_ ?_ heq
  · exact List.forall_mem_map.2 fun item hitem => (hplain item hitem).1
  · exact List.forall_mem_map.2 fun item hitem => (hplain item hitem).2
  · exact List.forall_mem_map.2 fun item hitem => (hplain' item hitem).2

/-- The height decides the type, so two stations of one shape have one type. -/
theorem type_message {s s' : Station} {height height' : Option (BitVec 16)}
    (h : height.isSome = height'.isSome) : (s.message height).type = (s'.message height').type := by
  rcases height with _ | height <;> rcases height' with _ | height'
  · rfl
  · exact absurd h (by simp)
  · exact absurd h (by simp)
  · rfl

/-- Two payloads of the type 1005, or of the type 1006, of equal length have different
    summaries if and only if a field that is shown differs after the rounding. -/
theorem summaries_differ_iff (line : SigInfo → Msm.Observation → Bytes) {s s' : Station}
    {height height' : Option (BitVec 16)} (h : height.isSome = height'.isSome)
    {payload payload' : Bytes} (hbits : (s.message height).bits <+: bitsOf payload)
    (hbits' : (s'.message height').bits <+: bitsOf payload')
    (hlen : payload.length = payload'.length) (hroom : 8 * payload.length + 64 < 2 ^ 64) :
    ∃ items items', decode payload = .ok items ∧ decode payload' = .ok items' ∧
      (summary line items ≠ summary line items' ↔ ShownDistinct s s' height height') := by
  refine ⟨_, _, decode_of_bits hbits hroom, decode_of_bits hbits' (hlen ▸ hroom), ?_⟩
  rw [← type_message h, ← hlen, Ne, summary_eq_iff _ h, not_not]

/-- A station on the axis `x`, at this coordinate. -/
def onAxis (x : BitVec 38) : Station := ⟨1, 0, 1, 1, 1, 0, x, 0, 0, 0, 0, 0⟩

theorem bits_prefix_encode (m : Message) : m.bits <+: bitsOf m.encode := by
  obtain ⟨fill, hfill⟩ := bitsOf_pack m.bits
  exact ⟨fill, hfill.symm⟩

theorem length_encode_onAxis (x : BitVec 38) : (Message.m1005 (onAxis x)).encode.length = 19 := by
  simp [Message.encode, length_pack, Message.bits, Message.fields, Station.fields]

theorem summaries_differ_iff_onAxis :
    ∃ items items', decode (Message.m1005 (onAxis 41000000000)).encode = .ok items ∧
      decode (Message.m1005 (onAxis 42000000000)).encode = .ok items' ∧
      (summary (fun _ _ => []) items ≠ summary (fun _ _ => []) items' ↔
        ShownDistinct (onAxis 41000000000) (onAxis 42000000000) none none) :=
  @summaries_differ_iff (fun _ _ => []) _ _ none none rfl _ _
    (bits_prefix_encode _) (bits_prefix_encode _)
    (by rw [length_encode_onAxis, length_encode_onAxis]) (by rw [length_encode_onAxis]; decide)

/-- Two stations that are a tenth of a millimetre apart have the same summary. -/
theorem summaries_onAxis_eq : (onAxis 41000000000).x ≠ (onAxis 41000000001).x ∧
    ∃ items items', decode (Message.m1005 (onAxis 41000000000)).encode = .ok items ∧
      decode (Message.m1005 (onAxis 41000000001)).encode = .ok items' ∧
      summary (fun _ _ => []) items = summary (fun _ _ => []) items' := by
  have hroom (x : BitVec 38) : 8 * (Message.m1005 (onAxis x)).encode.length + 64 < 2 ^ 64 := by
    rw [length_encode_onAxis]
    decide
  have hdecode (x : BitVec 38) :=
    decode_of_bits (bits_prefix_encode (.m1005 (onAxis x))) (hroom x)
  refine ⟨by decide, _, _, hdecode _, hdecode _, ?_⟩
  rw [length_encode_onAxis, length_encode_onAxis]
  refine (@summary_eq_iff _ _ _ _ none none rfl).2 ?_
  have hlog : Nat.log 10 41000000000 = 10 :=
    Nat.log_eq_of_pow_le_of_lt_pow (by decide) (by decide)
  have hlog' : Nat.log 10 41000000001 = 10 :=
    Nat.log_eq_of_pow_le_of_lt_pow (by decide) (by decide)
  have hsix : sixDigits 41000000000 = 41000000000 := by rw [sixDigits, hlog]; decide
  have hsix' : sixDigits 41000000001 = 41000000000 := by rw [sixDigits, hlog']; decide
  have hx : (onAxis 41000000000).x.toInt = 41000000000 := by decide
  have hx' : (onAxis 41000000001).x.toInt = 41000000001 := by decide
  have hrounded : rounded (onAxis 41000000000).x.toInt = rounded (onAxis 41000000001).x.toInt := by
    rw [hx, hx', rounded, rounded, if_neg (by decide), if_neg (by decide)]
    exact congrArg Nat.cast (hsix.trans hsix'.symm)
  simp only [ShownDistinct, hrounded]
  simp [onAxis]

end RtcmBridge.RtcmMessageDecoder

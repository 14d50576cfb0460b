import RtcmBridge.MessageDecoder.Safety
import Mathlib.Tactic

/-!
# The dispatcher

A payload of two bytes or more is decoded by the decoder of its type, from the bit
12 on (`decode_eq_decoder`).
-/

namespace RtcmBridge.RtcmMessageDecoder

open BitReader

variable {payload : Bytes} {decoder : ℕ → Reading (Option (List Item))}
  {before after : List (ℕ → Reading (Option (List Item)))} {type : ℕ} {items : List Item}
  {text : String}

/-- The type that a payload announces. -/
def messageType (payload : Bytes) : ℕ := natOf ((bitsOf payload).take 12)

/-- The decoder of a type: those before it decline. -/
structure Decodes (type : ℕ) (decoder : ℕ → Reading (Option (List Item))) : Prop where
  split : ∃ before after, decoders = before ++ decoder :: after ∧
    ∀ d ∈ before, d type = pure none

/-- The dispatch reaches the decoder of the type, with the bits untouched by those before it. -/
theorem Decodes.dispatch_eq (h : Decodes type decoder) : ∃ after, dispatch type decoders =
    decoder type >>= fun items => match items with
      | some items => pure items
      | none => dispatch type after := by
  obtain ⟨before, after, heq, hskip⟩ := h.split
  refine ⟨after, ?_⟩
  rw [heq]
  clear heq
  induction before with
  | nil => rfl
  | cons d before ih =>
    rw [List.cons_append, dispatch, hskip d (List.mem_cons_self ..), pure_bind]
    exact ih fun d hd => hskip d (List.mem_cons_of_mem _ hd)

/-- The type is read, and the decoder stands behind it. -/
theorem decode_eq (h : 2 ≤ payload.length) (hroom : 8 * payload.length + 64 < 2 ^ 64) :
    ∃ br : BitReader, br.At ((bitsOf payload).drop 12) ∧ decode payload =
      (printing (headItems (messageType payload) payload.length)
        (dispatch (messageType payload) decoders)).run' br := by
  have hlen : 12 ≤ (bitsOf payload).length := by rw [length_bitsOf]; omega
  obtain ⟨br, hget, hat⟩ := getU_of_le (n := 12) (at_new hroom) (by decide) hlen
  have htype : (unsigned ((bitsOf payload).take 12)).toNat = messageType payload :=
    toNat_unsigned ((List.length_take_le ..).trans (by decide))
  have hread : readPayload payload.length (.new payload) =
      printing (headItems (messageType payload) payload.length)
        (dispatch (messageType payload) decoders) br := by
    refine (bind_ok hget).trans ?_
    simp only [htype]
  exact ⟨br, hat, by rw [decode, if_neg (by omega), StateT.run', StateT.run', hread]⟩

/-- What the decoder of the type writes is written behind the head of the summary, and
    so is an error that it reports. -/
theorem decode_eq_decoder (hlen : 2 ≤ payload.length) (hroom : 8 * payload.length + 64 < 2 ^ 64)
    (hdec : Decodes (messageType payload) decoder) :
    ∃ br : BitReader, br.At ((bitsOf payload).drop 12) ∧
      (∀ items br', decoder (messageType payload) br = .ok (some items, br') →
        decode payload = .ok (headItems (messageType payload) payload.length ++ items)) ∧
      (∀ text, decoder (messageType payload) br = .error (.report text) →
        decode payload =
          .ok (headItems (messageType payload) payload.length ++ [.error text])) := by
  obtain ⟨br, hat, heq⟩ := decode_eq hlen hroom
  obtain ⟨after, hdispatch⟩ := hdec.dispatch_eq
  refine ⟨br, hat, fun items br' h => ?_, fun text h => ?_⟩
  · have hitems : dispatch (messageType payload) decoders br = .ok (items, br') := by
      rw [hdispatch, bind_ok h]
      rfl
    rw [heq, StateT.run', printing, hitems]
    rfl
  · have hitems : dispatch (messageType payload) decoders br = .error (.report text) := by
      rw [hdispatch, bind_error h]
    rw [heq, StateT.run', printing, hitems]
    rfl

/-- What a decoder reports ends the line, after the header and nothing else. -/
theorem decode_of_error (hlen : 2 ≤ payload.length) (hroom : 8 * payload.length + 64 < 2 ^ 64)
    (hdec : Decodes (messageType payload) decoder)
    (h : ∀ br : BitReader, br.At ((bitsOf payload).drop 12) →
      decoder (messageType payload) br = .error (.report text)) :
    decode payload = .ok (headItems (messageType payload) payload.length ++ [.error text]) := by
  obtain ⟨br, hat, _, herror⟩ := decode_eq_decoder hlen hroom hdec
  exact herror text (h br hat)

/-- A decoder that reads some first bits behind the type. -/
theorem decode_of_reads {l : List Bool} (hlen : 2 ≤ payload.length)
    (hroom : 8 * payload.length + 64 < 2 ^ 64) (hdec : Decodes (messageType payload) decoder)
    (hread : Reads (decoder (messageType payload)) l (some items))
    (hl : l <+: (bitsOf payload).drop 12) :
    decode payload = .ok (headItems (messageType payload) payload.length ++ items) := by
  obtain ⟨br, hat, hok, _⟩ := decode_eq_decoder hlen hroom hdec
  obtain ⟨rest, hrest⟩ := hl
  obtain ⟨br', h, _⟩ := hread br rest (hrest ▸ hat)
  exact hok items br' h

/-- A type of more than eight bits is announced in two bytes at least. -/
theorem two_le_length (h : 2 ^ 8 ≤ messageType payload) : 2 ≤ payload.length := by
  by_contra hshort
  have hlt := natOf_lt ((bitsOf payload).take 12)
  have hpow : 2 ^ ((bitsOf payload).take 12).length ≤ 2 ^ 8 := by
    refine Nat.pow_le_pow_right two_pos ?_
    rw [List.length_take, length_bitsOf]
    omega
  rw [messageType] at h
  omega

/-- The type is in the first two bytes, so bytes behind them do not change it. -/
theorem messageType_append (h : 2 ≤ payload.length) (more : Bytes) :
    messageType (payload ++ more) = messageType payload := by
  rw [messageType, bitsOf_append, List.take_append_of_le_length (by rw [length_bitsOf]; omega),
    messageType]

/-! ### The decoders of the types -/

theorem decodes1005_1006 : Decodes type decode1005_1006 := ⟨[], _, rfl, by simp⟩

theorem decodes1007_1008 (h : type = 1007 ∨ type = 1008) : Decodes type decode1007_1008 := by
  refine ⟨[decode1005_1006], _, rfl, ?_⟩
  simp only [List.forall_mem_singleton]
  exact if_pos (by omega)

theorem decodes1033 (h : type = 1033) : Decodes type decode1033 := by
  refine ⟨[decode1005_1006, decode1007_1008], _, rfl, ?_⟩
  simp only [List.forall_mem_cons]
  exact ⟨if_pos (by omega), if_pos (by omega), fun _ h => absurd h List.not_mem_nil⟩

theorem decodes1013 : Decodes 1013 decode1013 := by
  refine ⟨[decode1005_1006, decode1007_1008, decode1033], _, rfl, ?_⟩
  simp only [List.forall_mem_cons]
  exact ⟨if_pos (by decide), if_pos (by decide), if_pos (by decide),
    fun _ h => absurd h List.not_mem_nil⟩

theorem decodes1019 (h : type = 1019) : Decodes type decode1019 := by
  refine ⟨[decode1005_1006, decode1007_1008, decode1033, decode1013], _, rfl, ?_⟩
  simp only [List.forall_mem_cons]
  exact ⟨if_pos (by omega), if_pos (by omega), if_pos (by omega), if_pos (by omega),
    fun _ h => absurd h List.not_mem_nil⟩

theorem decodes1020 (h : type = 1020) : Decodes type decode1020 := by
  refine ⟨[decode1005_1006, decode1007_1008, decode1033, decode1013, decode1019], _, rfl, ?_⟩
  simp only [List.forall_mem_cons]
  exact ⟨if_pos (by omega), if_pos (by omega), if_pos (by omega), if_pos (by omega),
    if_pos (by omega), fun _ h => absurd h List.not_mem_nil⟩

theorem decodes1045_1046 (h : type = 1045 ∨ type = 1046) : Decodes type decode1045_1046 := by
  refine ⟨[decode1005_1006, decode1007_1008, decode1033, decode1013, decode1019, decode1020], _,
    rfl, ?_⟩
  simp only [List.forall_mem_cons]
  exact ⟨if_pos (by omega), if_pos (by omega), if_pos (by omega), if_pos (by omega),
    if_pos (by omega), if_pos (by omega), fun _ h => absurd h List.not_mem_nil⟩

theorem decodes1230 (h : type = 1230) : Decodes type decode1230 := by
  refine ⟨[decode1005_1006, decode1007_1008, decode1033, decode1013, decode1019, decode1020,
    decode1045_1046], _, rfl, ?_⟩
  simp only [List.forall_mem_cons]
  exact ⟨if_pos (by omega), if_pos (by omega), if_pos (by omega), if_pos (by omega),
    if_pos (by omega), if_pos (by omega), if_pos (by omega), fun _ h => absurd h List.not_mem_nil⟩

theorem decodesMsm (h : 1071 ≤ type ∧ type ≤ 1127) : Decodes type decodeMsm := by
  refine ⟨[decode1005_1006, decode1007_1008, decode1033, decode1013, decode1019, decode1020,
    decode1045_1046, decode1230], _, rfl, ?_⟩
  simp only [List.forall_mem_cons]
  exact ⟨if_pos (by omega), if_pos (by omega), if_pos (by omega), if_pos (by omega),
    if_pos (by omega), if_pos (by omega), if_pos (by omega), if_pos (by omega),
    fun _ h => absurd h List.not_mem_nil⟩

end RtcmBridge.RtcmMessageDecoder

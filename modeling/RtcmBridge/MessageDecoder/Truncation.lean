import RtcmBridge.MessageDecoder.Dispatch
import RtcmBridge.MessageDecoder.Safety

/-!
# Truncated messages

A reading *goes on* if, with more bits behind those that it stands before, it writes the same
as without them, or, where it has reported an error, what it had written until then and
perhaps more (`GoesOn`). So does a reading that settles; and what is put together from
readings that settle, the last of which may write before it reports its error.

All decoders do but those of the descriptors, which take a string that is cut off for a
whole one. So the summary of a truncated message of another type tells nothing that the
summary of the whole message does not (`decode_truncated`).
-/

namespace RtcmBridge.RtcmMessageDecoder

open BitReader

/-- `x` writes the items, or reports an error, which is written. -/
inductive Writes (x : Reading (List Item)) (br : BitReader) : List Item → Prop
  | ok {items : List Item} {br' : BitReader} (h : x br = .ok (items, br')) : Writes x br items
  | error {text : String} (h : x br = .error (.report text)) : Writes x br [.error text]

/-- `items'` is `items`, or goes on where `items` has an error. -/
def Extends (items items' : List Item) : Prop :=
  items' = items ∨ ∃ written text, items = written ++ [.error text] ∧ written <+: items'

/-- With more bits `x` writes the same, or goes on where it has reported an error. -/
def GoesOn (x : Reading (List Item)) : Prop :=
  ∀ l m br br', br.At l → br'.At (l ++ m) →
    ∃ items items', Writes x br items ∧ Writes x br' items' ∧ Extends items items'

/-- A decoder that goes on, if the decoders behind it do. -/
def Answers (x : Reading (Option (List Item))) : Prop :=
  ∀ rest, GoesOn rest → GoesOn (x >>= fun o => o.elim rest pure)

variable {α : Type} {x : Reading α} {P : α → Prop} {items items' : List Item}
  {br br' : BitReader} {type n : ℕ} {a : α}

/-- What is printed first does not change whether one line continues another. -/
theorem Extends.append (before : List Item) (h : Extends items items') :
    Extends (before ++ items) (before ++ items') := by
  rcases h with rfl | ⟨written, text, rfl, hpre⟩
  · exact .inl rfl
  · exact .inr ⟨before ++ written, text, (List.append_assoc ..).symm,
      (List.prefix_append_right_inj before).2 hpre⟩

/-- What is written is written behind what has been written. -/
theorem Writes.printing {x : Reading (List Item)} (before : List Item) (h : Writes x br items) :
    ∃ br', RtcmMessageDecoder.printing before x br = .ok (before ++ items, br') := by
  cases h with
  | ok h => exact ⟨_, by rw [RtcmMessageDecoder.printing, h]⟩
  | error h => exact ⟨_, by rw [RtcmMessageDecoder.printing, h]⟩

/-- What the rest writes is what the whole writes, once the first reading is through. -/
theorem Writes.bind {f : α → Reading (List Item)} (hx : x br = .ok (a, br'))
    (h : Writes (f a) br' items) : Writes (x >>= f) br items := by
  cases h with
  | ok h => exact .ok ((bind_ok hx).trans h)
  | error h => exact .error ((bind_ok hx).trans h)

/-! ### Readings that go on -/

namespace GoesOn

/-- A reading that goes on always writes something. -/
theorem exists_writes {x : Reading (List Item)} {l : List Bool} (h : GoesOn x) (hat : br.At l) :
    ∃ items, Writes x br items :=
  let ⟨items, _, hitems, _⟩ := h l [] br br hat ((List.append_nil l).symm ▸ hat)
  ⟨items, hitems⟩

/-- What reads nothing writes the same of every payload. -/
theorem pure (items : List Item) : GoesOn (pure items) := fun _ _ _ _ _ _ =>
  ⟨items, items, .ok rfl, .ok rfl, .inl rfl⟩

/-- What settles, and then what goes on. -/
theorem bind {f : α → Reading (List Item)} (hx : Settles x P) (hf : ∀ a, P a → GoesOn (f a)) :
    GoesOn (x >>= f) := by
  have hwrites {l : List Bool} {br : BitReader} (hat : br.At l) :
      ∃ items, Writes (x >>= f) br items := by
    rcases hx l with ⟨l₁, l₂, a, rfl, hread, ha⟩ | ⟨text, htext⟩
    · obtain ⟨b, hb, hatb⟩ := hread br l₂ hat
      obtain ⟨items, h⟩ := (hf a ha).exists_writes hatb
      exact ⟨items, h.bind hb⟩
    · exact ⟨_, .error (bind_error (htext br hat))⟩
  intro l m br br' hat hat'
  rcases hx l with ⟨l₁, l₂, a, rfl, hread, ha⟩ | ⟨text, htext⟩
  · rw [List.append_assoc] at hat'
    obtain ⟨b, hb, hatb⟩ := hread br l₂ hat
    obtain ⟨b', hb', hatb'⟩ := hread br' (l₂ ++ m) hat'
    obtain ⟨items, items', h, h', hext⟩ := hf a ha l₂ m b b' hatb hatb'
    exact ⟨items, items', h.bind hb, h'.bind hb', hext⟩
  · obtain ⟨items', h'⟩ := hwrites hat'
    exact ⟨_, items', .error (bind_error (htext br hat)), h',
      .inr ⟨[], text, rfl, List.nil_prefix⟩⟩

/-- Printing first keeps a reading going on. -/
theorem printing {x : Reading (List Item)} (before : List Item) (hx : GoesOn x) :
    GoesOn (printing before x) := by
  intro l m br br' hat hat'
  obtain ⟨items, items', h, h', hext⟩ := hx l m br br' hat hat'
  obtain ⟨b, hb⟩ := h.printing before
  obtain ⟨b', hb'⟩ := h'.printing before
  exact ⟨_, _, .ok hb, .ok hb', hext.append before⟩

end GoesOn

namespace Answers

theorem none : Answers (pure none) := fun rest hrest => by
  rw [pure_bind]
  exact hrest

theorem some (items : List Item) : Answers (pure (some items)) := fun _ _ => by
  rw [pure_bind]
  exact .pure items

/-- A decoder that answers with its items answers as they do. -/
theorem map {x : Reading (List Item)} (hx : GoesOn x) : Answers (Option.some <$> x) :=
  fun rest _ => by
    rw [bind_map_left]
    exact (bind_pure x).symm ▸ hx

/-- A settled read in front of an answer: cut there, it writes one error and the longer payload
    goes on. -/
theorem bind {f : α → Reading (Option (List Item))} (hx : Settles x P)
    (hf : ∀ a, P a → Answers (f a)) : Answers (x >>= f) := fun rest hrest => by
  rw [bind_assoc]
  exact .bind hx fun a ha => hf a ha rest hrest

/-- The case of an unsigned field. -/
theorem bind_getU {text : String} {f : UInt64 → Reading (Option (List Item))} (hn : n ≤ 64)
    (hf : ∀ v, Answers (f v)) : Answers (need text (getU n) >>= f) :=
  bind (Settles.getU text hn) fun v _ => hf v

/-- The case of a signed field. -/
theorem bind_getS {text : String} {f : ℤ → Reading (Option (List Item))} (hn : n < 64)
    (hf : ∀ v, Answers (f v)) : Answers (need text (getS n) >>= f) :=
  bind (Settles.getS text hn) fun v _ => hf v

end Answers

/-! ### The decoders -/

theorem answers_decode1005_1006 (type : ℕ) : Answers (decode1005_1006 type) := by
  rw [decode1005_1006]
  split_ifs with _ h
  · exact .none
  all_goals
    refine .bind_getU (by decide) fun _ => ?_
    refine .bind_getU (by decide) fun _ => ?_
    refine .bind_getU (by decide) fun _ => ?_
    refine .bind_getU (by decide) fun _ => ?_
    refine .bind_getU (by decide) fun _ => ?_
    refine .bind_getU (by decide) fun _ => ?_
    refine .bind_getS (by decide) fun _ => ?_
    refine .bind_getU (by decide) fun _ => ?_
    refine .bind_getU (by decide) fun _ => ?_
    refine .bind_getS (by decide) fun _ => ?_
    refine .bind_getU (by decide) fun _ => ?_
    refine .bind_getS (by decide) fun _ => ?_
    refine .map (.printing _ ?_)
  · exact .bind (Settles.getU _ (by decide)) fun _ _ => .pure _
  · exact .pure _

theorem answers_decode1013 (type : ℕ) : Answers (decode1013 type) := by
  rw [decode1013]
  split_ifs
  · exact .none
  refine .bind_getU (by decide) fun _ => ?_
  refine .bind_getU (by decide) fun _ => ?_
  refine .bind_getU (by decide) fun _ => ?_
  refine .bind_getU (by decide) fun _ => ?_
  exact .map (.printing _ (.bind (Settles.mapM _ fun _ _ => settles_readAnnouncement)
    fun _ _ => .pure _))

theorem answers_decode1019 (type : ℕ) : Answers (decode1019 type) := by
  rw [decode1019]
  split_ifs
  · exact .none
  refine .bind_getU (by decide) fun _ => ?_
  refine .bind_getU (by decide) fun _ => ?_
  refine .bind_getU (by decide) fun _ => ?_
  refine .bind_getU (by decide) fun _ => ?_
  refine .bind_getS (by decide) fun _ => ?_
  exact .bind_getU (by decide) fun _ => .some _

theorem answers_decode1020 (type : ℕ) : Answers (decode1020 type) := by
  rw [decode1020]
  split_ifs
  · exact .none
  refine .bind_getU (by decide) fun _ => ?_
  refine .bind_getU (by decide) fun _ => ?_
  refine .bind_getU (by decide) fun _ => ?_
  refine .bind_getU (by decide) fun _ => ?_
  exact .bind_getU (by decide) fun _ => .some _

theorem answers_decode1045_1046 (type : ℕ) : Answers (decode1045_1046 type) := by
  rw [decode1045_1046]
  split_ifs
  · exact .none
  refine .bind_getU (by decide) fun _ => ?_
  refine .bind_getU (by decide) fun _ => ?_
  refine .bind_getU (by decide) fun _ => ?_
  exact .bind_getU (by decide) fun _ => .some _

theorem answers_decode1230 (type : ℕ) : Answers (decode1230 type) := by
  rw [decode1230]
  split_ifs
  · exact .none
  refine .bind_getU (by decide) fun _ => ?_
  refine .bind_getU (by decide) fun _ => ?_
  exact .bind_getU (by decide) fun _ => .some _

/-- An MSM is decoded in one go, so a cut one writes an error and nothing else. -/
theorem answers_decodeMsm (type : ℕ) : Answers (decodeMsm type) := by
  refine .bind (Msm.settles_decodeMsm type) fun report _ => ?_
  cases report with
  | none => exact .none
  | some report => exact .some _

/-- A message with strings, which `readAscii` may cut off. -/
def IsDescriptor (type : ℕ) : Prop := type = 1007 ∨ type = 1008 ∨ type = 1033

instance (type : ℕ) : Decidable (IsDescriptor type) := inferInstanceAs (Decidable (_ ∨ _))

/-- The dispatch goes on if each decoder answers for the type. -/
theorem goesOn_dispatch {decoders : List (ℕ → Reading (Option (List Item)))}
    (h : ∀ decoder ∈ decoders, Answers (decoder type)) : GoesOn (dispatch type decoders) := by
  induction decoders with
  | nil => exact .pure []
  | cons decoder decoders ih =>
    have hrest := ih fun d hd => h d (List.mem_cons_of_mem _ hd)
    have heq : dispatch type (decoder :: decoders) =
        decoder type >>= fun o => o.elim (dispatch type decoders) pure := by
      rw [dispatch]
      congr 1
      funext o
      cases o <;> rfl
    rw [heq]
    exact h decoder (List.mem_cons_self ..) _ hrest

/-- All decoders answer, but for the descriptors, whose texts are cut in silence. -/
theorem answers_decoders (htype : ¬IsDescriptor type) :
    ∀ decoder ∈ decoders, Answers (decoder type) := by
  rw [IsDescriptor, not_or, not_or] at htype
  have h1007_1008 : decode1007_1008 type = pure none := if_pos ⟨htype.1, htype.2.1⟩
  have h1033 : decode1033 type = pure none := if_pos htype.2.2
  simp only [decoders, List.forall_mem_cons]
  refine ⟨answers_decode1005_1006 type, h1007_1008 ▸ .none, h1033 ▸ .none,
    answers_decode1013 type, answers_decode1019 type, answers_decode1020 type,
    answers_decode1045_1046 type, answers_decode1230 type, answers_decodeMsm type,
    fun _ h => absurd h List.not_mem_nil⟩

/-- **A truncated message shows nothing wrong.** The summary of a payload, whatever its type
    but for the descriptors, and that of the payload with more bytes behind it: behind the
    head, which has the length, they are the same, or the first one has an error at its end,
    and the second one goes on in its place. -/
theorem decode_truncated {payload more : Bytes} (hlen : 2 ≤ payload.length)
    (hroom : 8 * (payload ++ more).length + 64 < 2 ^ 64)
    (htype : ¬IsDescriptor (messageType payload)) :
    ∃ items items', Extends items items' ∧
      decode payload = .ok (headItems (messageType payload) payload.length ++ items) ∧
      decode (payload ++ more) =
        .ok (headItems (messageType payload) (payload ++ more).length ++ items') := by
  have hle : payload.length ≤ (payload ++ more).length := by
    rw [List.length_append]
    exact Nat.le_add_right ..
  obtain ⟨br, hat, heq⟩ := decode_eq hlen (by omega)
  obtain ⟨br', hat', heq'⟩ := decode_eq (hlen.trans hle) hroom
  rw [messageType_append hlen] at heq'
  rw [bitsOf_append, List.drop_append_of_le_length (by rw [length_bitsOf]; omega)] at hat'
  obtain ⟨items, items', h, h', hext⟩ :=
    goesOn_dispatch (answers_decoders htype) _ _ br br' hat hat'
  obtain ⟨b, hb⟩ := h.printing (headItems (messageType payload) payload.length)
  obtain ⟨b', hb'⟩ := h'.printing (headItems (messageType payload) (payload ++ more).length)
  refine ⟨items, items', hext, ?_, ?_⟩
  · rw [heq, StateT.run', hb]
    rfl
  · rw [heq', StateT.run', hb']
    rfl

/-- A message of type 1006, and its end: the antenna height. -/
def withoutHeight : Bytes := 0x3E :: 0xE0 :: List.replicate 17 0

theorem decode_truncated_withoutHeight : ∃ items items', Extends items items' ∧
    decode withoutHeight =
      .ok (headItems (messageType withoutHeight) withoutHeight.length ++ items) ∧
    decode (withoutHeight ++ [0x2A, 0xF8]) = .ok (headItems (messageType withoutHeight)
      (withoutHeight ++ [0x2A, 0xF8]).length ++ items') :=
  decode_truncated (by decide) (by decide) (by decide +kernel)

end RtcmBridge.RtcmMessageDecoder

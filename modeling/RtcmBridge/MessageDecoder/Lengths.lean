import RtcmBridge.MessageDecoder.MsmLength
import RtcmBridge.MessageDecoder.Truncation

/-!
# The lengths of the messages

A reading *takes* `n` bits if it takes the next `n` bits wherever there are as many, and
reports an error elsewhere (`Takes`). For the messages of which each field does, the number
of bits decides whether the summary shows an error (`decode_error_iff`): it is fixed for
each type, but for the announcements of 1013, whose number is a field.
-/

namespace RtcmBridge.RtcmMessageDecoder

open BitReader

variable {α β : Type} {x : Reading α} {f : α → Reading β} {v : List Bool → α} {n k : ℕ}

/-- `x` takes the next `n` bits, and its value is `v` of them. -/
def Takes (x : Reading α) (n : ℕ) (v : List Bool → α) : Prop :=
  ∀ l br, br.At l →
    (n ≤ l.length → ∃ br', x br = .ok (v (l.take n), br') ∧ br'.At (l.drop n)) ∧
    (l.length < n → ∃ text, x br = .error (.report text))

/-- What `x` writes shows an error if and only if there are less bits than needed. -/
def Measured (need : List Bool → ℕ) (x : Reading (List Item)) : Prop :=
  ∀ l br, br.At l →
    ∃ items, Writes x br items ∧ (items.any Item.isError = true ↔ l.length < need l)

/-- A decoder of which this holds, whatever the decoders behind it do. -/
def MeasuredAnswer (need : List Bool → ℕ) (x : Reading (Option (List Item))) : Prop :=
  ∀ rest, Measured need (x >>= fun o => o.elim rest pure)

namespace Takes

/-- Returning a value takes no bits. -/
theorem pure (a : α) : Takes (pure a) 0 fun _ => a := fun _ br hat =>
  ⟨fun _ => ⟨br, rfl, hat⟩, fun h => absurd h (Nat.not_lt_zero _)⟩

/-- What two readings take adds up, and the second sees the bits behind the first. -/
theorem bind {w : α → List Bool → β} (hx : Takes x n v) (hf : ∀ a, Takes (f a) k (w a)) :
    Takes (x >>= f) (n + k) fun l => w (v (l.take n)) (l.drop n) := by
  intro l br hat
  obtain ⟨hok, herror⟩ := hx l br hat
  by_cases h : n ≤ l.length
  · obtain ⟨b, hb, hatb⟩ := hok h
    obtain ⟨hok', herror'⟩ := hf (v (l.take n)) (l.drop n) b hatb
    rw [List.length_drop] at hok' herror'
    constructor
    · intro hlen
      obtain ⟨b', hb', hatb'⟩ := hok' (by omega)
      refine ⟨b', ?_, ?_⟩
      · rw [bind_ok hb, hb']
        dsimp only
        rw [List.take_take, List.drop_take, Nat.min_eq_left (by omega), Nat.add_sub_cancel_left]
      · rw [← List.drop_drop]
        exact hatb'
    · intro hlen
      obtain ⟨text, htext⟩ := herror' (by omega)
      exact ⟨text, (bind_ok hb).trans htext⟩
  · obtain ⟨text, htext⟩ := herror (by omega)
    exact ⟨fun hlen => absurd hlen (by omega), fun _ => ⟨text, bind_error htext⟩⟩

/-- An unsigned field takes its width and is the value of its bits. -/
theorem getU (text : String) (hn : n ≤ 64) : Takes (need text (getU n)) n unsigned := by
  intro l br hat
  constructor
  · intro h
    obtain ⟨br', hget, hat'⟩ := getU_of_le hat hn h
    exact ⟨br', bind_ok hget, hat'⟩
  · intro h
    exact ⟨text, bind_ok (getU_of_lt hat hn h)⟩

/-- A signed field takes its width and is the two's complement value of its bits. -/
theorem getS (text : String) (hn : n < 64) : Takes (need text (getS n)) n signed := by
  intro l br hat
  constructor
  · intro h
    obtain ⟨br', hget, hat'⟩ := getS_of_le hat hn h
    exact ⟨br', bind_ok hget, hat'⟩
  · intro h
    exact ⟨text, bind_ok (getS_of_lt hat hn.le h)⟩

/-- A loop whose turns take as many bits each. -/
theorem mapM {ι : Type} {g : ι → Reading α} (hg : ∀ i, Takes (g i) n v) (is : List ι) :
    ∃ w, Takes (is.mapM g) (is.length * n) w := by
  induction is with
  | nil =>
    rw [List.length_nil, Nat.zero_mul]
    exact ⟨_, Takes.pure []⟩
  | cons i is ih =>
    obtain ⟨w, hw⟩ := ih
    rw [List.mapM_cons, List.length_cons, Nat.succ_mul, Nat.add_comm]
    exact ⟨_, (hg i).bind fun a => hw.bind fun as => .pure (a :: as)⟩

end Takes

/-! ### What the decoders need -/

namespace Measured

theorem pure {items : List Item} (h : items.any Item.isError = false) :
    Measured (fun _ => 0) (pure items) := fun _ _ _ =>
  ⟨items, .ok rfl, by rw [h]; exact iff_of_false Bool.false_ne_true (Nat.not_lt_zero _)⟩

/-- The need of the rest is counted from where the first reading ends. -/
theorem bind {f : α → Reading (List Item)} {need : α → List Bool → ℕ} (hx : Takes x n v)
    (hf : ∀ a, Measured (need a) (f a)) :
    Measured (fun l => n + need (v (l.take n)) (l.drop n)) (x >>= f) := by
  intro l br hat
  obtain ⟨hok, herror⟩ := hx l br hat
  by_cases h : n ≤ l.length
  · obtain ⟨b, hb, hatb⟩ := hok h
    obtain ⟨items, hitems, hiff⟩ := hf (v (l.take n)) (l.drop n) b hatb
    refine ⟨items, hitems.bind hb, hiff.trans ?_⟩
    rw [List.length_drop]
    dsimp only
    omega
  · obtain ⟨text, htext⟩ := herror (by omega)
    exact ⟨[.error text], .error (bind_error htext), iff_of_true rfl (by dsimp only; omega)⟩

/-- Items printed first do not change the need, as long as none is an error. -/
theorem printing {x : Reading (List Item)} {need : List Bool → ℕ} {before : List Item}
    (h : before.any Item.isError = false) (hx : Measured need x) :
    Measured need (printing before x) := by
  intro l br hat
  obtain ⟨items, hitems, hiff⟩ := hx l br hat
  obtain ⟨b, hb⟩ := hitems.printing before
  refine ⟨before ++ items, .ok hb, ?_⟩
  rw [List.any_append, h, Bool.false_or]
  exact hiff

end Measured

namespace MeasuredAnswer

theorem some {items : List Item} (h : items.any Item.isError = false) :
    MeasuredAnswer (fun _ => 0) (pure (some items)) := fun _ => by
  rw [pure_bind]
  exact .pure h

/-- A decoder that answers has the need of its items. -/
theorem map {x : Reading (List Item)} {need : List Bool → ℕ} (hx : Measured need x) :
    MeasuredAnswer need (Option.some <$> x) := fun rest => by
  rw [bind_map_left]
  exact (bind_pure x).symm ▸ hx

/-- The need of an answer, counted from where the first reading ends. -/
theorem bind {f : α → Reading (Option (List Item))} {need : α → List Bool → ℕ}
    (hx : Takes x n v) (hf : ∀ a, MeasuredAnswer (need a) (f a)) :
    MeasuredAnswer (fun l => n + need (v (l.take n)) (l.drop n)) (x >>= f) := fun rest => by
  rw [bind_assoc]
  exact .bind hx fun a => hf a rest

/-- A field, before a part that needs `k` bits whatever they are. -/
theorem bind_getU {text : String} {f : UInt64 → Reading (Option (List Item))} (hn : n ≤ 64)
    (hf : ∀ v, MeasuredAnswer (fun _ => k) (f v)) :
    MeasuredAnswer (fun _ => k + n) (need text (getU n) >>= f) := by
  simpa only [Nat.add_comm] using bind (Takes.getU text hn) hf

theorem bind_getS {text : String} {f : ℤ → Reading (Option (List Item))} (hn : n < 64)
    (hf : ∀ v, MeasuredAnswer (fun _ => k) (f v)) :
    MeasuredAnswer (fun _ => k + n) (need text (getS n) >>= f) := by
  simpa only [Nat.add_comm] using bind (Takes.getS text hn) hf

end MeasuredAnswer

/-- A 1005 needs 140 bits behind its type. -/
theorem measured_decode1005 : MeasuredAnswer (fun _ => 140) (decode1005_1006 1005) := by
  rw [decode1005_1006, if_neg (by decide)]
  refine .bind_getU (by decide) fun _ => ?_
  refine .bind_getU (by decide) fun _ => ?_
  refine .bind_getU (by decide) fun _ => ?_
  refine .bind_getU (by decide) fun _ => ?_
  refine .bind_getU (by decide) fun _ => ?_
  refine .bind_getU (by decide) fun _ => ?_
  refine .bind_getS (by decide) fun _ => ?_
  refine .bind_getU (by decide) fun _ => ?_
  refine .bind_getU (by decide) fun _ => ?_
  refine .bind_getS (by decide) fun _ => ?_
  refine .bind_getU (by decide) fun _ => ?_
  refine .bind_getS (by decide) fun _ => ?_
  exact .map (.printing rfl (.pure rfl))

/-- A 1006 needs sixteen more, for the height of the antenna. -/
theorem measured_decode1006 : MeasuredAnswer (fun _ => 156) (decode1005_1006 1006) := by
  rw [decode1005_1006, if_neg (by decide)]
  refine .bind_getU (by decide) fun _ => ?_
  refine .bind_getU (by decide) fun _ => ?_
  refine .bind_getU (by decide) fun _ => ?_
  refine .bind_getU (by decide) fun _ => ?_
  refine .bind_getU (by decide) fun _ => ?_
  refine .bind_getU (by decide) fun _ => ?_
  refine .bind_getS (by decide) fun _ => ?_
  refine .bind_getU (by decide) fun _ => ?_
  refine .bind_getU (by decide) fun _ => ?_
  refine .bind_getS (by decide) fun _ => ?_
  refine .bind_getU (by decide) fun _ => ?_
  refine .bind_getS (by decide) fun _ => ?_
  have hheight : Measured (fun _ => 16)
      (need " decode_error=missing_antenna_height" (getU 16) >>= fun h =>
        pure [.scaled " ant_h=" h.toNat]) :=
    .bind (Takes.getU _ (by decide)) fun _ => .pure rfl
  exact .map (.printing rfl hheight)

/-- An announcement of 1013 takes 29 bits, whatever it announces. -/
theorem takes_readAnnouncement : ∃ v, Takes readAnnouncement 29 v :=
  ⟨_, (Takes.getU _ (by decide)).bind fun _ => (Takes.getU _ (by decide)).bind fun _ =>
    (Takes.getU _ (by decide)).bind fun _ => .pure ()⟩

/-- The announcements are behind three more fields, and their number. -/
theorem measured_decode1013 :
    MeasuredAnswer (fun l => 50 + 29 * (unsigned ((l.drop 45).take 5)).toNat)
      (decode1013 1013) := by
  have hloop (nmsg : ℕ) : Measured (fun _ => 29 * nmsg) (do
      let _turns ← (List.range nmsg).mapM fun _ => readAnnouncement
      pure []) := by
    obtain ⟨v, hv⟩ := takes_readAnnouncement
    obtain ⟨w, hw⟩ := Takes.mapM (fun _ => hv) (List.range nmsg)
    rw [List.length_range, Nat.mul_comm] at hw
    exact .bind hw fun _ => .pure rfl
  have hprint (stid mjd sod nmsg : UInt64) : Measured (fun _ => 29 * nmsg.toNat)
      (printing [.number " staid=" stid.toNat, .number " mjd=" mjd.toNat,
        .number " sod=" sod.toNat, .number " announcements=" nmsg.toNat] (do
          let _turns ← (List.range nmsg.toNat).mapM fun _ => readAnnouncement
          pure [])) :=
    .printing rfl (hloop nmsg.toNat)
  rw [decode1013, if_neg (by decide)]
  have h := MeasuredAnswer.bind (Takes.getU " decode_error=invalid_1013" (n := 12) (by decide))
    fun stid => .bind (Takes.getU " decode_error=invalid_1013" (n := 16) (by decide))
    fun mjd => .bind (Takes.getU " decode_error=invalid_1013" (n := 17) (by decide))
    fun sod => .bind (Takes.getU " decode_error=invalid_1013" (n := 5) (by decide))
    fun nmsg => .map (hprint stid mjd sod nmsg)
  simp only [List.drop_drop, ← Nat.add_assoc] at h
  exact h

theorem measured_decode1019 : MeasuredAnswer (fun _ => 44) (decode1019 1019) := by
  rw [decode1019, if_neg (by decide)]
  refine .bind_getU (by decide) fun _ => ?_
  refine .bind_getU (by decide) fun _ => ?_
  refine .bind_getU (by decide) fun _ => ?_
  refine .bind_getU (by decide) fun _ => ?_
  refine .bind_getS (by decide) fun _ => ?_
  exact .bind_getU (by decide) fun _ => .some rfl

/-- A 1020 is read up to the time of day only. -/
theorem measured_decode1020 : MeasuredAnswer (fun _ => 23) (decode1020 1020) := by
  rw [decode1020, if_neg (by decide)]
  refine .bind_getU (by decide) fun _ => ?_
  refine .bind_getU (by decide) fun _ => ?_
  refine .bind_getU (by decide) fun _ => ?_
  refine .bind_getU (by decide) fun _ => ?_
  exact .bind_getU (by decide) fun _ => .some rfl

theorem measured_decode1045_1046 {type : ℕ} (h : type = 1045 ∨ type = 1046) :
    MeasuredAnswer (fun _ => 36) (decode1045_1046 type) := by
  rw [decode1045_1046, if_neg (by omega)]
  refine .bind_getU (by decide) fun _ => ?_
  refine .bind_getU (by decide) fun _ => ?_
  refine .bind_getU (by decide) fun _ => ?_
  exact .bind_getU (by decide) fun _ => .some rfl

/-- A 1230 is read for 16 bits only, up to the reserved ones. -/
theorem measured_decode1230 : MeasuredAnswer (fun _ => 16) (decode1230 1230) := by
  rw [decode1230, if_neg (by decide)]
  refine .bind_getU (by decide) fun _ => ?_
  refine .bind_getU (by decide) fun _ => ?_
  exact .bind_getU (by decide) fun _ => .some rfl

/-- A type without a decoder. -/
theorem measured_unknown {type : ℕ} {ds : List (ℕ → Reading (Option (List Item)))}
    (h : ∀ d ∈ ds, d type = pure none) : Measured (fun _ => 0) (dispatch type ds) := by
  induction ds with
  | nil => exact .pure rfl
  | cons d ds ih =>
    rw [dispatch, h d (List.mem_cons_self ..), pure_bind]
    exact ih fun d' hd' => h d' (List.mem_cons_of_mem _ hd')

/-- The need of a type is the need of its decoder: the others read nothing. -/
theorem measured_dispatch {type : ℕ} {decoder : ℕ → Reading (Option (List Item))}
    {need : List Bool → ℕ} (hdec : Decodes type decoder)
    (h : MeasuredAnswer need (decoder type)) : Measured need (dispatch type decoders) := by
  obtain ⟨after, heq⟩ := hdec.dispatch_eq
  rw [heq]
  convert h (dispatch type after) using 2
  funext o
  cases o <;> rfl

/-- The bits that a message needs, if those of its payload are `bits`. -/
def neededBits (type : ℕ) (bits : List Bool) : ℕ :=
  if type = 1005 then 152
  else if type = 1006 then 168
  else if type = 1013 then 62 + 29 * natOf ((bits.drop 57).take 5)
  else if type = 1019 then 56
  else if type = 1020 then 35
  else if type = 1045 ∨ type = 1046 then 48
  else if type = 1230 then 28
  else 12

/-- A message of which each field takes its bits: no descriptor and no MSM. -/
def IsPlain (type : ℕ) : Prop := ¬IsDescriptor type ∧ ¬(1071 ≤ type ∧ type ≤ 1127)

instance (type : ℕ) : Decidable (IsPlain type) := inferInstanceAs (Decidable (_ ∧ _))

/-- What the decoder of a type needs behind the type. -/
theorem measured_of_isPlain {type : ℕ} (h : IsPlain type) :
    ∃ need, Measured need (dispatch type decoders) ∧
      ∀ bits : List Bool, 12 + need (bits.drop 12) = neededBits type bits := by
  by_cases h1005 : type = 1005
  · subst h1005
    exact ⟨_, measured_dispatch decodes1005_1006 measured_decode1005, fun _ => rfl⟩
  by_cases h1006 : type = 1006
  · subst h1006
    exact ⟨_, measured_dispatch decodes1005_1006 measured_decode1006, fun _ => rfl⟩
  by_cases h1013 : type = 1013
  · subst h1013
    refine ⟨_, measured_dispatch decodes1013 measured_decode1013, fun bits => ?_⟩
    rw [List.drop_drop, toNat_unsigned ((List.length_take_le ..).trans (by decide)),
      ← Nat.add_assoc]
    rfl
  by_cases h1019 : type = 1019
  · subst h1019
    exact ⟨_, measured_dispatch (decodes1019 rfl) measured_decode1019, fun _ => rfl⟩
  by_cases h1020 : type = 1020
  · subst h1020
    exact ⟨_, measured_dispatch (decodes1020 rfl) measured_decode1020, fun _ => rfl⟩
  by_cases h1045_1046 : type = 1045 ∨ type = 1046
  · refine ⟨_, measured_dispatch (decodes1045_1046 h1045_1046)
      (measured_decode1045_1046 h1045_1046), fun _ => ?_⟩
    rcases h1045_1046 with rfl | rfl <;> rfl
  by_cases h1230 : type = 1230
  · subst h1230
    exact ⟨_, measured_dispatch (decodes1230 rfl) measured_decode1230, fun _ => rfl⟩
  -- No decoder takes any other type, so it shows no error, however short it is.
  refine ⟨_, measured_unknown ?_, fun _ => ?_⟩
  · obtain ⟨hdescriptor, hmsm⟩ := h
    rw [IsDescriptor] at hdescriptor
    have hmsm' : decodeMsm type = pure none := by
      rw [decodeMsm, Msm.decodeMsm, if_pos (by omega), pure_bind]
      rfl
    simp only [decoders, List.forall_mem_cons]
    exact ⟨if_pos (by omega), if_pos (by omega), if_pos (by omega), if_pos (by omega),
      if_pos (by omega), if_pos (by omega), if_pos (by omega), if_pos (by omega), hmsm',
      fun _ h => absurd h List.not_mem_nil⟩
  · simp [neededBits, h1005, h1006, h1013, h1019, h1020, h1045_1046, h1230]

/-- **The length of a message decides.** The summary of a message, whatever its type but for
    the descriptors and MSM, shows an error if and only if the payload is shorter than the
    fields of the type. -/
theorem decode_error_iff {payload : Bytes} (hlen : 2 ≤ payload.length)
    (hroom : 8 * payload.length + 64 < 2 ^ 64) (htype : IsPlain (messageType payload)) :
    ∃ items, decode payload = .ok items ∧ (items.any Item.isError = true ↔
      8 * payload.length < neededBits (messageType payload) (bitsOf payload)) := by
  obtain ⟨need, hmeasured, hneed⟩ := measured_of_isPlain htype
  obtain ⟨br, hat, heq⟩ := decode_eq hlen hroom
  obtain ⟨items, hitems, hiff⟩ := hmeasured _ br hat
  obtain ⟨b, hb⟩ := hitems.printing (headItems (messageType payload) payload.length)
  refine ⟨_, by rw [heq, StateT.run', hb]; rfl, ?_⟩
  rw [List.any_append, any_isError_headItems, Bool.false_or, hiff, ← hneed, List.length_drop,
    length_bitsOf]
  omega

/-- A message with two announcements, of which the second one is cut off. -/
def cutAnnouncements : Bytes := [0x3F, 0x50, 0x00, 0x00, 0x00, 0x00, 0x00, 0x08] ++
  List.replicate 6 0

theorem decode_error_iff_cutAnnouncements : ∃ items, decode cutAnnouncements = .ok items ∧
    (items.any Item.isError = true ↔ 8 * cutAnnouncements.length <
      neededBits (messageType cutAnnouncements) (bitsOf cutAnnouncements)) :=
  decode_error_iff (by decide) (by decide) (by decide +kernel)

example : neededBits (messageType cutAnnouncements) (bitsOf cutAnnouncements) = 120 := by
  decide +kernel

end RtcmBridge.RtcmMessageDecoder

import RtcmBridge.MessageDecoder.RoundTrip
import Mathlib.Tactic

/-!
# Descriptors that are cut off

The fields of the messages 1007, 1008 and 1033 begin at bytes, so the decoder goes
from byte to byte. A string that the payload ends in is cut off without an error.
The next field is then missing, which is reported, but there is none behind the last
string of the messages 1008 and 1033 (`decode_descriptors_iff`).
-/

namespace RtcmBridge

open BitReader

variable {α β : Type} {payload : Bytes} {k : ℕ} {br : BitReader}

/-- Behind whole bytes, the bits are those of the bytes left. -/
theorem drop_bitsOf (k : ℕ) (data : Bytes) : (bitsOf data).drop (8 * k) = bitsOf (data.drop k) := by
  by_cases h : k ≤ data.length
  · have htake : (bitsOf (data.take k)).length = 8 * k := by
      rw [length_bitsOf, List.length_take, Nat.min_eq_left h]
    conv_lhs => rw [← List.take_append_drop k data, bitsOf_append, List.drop_left' htake]
  · rw [List.drop_of_length_le (by rw [length_bitsOf]; omega),
      List.drop_of_length_le (by omega)]
    rfl

/-- The reader stands before the byte `k` of the payload. -/
def AtByte (payload : Bytes) (k : ℕ) (br : BitReader) : Prop := br.At (bitsOf (payload.drop k))

/-- The characters that `readAscii` returns of the bytes from `k` on. -/
def charsFrom (payload : Bytes) (k n : ℕ) : Bytes := ((payload.drop k).take n).map shown

/-- A string that is longer than the payload is cut off at its end. -/
theorem readAscii_eq (n : ℕ) (hat : AtByte payload k br) :
    ∃ br', readAscii n br = .ok (charsFrom payload k n, br') ∧ AtByte payload (k + n) br' := by
  induction n generalizing k br with
  | zero => exact ⟨br, rfl, hat⟩
  | succ n ih =>
    rw [AtByte] at hat
    rw [readAscii]
    by_cases h : k < payload.length
    · rw [List.drop_eq_getElem_cons h, ← List.singleton_append, bitsOf_append] at hat
      have hbyte := reads_getU (length_natBits 8 payload[k].toNat) (by decide)
      obtain ⟨br₁, hget, hat₁⟩ := hbyte br _ (by simpa [bitsOf] using hat)
      obtain ⟨br₂, hread, hat₂⟩ := @ih (k + 1) br₁ hat₁
      refine ⟨br₂, ?_, by rwa [Nat.add_assoc, Nat.add_comm 1] at hat₂⟩
      refine (bind_ok hget).trans ((bind_ok hread).trans ?_)
      rw [charsFrom, charsFrom, List.drop_eq_getElem_cons h, List.take_succ_cons, List.map_cons,
        unsigned_byte]
      rfl
    · have hnil : payload.drop k = [] := List.drop_of_length_le (by omega)
      have hend : AtByte payload (k + (n + 1)) br := by
        rw [AtByte, List.drop_of_length_le (by omega)]
        rwa [hnil] at hat
      rw [hnil] at hat
      refine ⟨br, (bind_ok (getU_of_lt (n := 8) hat (by decide) (by decide))).trans ?_, hend⟩
      rw [charsFrom, hnil]
      rfl

/-- The place behind the string whose length is in the byte `k`. -/
def behind (payload : Bytes) (k : ℕ) : ℕ := k + 1 + (byteAt payload k).toNat

/-- The string whose length is in the byte `k`, as far as the payload goes. -/
def stringAt (payload : Bytes) (k : ℕ) : Bytes := charsFrom payload (k + 1) (byteAt payload k).toNat

/-- From the byte `k` on, `x` returns a value with `P`, or it reports an error and `E`
    holds. -/
def Ends (payload : Bytes) (k : ℕ) (x : Reading α) (P : α → Prop) (E : Prop) : Prop :=
  ∀ br, AtByte payload k br → (∃ a br', x br = .ok (a, br') ∧ P a) ∨
    ∃ text, x br = .error (.report text) ∧ E

namespace Ends

variable {P : α → Prop} {E : Prop} {text : String}

theorem pure {a : α} (h : P a) : Ends payload k (pure a) P E := fun br _ => .inl ⟨a, br, rfl, h⟩

theorem imp {x : Reading α} {P' : α → Prop} {E' : Prop} (hx : Ends payload k x P E)
    (hP : ∀ a, P a → P' a) (hE : E → E') : Ends payload k x P' E' := fun br hat =>
  (hx br hat).imp (fun ⟨a, br', h, ha⟩ => ⟨a, br', h, hP a ha⟩) fun ⟨text, h, hE'⟩ =>
    ⟨text, h, hE hE'⟩

/-- A byte, and then what comes behind it. -/
theorem bind_byte {f : UInt64 → Reading α}
    (hf : k < payload.length → ∀ v : UInt64, v.toNat = (byteAt payload k).toNat →
      Ends payload (k + 1) (f v) P E) (hshort : payload.length ≤ k → E) :
    Ends payload k (need text (getU 8) >>= f) P E := by
  intro br hat
  rw [AtByte] at hat
  by_cases h : k < payload.length
  · rw [List.drop_eq_getElem_cons h, ← List.singleton_append, bitsOf_append] at hat
    have hbyte := (reads_getU (length_natBits 8 payload[k].toNat) (by decide)).need text
    obtain ⟨br₁, hget, hat₁⟩ := hbyte br _ (by simpa [bitsOf] using hat)
    have hval : (unsigned (natBits 8 payload[k].toNat)).toNat = (byteAt payload k).toNat := by
      rw [toNat_unsigned (by rw [length_natBits]; decide), natOf_natBits, byteAt,
        List.getD_eq_getElem?_getD, List.getElem?_eq_getElem h, Option.getD_some]
      exact Nat.mod_eq_of_lt (UInt8.toNat_lt _)
    exact (bind_ok (f := f) hget) ▸ hf h _ hval br₁ hat₁
  · rw [List.drop_of_length_le (by omega)] at hat
    have hget : need text (getU 8) br = .error (.report text) :=
      bind_ok (getU_of_lt (n := 8) hat (by decide) (by decide))
    exact .inr ⟨text, bind_error hget, hshort (by omega)⟩

/-- A string with its length in front of it, and then what comes behind it. -/
theorem bind_string {f : Bytes → Reading α}
    (hf : k < payload.length → Ends payload (behind payload k) (f (stringAt payload k)) P E)
    (hshort : payload.length ≤ k → E) :
    Ends payload k (need text (getU 8) >>= fun n => readAscii n.toNat >>= f) P E := by
  refine bind_byte (fun h n hn br hat => ?_) hshort
  obtain ⟨br', hread, hat'⟩ := readAscii_eq n.toNat hat
  rw [hn] at hread hat' ⊢
  rw [bind_ok hread]
  exact hf h br' hat'

end Ends

namespace RtcmMessageDecoder

/-- The string of a field. -/
def Item.string? : Item → Option Bytes
  | quoted _ s => some s
  | _ => none

/-- The places of the lengths of the strings of a message. -/
def lengthPlaces (payload : Bytes) (type : ℕ) : List ℕ :=
  if type = 1007 then [3]
  else if type = 1008 then [3, behind payload 3 + 1]
  else
    let p₁ := behind payload 3 + 1
    let p₂ := behind payload p₁
    let p₃ := behind payload p₂
    [3, p₁, p₂, p₃, behind payload p₃]

/-- The last field that has to be there: the setup number of the message 1007, and
    the length of the last string of the others. -/
def lastRead (payload : Bytes) (type : ℕ) : ℕ :=
  if type = 1007 then behind payload 3
  else if type = 1008 then behind payload 3 + 1
  else behind payload (behind payload (behind payload (behind payload 3 + 1)))

/-- A string has the length that the byte `k` declares, and shows the bytes behind it. -/
def Shows (payload : Bytes) (k : ℕ) (s : Bytes) : Prop :=
  s.length = (byteAt payload k).toNat ∧ ∀ i < s.length, s[i]? = payload[k + 1 + i]?.map shown

/-- There is an error, or all strings are complete. -/
def Complete (payload : Bytes) (type : ℕ) (items : List Item) : Prop :=
  items.any Item.isError = true ∨
    List.Forall₂ (Shows payload) (lengthPlaces payload type) (items.filterMap Item.string?)

/-- The payload ends within the last string of a message 1008 or 1033. -/
def CutOff (payload : Bytes) (type : ℕ) : Prop :=
  type ≠ 1007 ∧ lastRead payload type < payload.length ∧
    payload.length < behind payload (lastRead payload type)

/-- What is written: an error if a field is missing, and the strings otherwise. -/
def Outcome (payload : Bytes) (type : ℕ) (items : List Item) : Prop :=
  (items.any Item.isError = true ∧ payload.length ≤ lastRead payload type) ∨
    (items.any Item.isError = false ∧ lastRead payload type < payload.length ∧
      items.filterMap Item.string? = (lengthPlaces payload type).map (stringAt payload))

/-- A string is shown as declared exactly if it ends within the payload. -/
theorem shows_stringAt_iff (h : k < payload.length) :
    Shows payload k (stringAt payload k) ↔ behind payload k ≤ payload.length := by
  have hlen : (stringAt payload k).length =
      min (byteAt payload k).toNat (payload.length - (k + 1)) := by
    rw [stringAt, charsFrom, List.length_map, List.length_take, List.length_drop]
  rw [Shows, hlen, behind]
  refine ⟨fun h => by omega, fun h => ⟨by omega, fun i hi => ?_⟩⟩
  rw [stringAt, charsFrom, List.getElem?_map, List.getElem?_take_of_lt (by omega),
    List.getElem?_drop]

/-! ### What is written -/

variable {type : ℕ} {items more : List Item}

/-- What is written before an error stays. -/
theorem ends_printing {x : Reading (List Item)} {P : List Item → Prop} {E : Prop}
    (hx : Ends payload k x P E) :
    Ends payload k (some <$> printing items x)
      (fun r => ∃ more, r = some (items ++ more) ∧ (P more ∨ ∃ text, more = [.error text] ∧ E))
      False := by
  intro br hat
  rcases hx br hat with ⟨more, br', h, hP⟩ | ⟨text, h, hE⟩
  · refine .inl ⟨some (items ++ more), br', ?_, more, rfl, .inl hP⟩
    have hprint : printing items x br = .ok (items ++ more, br') := by rw [printing, h]
    rw [← bind_pure_comp, bind_ok hprint]
    rfl
  · refine .inl ⟨some (items ++ [.error text]), br, ?_, _, rfl, .inr ⟨text, rfl, hE⟩⟩
    have hprint : printing items x br = .ok (items ++ [.error text], br) := by rw [printing, h]
    rw [← bind_pure_comp, bind_ok hprint]
    rfl

/-- The station is read behind the type. The fields behind it begin at bytes. -/
theorem ends_station {text : String} {f : UInt64 → Reading α} {P : α → Prop} {E : Prop}
    (hf : ∀ v, Ends payload 3 (f v) P E) (hshort : payload.length ≤ 2 → E)
    (hat : br.At ((bitsOf payload).drop 12)) :
    (∃ a br', (need text (getU 12) >>= f) br = .ok (a, br') ∧ P a) ∨
      ∃ error, (need text (getU 12) >>= f) br = .error (.report error) ∧ E := by
  have hlen : ((bitsOf payload).drop 12).length = 8 * payload.length - 12 := by
    rw [List.length_drop, length_bitsOf]
  by_cases h : payload.length ≤ 2
  · have hget : need text (getU 12) br = .error (.report text) :=
      bind_ok (getU_of_lt (n := 12) hat (by decide) (by omega))
    exact .inr ⟨text, bind_error hget, hshort h⟩
  · obtain ⟨br', hget, hat'⟩ := getU_of_le (n := 12) hat (by decide) (by omega)
    have hneed : need text (getU 12) br =
        .ok (unsigned (((bitsOf payload).drop 12).take 12), br') := bind_ok hget
    rw [List.drop_drop, drop_bitsOf 3] at hat'
    have hbind : (need text (getU 12) >>= f) br = f _ br' := bind_ok hneed
    simp only [hbind]
    exact hf _ br' hat'

theorem lt_behind (payload : Bytes) (k : ℕ) : k < behind payload k := by rw [behind]; omega

theorem three_le_lastRead (payload : Bytes) (type : ℕ) : 3 ≤ lastRead payload type := by
  have h₀ := lt_behind payload 3
  have h₁ := lt_behind payload (behind payload 3 + 1)
  have h₂ := lt_behind payload (behind payload (behind payload 3 + 1))
  have h₃ := lt_behind payload (behind payload (behind payload (behind payload 3 + 1)))
  rw [lastRead]
  split_ifs <;> omega

/-- A decoder that begins with the station has the outcome of what it does behind it. -/
theorem decode_outcome {decoder : ℕ → Reading (Option (List Item))} {text : String}
    {f : UInt64 → Reading (Option (List Item))} (htype : messageType payload = type)
    (hlen : 2 ≤ payload.length) (hroom : 8 * payload.length + 64 < 2 ^ 64)
    (hdec : Decodes type decoder) (hf : decoder type = need text (getU 12) >>= f)
    (hends : ∀ v, Ends payload 3 (f v)
      (fun r => ∃ items, r = some items ∧ Outcome payload type items)
      (payload.length ≤ lastRead payload type)) :
    ∃ items, decode payload = .ok (headItems type payload.length ++ items) ∧
      Outcome payload type items := by
  subst htype
  have h3 := three_le_lastRead payload (messageType payload)
  obtain ⟨br, hat, hok, herror⟩ := decode_eq_decoder hlen hroom hdec
  rw [hf] at hok herror
  rcases ends_station hends (fun h => by omega) hat with
    ⟨_, br', hread, items, rfl, hitems⟩ | ⟨error, hread, hshort⟩
  · exact ⟨items, hok items br' hread, hitems⟩
  · exact ⟨[.error error], herror error hread, .inl ⟨rfl, hshort⟩⟩

/-- The messages 1007 and 1008, behind the station. -/
theorem ends_decode1007_1008 (htype : type = 1007 ∨ type = 1008) (stid : UInt64) :
    Ends payload 3 (do
      let ndesc ← need " decode_error=invalid_1007_1008" (getU 8)
      let desc ← readAscii ndesc.toNat
      let setup ← need " decode_error=missing_setup_id" (getU 8)
      some <$> printing [.number " staid=" stid.toNat, .quoted " ant=" desc,
          .number " setup=" setup.toNat]
        (if type = 1008 then do
          let nser ← need " decode_error=missing_serial_length" (getU 8)
          let serial ← readAscii nser.toNat
          pure [.quoted " serial=" serial]
        else pure []))
      (fun r => ∃ items, r = some items ∧ Outcome payload type items)
      (payload.length ≤ lastRead payload type) := by
  have hbehind := lt_behind payload 3
  have hlast : behind payload 3 ≤ lastRead payload type := by
    rw [lastRead]
    split_ifs <;> omega
  -- The antenna and the setup, of both types.
  refine Ends.bind_string (fun _ => ?_) (fun h => by omega)
  refine Ends.bind_byte (fun hsetup setup _ => ?_) (fun h => by omega)
  rcases htype with rfl | rfl
  · -- A 1007 ends here.
    refine (ends_printing (P := (· = [])) (E := False) (.pure rfl)).imp ?_ False.elim
    rintro _ ⟨more, rfl, rfl | ⟨_, _, h⟩⟩
    · exact ⟨_, rfl, .inr ⟨rfl, hsetup, rfl⟩⟩
    · exact h.elim
  · -- A 1008 has the serial number as well.
    have hserial : Ends payload (behind payload 3 + 1) (do
        let nser ← need " decode_error=missing_serial_length" (getU 8)
        let serial ← readAscii nser.toNat
        pure [Item.quoted " serial=" serial])
        (fun more => behind payload 3 + 1 < payload.length ∧
          more = [Item.quoted " serial=" (stringAt payload (behind payload 3 + 1))])
        (payload.length ≤ behind payload 3 + 1) :=
      .bind_string (fun h => .pure ⟨h, rfl⟩) id
    refine (ends_printing hserial).imp ?_ False.elim
    rintro _ ⟨more, rfl, ⟨h, rfl⟩ | ⟨text, rfl, h⟩⟩
    · exact ⟨_, rfl, .inr ⟨rfl, h, rfl⟩⟩
    · exact ⟨_, rfl, .inl ⟨rfl, h⟩⟩

theorem ends_decode1033 (stid : UInt64) :
    Ends payload 3 (do
      let n ← need " decode_error=invalid_1033" (getU 8)
      let antDesc ← readAscii n.toNat
      let setup ← need " decode_error=invalid_1033_fields" (getU 8)
      let nAntSn ← need " decode_error=invalid_1033_fields" (getU 8)
      let antSn ← readAscii nAntSn.toNat
      let nRxType ← need " decode_error=invalid_1033_rx_type" (getU 8)
      let rxType ← readAscii nRxType.toNat
      let nRxFw ← need " decode_error=invalid_1033_rx_fw" (getU 8)
      let rxFw ← readAscii nRxFw.toNat
      let nRxSn ← need " decode_error=invalid_1033_rx_sn" (getU 8)
      let rxSn ← readAscii nRxSn.toNat
      pure (some [.number " staid=" stid.toNat, .quoted " ant=" antDesc,
        .quoted " ant_sn=" antSn, .quoted " rx=" rxType, .quoted " fw=" rxFw,
        .quoted " rx_sn=" rxSn, .number " setup=" setup.toNat]))
      (fun r => ∃ items, r = some items ∧ Outcome payload 1033 items)
      (payload.length ≤ lastRead payload 1033) := by
  have h₀ := lt_behind payload 3
  have h₁ := lt_behind payload (behind payload 3 + 1)
  have h₂ := lt_behind payload (behind payload (behind payload 3 + 1))
  have h₃ := lt_behind payload (behind payload (behind payload (behind payload 3 + 1)))
  have hlast : lastRead payload 1033 =
      behind payload (behind payload (behind payload (behind payload 3 + 1))) := rfl
  rw [hlast]
  -- Each descriptor ends before the next one begins, so an early end is before the last one.
  refine Ends.bind_string (fun _ => ?_) (fun h => by omega)
  refine Ends.bind_byte (fun _ setup _ => ?_) (fun h => by omega)
  refine Ends.bind_string (fun _ => ?_) (fun h => by omega)
  refine Ends.bind_string (fun _ => ?_) (fun h => by omega)
  refine Ends.bind_string (fun _ => ?_) (fun h => by omega)
  refine Ends.bind_string (fun hlt => ?_) (fun h => by omega)
  exact .pure ⟨_, rfl, .inr ⟨rfl, hlt, rfl⟩⟩

/-- What a message of one of the types shows: its strings as far as they go, or an error. -/
theorem decode_descriptors (htype : type = 1007 ∨ type = 1008 ∨ type = 1033)
    (hpayload : messageType payload = type) (hroom : 8 * payload.length + 64 < 2 ^ 64) :
    ∃ items, decode payload = .ok (headItems type payload.length ++ items) ∧
      Outcome payload type items := by
  have hlen : 2 ≤ payload.length := two_le_length (by omega)
  rcases htype with rfl | rfl | rfl
  · exact decode_outcome hpayload hlen hroom (decodes1007_1008 (.inl rfl)) (if_neg (by decide))
      (ends_decode1007_1008 (.inl rfl))
  · exact decode_outcome hpayload hlen hroom (decodes1007_1008 (.inr rfl)) (if_neg (by decide))
      (ends_decode1007_1008 (.inr rfl))
  · exact decode_outcome hpayload hlen hroom (decodes1033 rfl) (if_neg (by decide)) ends_decode1033

/-! ### Complete strings -/

/-- All strings but the last one end before the last field that is read. -/
theorem complete_iff {items : List Item} (htype : type = 1007 ∨ type = 1008 ∨ type = 1033)
    (h : Outcome payload type items) : Complete payload type items ↔ ¬CutOff payload type := by
  have h₀ := lt_behind payload 3
  have h₁ := lt_behind payload (behind payload 3 + 1)
  have h₂ := lt_behind payload (behind payload (behind payload 3 + 1))
  have h₃ := lt_behind payload (behind payload (behind payload (behind payload 3 + 1)))
  rcases h with ⟨herror, hshort⟩ | ⟨herror, hlast, hstrings⟩
  · exact iff_of_true (.inl herror) fun ⟨_, h, _⟩ => by omega
  · have hplaces : ∀ k ∈ lengthPlaces payload type, k ≤ lastRead payload type := by
      rcases htype with rfl | rfl | rfl <;> simp [lengthPlaces, lastRead] <;> omega
    have hshows : List.Forall₂ (Shows payload) (lengthPlaces payload type)
        (items.filterMap Item.string?) ↔
          ∀ k ∈ lengthPlaces payload type, behind payload k ≤ payload.length := by
      rw [hstrings, List.forall₂_map_right_iff, List.forall₂_same]
      exact forall₂_congr fun k hk => shows_stringAt_iff ((hplaces k hk).trans_lt hlast)
    rw [Complete, herror, hshows, CutOff]
    rcases htype with rfl | rfl | rfl <;> simp [lengthPlaces, lastRead] at hlast ⊢ <;> omega

theorem filterMap_string?_headItems (type len : ℕ) :
    (headItems type len).filterMap Item.string? = [] := by
  rw [headItems]
  split_ifs <;> rfl

/-- All strings are reported as they are in the payload, or an error is, if and only if
    the payload does not end within the last string of a message 1008 or 1033. -/
theorem decode_descriptors_iff (htype : messageType payload = 1007 ∨
      messageType payload = 1008 ∨ messageType payload = 1033)
    (hroom : 8 * payload.length + 64 < 2 ^ 64) : ∃ items, decode payload = .ok items ∧
      (Complete payload (messageType payload) items ↔ ¬CutOff payload (messageType payload)) := by
  obtain ⟨items, hdecode, houtcome⟩ := decode_descriptors htype rfl hroom
  refine ⟨_, hdecode, ?_⟩
  rw [← complete_iff htype houtcome, Complete, Complete, List.any_append, any_isError_headItems,
    List.filterMap_append, filterMap_string?_headItems, Bool.false_or, List.nil_append]

/-- A message 1008 whose serial number has four characters, and that ends behind the
    first of them. -/
def cutSerial : Bytes := [0x3F, 0x00, 0x01, 0x00, 0x00, 0x04, 0x41]

theorem decode_descriptors_iff_cutSerial : messageType cutSerial = 1008 ∧
    8 * cutSerial.length + 64 < 2 ^ 64 ∧ ∃ items, decode cutSerial = .ok items ∧
      (Complete cutSerial (messageType cutSerial) items ↔
        ¬CutOff cutSerial (messageType cutSerial)) :=
  ⟨by decide, by decide, decode_descriptors_iff (by decide) (by decide)⟩

/-- The serial number is reported as `A`, without an error. -/
theorem cutSerial_misreported :
    decode cutSerial = .ok (headItems 1008 7 ++ [.number " staid=" 1, .quoted " ant=" [],
      .number " setup=" 0, .quoted " serial=" [0x41]]) ∧
    ∀ items, decode cutSerial = .ok items → ¬Complete cutSerial 1008 items := by
  have hdecode : decode cutSerial = .ok (headItems 1008 7 ++ [.number " staid=" 1,
      .quoted " ant=" [], .number " setup=" 0, .quoted " serial=" [0x41]]) := by rfl
  refine ⟨hdecode, fun items h => ?_⟩
  obtain rfl := Except.ok.inj (hdecode.symm.trans h)
  rintro (herror | hstrings)
  · exact absurd herror (by decide)
  · have hserial : Shows cutSerial 5 [0x41] := by
      rcases hstrings with _ | ⟨_, _ | ⟨hserial, _⟩⟩
      exact hserial
    exact absurd hserial.1 (by decide)

end RtcmMessageDecoder

end RtcmBridge

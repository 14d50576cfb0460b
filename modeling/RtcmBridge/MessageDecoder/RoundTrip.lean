import RtcmBridge.Fields
import RtcmBridge.MessageDecoder.MsmLength
import Mathlib.Tactic

/-!
# Decoding undoes encoding

The messages of the stations, the descriptors and the ephemerides with the values
of their fields (`Message`), and the bits they are encoded as. The decoder gives
back all values that it reports, whatever comes behind the message
(`decode_encode`).
-/

namespace RtcmBridge

open BitReader

/-! ### Strings -/

theorem shown_of_isPrint {b : UInt8} (h : isPrint b = true) : shown b = b := if_pos h

/-- A byte is the value of its eight bits. -/
theorem unsigned_byte (b : UInt8) : (unsigned (natBits 8 b.toNat)).toUInt8 = b := by
  have hlt := b.toNat_lt
  refine UInt8.toNat_inj.1 ?_
  rw [UInt64.toNat_toUInt8, toNat_unsigned (by rw [length_natBits]; decide), natOf_natBits,
    Nat.mod_mod, Nat.mod_eq_of_lt hlt]

/-- `read_ascii` takes eight bits per character and shows each of them. -/
theorem reads_readAscii (s : Bytes) : Reads (readAscii s.length) (bitsOf s) (s.map shown) := by
  induction s with
  | nil => exact .pure []
  | cons b s ih =>
    have hbyte := reads_getU (length_natBits 8 b.toNat) (by decide)
    rw [List.length_cons, readAscii, List.map_cons]
    refine hbyte.bind ?_
    simp only [unsigned_byte]
    exact ih.bind_end (.pure _)

/-- Items printed first stand before what is read. -/
theorem Reads.printing {x : Reading (List RtcmMessageDecoder.Item)} {l : List Bool}
    {more : List RtcmMessageDecoder.Item} (items : List RtcmMessageDecoder.Item)
    (hx : Reads x l more) : Reads (RtcmMessageDecoder.printing items x) l (items ++ more) := by
  intro br rest hat
  obtain ⟨br', h, hat'⟩ := hx br rest hat
  exact ⟨br', by rw [RtcmMessageDecoder.printing, h], hat'⟩

namespace RtcmMessageDecoder

/-- At most 255 printable characters. -/
structure Descriptor where
  chars : Bytes
  length_le : chars.length ≤ 255
  printable : ∀ b ∈ chars, isPrint b = true

/-- The length of the descriptor, and its characters. -/
def Descriptor.bits (d : Descriptor) : List Bool :=
  fieldBits (BitVec.ofNat 8 d.chars.length) ++ bitsOf d.chars

/-- A descriptor, and then what comes behind it. -/
theorem reads_descriptor {β : Type} {f : Bytes → Reading β} {text : String} {m : List Bool} {b : β}
    (d : Descriptor) (hf : Reads (f d.chars) m b) :
    Reads (need text (getU 8) >>= fun n => readAscii n.toNat >>= f) (d.bits ++ m) b := by
  have hlen : (BitVec.ofNat 8 d.chars.length).toNat = d.chars.length := by
    rw [BitVec.toNat_ofNat, Nat.mod_eq_of_lt (Nat.lt_of_le_of_lt d.length_le (by decide))]
  have hchars : d.chars.map shown = d.chars :=
    (List.map_congr_left fun b hb => shown_of_isPrint (d.printable b hb)).trans (List.map_id _)
  rw [Descriptor.bits, List.append_assoc]
  refine Reads.bind_fieldU (w := 8) _ (by decide) fun n hn => ?_
  rw [hn, hlen]
  have hread := reads_readAscii d.chars
  rw [hchars] at hread
  exact hread.bind hf

/-- The fields of the messages 1005 and 1006. -/
structure Station where
  station : BitVec 12
  itrf : BitVec 6
  gps : BitVec 1
  glo : BitVec 1
  gal : BitVec 1
  ref : BitVec 1
  x : BitVec 38
  single : BitVec 1
  reserved : BitVec 1
  y : BitVec 38
  quarter : BitVec 2
  z : BitVec 38

/-- The fields of the messages 1045 and 1046. -/
structure Galileo where
  sat : BitVec 6
  week : BitVec 12
  iode : BitVec 10
  sisa : BitVec 8

/-- The messages, with the values of their fields up to the last one that is reported. -/
inductive Message
  | m1005 (s : Station)
  | m1006 (s : Station) (height : BitVec 16)
  | m1007 (station : BitVec 12) (ant : Descriptor) (setup : BitVec 8)
  | m1008 (station : BitVec 12) (ant : Descriptor) (setup : BitVec 8) (serial : Descriptor)
  | m1033 (station : BitVec 12) (ant : Descriptor) (setup : BitVec 8)
      (antSn rx fw rxSn : Descriptor)
  | m1019 (sat : BitVec 6) (week : BitVec 10) (ura : BitVec 4) (code : BitVec 2)
      (idot : BitVec 14) (iode : BitVec 8)
  | m1045 (g : Galileo)
  | m1046 (g : Galileo)

namespace Station

variable (s : Station)

/-- The fields in the layout of the standard. -/
def fields : List (List Bool) :=
  [fieldBits s.station, fieldBits s.itrf, fieldBits s.gps, fieldBits s.glo, fieldBits s.gal,
    fieldBits s.ref, fieldBits s.x, fieldBits s.single, fieldBits s.reserved, fieldBits s.y,
    fieldBits s.quarter, fieldBits s.z]

/-- What is to be reported. -/
def items : List Item :=
  [.number " staid=" s.station.toNat, .number " itrf=" s.itrf.toNat, .scaled " x=" s.x.toInt,
    .scaled " y=" s.y.toInt, .scaled " z=" s.z.toInt, .number " gps=" s.gps.toNat,
    .number " glo=" s.glo.toNat, .number " gal=" s.gal.toNat]

end Station

namespace Galileo

variable (g : Galileo)

/-- The fields in the layout of the standard. -/
def fields : List (List Bool) :=
  [fieldBits g.sat, fieldBits g.week, fieldBits g.iode, fieldBits g.sisa]

/-- What is to be reported. -/
def items : List Item :=
  [.number " sat=E" g.sat.toNat, .number " week=" g.week.toNat, .number " iode=" g.iode.toNat,
    .number " sisa=" g.sisa.toNat]

end Galileo

namespace Message

/-- The type of the message. -/
def type : Message → ℕ
  | m1005 .. => 1005
  | m1006 .. => 1006
  | m1007 .. => 1007
  | m1008 .. => 1008
  | m1033 .. => 1033
  | m1019 .. => 1019
  | m1045 .. => 1045
  | m1046 .. => 1046

/-- The fields behind the type. -/
def fields : Message → List (List Bool)
  | m1005 s => s.fields
  | m1006 s height => s.fields ++ [fieldBits height]
  | m1007 station ant setup => [fieldBits station, ant.bits, fieldBits setup]
  | m1008 station ant setup serial => [fieldBits station, ant.bits, fieldBits setup, serial.bits]
  | m1033 station ant setup antSn rx fw rxSn =>
    [fieldBits station, ant.bits, fieldBits setup, antSn.bits, rx.bits, fw.bits, rxSn.bits]
  | m1019 sat week ura code idot iode =>
    [fieldBits sat, fieldBits week, fieldBits ura, fieldBits code, fieldBits idot, fieldBits iode]
  | m1045 g => g.fields
  | m1046 g => g.fields

/-- The message in the layout of the standard. -/
def bits (m : Message) : List Bool := natBits 12 m.type ++ m.fields.flatten

/-- What is to be reported of a message. -/
def items : Message → List Item
  | m1005 s => s.items
  | m1006 s height => s.items ++ [.scaled " ant_h=" height.toNat]
  | m1007 station ant setup =>
    [.number " staid=" station.toNat, .quoted " ant=" ant.chars, .number " setup=" setup.toNat]
  | m1008 station ant setup serial =>
    [.number " staid=" station.toNat, .quoted " ant=" ant.chars, .number " setup=" setup.toNat,
      .quoted " serial=" serial.chars]
  | m1033 station ant setup antSn rx fw rxSn =>
    [.number " staid=" station.toNat, .quoted " ant=" ant.chars, .quoted " ant_sn=" antSn.chars,
      .quoted " rx=" rx.chars, .quoted " fw=" fw.chars, .quoted " rx_sn=" rxSn.chars,
      .number " setup=" setup.toNat]
  | m1019 sat week ura code idot iode =>
    [.number " sat=G" sat.toNat, .number " week=" week.toNat, .number " ura=" ura.toNat,
      .number " codeL2=" code.toNat, .number " iode=" iode.toNat, .number " idot_raw=" idot.toInt]
  | m1045 g => g.items
  | m1046 g => g.items

end Message

/-! ### Decoding -/

/-- The messages 1005 and 1006: the fields of the station, and then the others. -/
theorem reads_decode1005_1006 {type : ℕ} (htype : type = 1005 ∨ type = 1006) (s : Station)
    {tail : List Bool} {more : List Item}
    (htail : Reads (if type = 1006 then do
        let h ← need " decode_error=missing_antenna_height" (getU 16)
        pure [.scaled " ant_h=" h.toNat]
      else pure []) tail more) :
    Reads (decode1005_1006 type) (s.fields.flatten ++ tail) (some (s.items ++ more)) := by
  rw [decode1005_1006, if_neg (by omega)]
  simp only [Station.fields, List.flatten_cons, List.flatten_nil, List.append_assoc,
    List.nil_append]
  refine Reads.bind_fieldU (w := 12) _ (by decide) fun _ hstation => ?_
  refine Reads.bind_fieldU (w := 6) _ (by decide) fun _ hitrf => ?_
  refine Reads.bind_fieldU (w := 1) _ (by decide) fun _ hgps => ?_
  refine Reads.bind_fieldU (w := 1) _ (by decide) fun _ hglo => ?_
  refine Reads.bind_fieldU (w := 1) _ (by decide) fun _ hgal => ?_
  refine Reads.bind_fieldU (w := 1) _ (by decide) fun _ _ => ?_
  refine Reads.bind_fieldS (w := 38) _ (by decide) ?_
  refine Reads.bind_fieldU (w := 1) _ (by decide) fun _ _ => ?_
  refine Reads.bind_fieldU (w := 1) _ (by decide) fun _ _ => ?_
  refine Reads.bind_fieldS (w := 38) _ (by decide) ?_
  refine Reads.bind_fieldU (w := 2) _ (by decide) fun _ _ => ?_
  refine Reads.bind_fieldS (w := 38) _ (by decide) ?_
  rw [hstation, hitrf, hgps, hglo, hgal]
  exact (htail.printing _).map some

/-- The antenna height of a 1006. -/
theorem reads_height (height : BitVec 16) :
    Reads (do
      let h ← need " decode_error=missing_antenna_height" (getU 16)
      pure [Item.scaled " ant_h=" h.toNat])
      (fieldBits height) [.scaled " ant_h=" height.toNat] := by
  rw [← List.append_nil (fieldBits height)]
  refine Reads.bind_fieldU (w := 16) _ (by decide) fun _ hheight => ?_
  rw [hheight]
  exact .pure _

/-- The messages 1007 and 1008: the antenna, and then the serial number. -/
theorem reads_decode1007_1008 {type : ℕ} (htype : type = 1007 ∨ type = 1008)
    (station : BitVec 12) (ant : Descriptor) (setup : BitVec 8) {tail : List Bool}
    {more : List Item}
    (htail : Reads (if type = 1008 then do
        let nser ← need " decode_error=missing_serial_length" (getU 8)
        let serial ← readAscii nser.toNat
        pure [.quoted " serial=" serial]
      else pure []) tail more) :
    Reads (decode1007_1008 type) (fieldBits station ++ (ant.bits ++ (fieldBits setup ++ tail)))
      (some ([.number " staid=" station.toNat, .quoted " ant=" ant.chars,
        .number " setup=" setup.toNat] ++ more)) := by
  rw [decode1007_1008, if_neg (by omega)]
  refine Reads.bind_fieldU (w := 12) _ (by decide) fun _ hstation => ?_
  refine reads_descriptor ant ?_
  refine Reads.bind_fieldU (w := 8) _ (by decide) fun _ hsetup => ?_
  rw [hstation, hsetup]
  exact (htail.printing _).map some

/-- The serial number of a 1008, behind its own length. -/
theorem reads_serial (serial : Descriptor) :
    Reads (do
      let nser ← need " decode_error=missing_serial_length" (getU 8)
      let serial ← readAscii nser.toNat
      pure [Item.quoted " serial=" serial]) serial.bits [.quoted " serial=" serial.chars] := by
  rw [← List.append_nil serial.bits]
  exact reads_descriptor serial (.pure _)

/-- `decode1033` reads back the five descriptors of a 1033. -/
theorem reads_decode1033 (station : BitVec 12) (ant : Descriptor) (setup : BitVec 8)
    (antSn rx fw rxSn : Descriptor) :
    Reads (decode1033 1033) (Message.m1033 station ant setup antSn rx fw rxSn).fields.flatten
      (some (Message.m1033 station ant setup antSn rx fw rxSn).items) := by
  rw [decode1033, if_neg (by decide)]
  simp only [Message.fields, List.flatten_cons, List.flatten_nil]
  refine Reads.bind_fieldU (w := 12) _ (by decide) fun _ hstation => ?_
  refine reads_descriptor ant ?_
  refine Reads.bind_fieldU (w := 8) _ (by decide) fun _ hsetup => ?_
  refine reads_descriptor antSn ?_
  refine reads_descriptor rx ?_
  refine reads_descriptor fw ?_
  refine reads_descriptor rxSn ?_
  rw [hstation, hsetup]
  exact .pure _

/-- `decode1019` reads back the fields of a 1019. -/
theorem reads_decode1019 (sat : BitVec 6) (week : BitVec 10) (ura : BitVec 4) (code : BitVec 2)
    (idot : BitVec 14) (iode : BitVec 8) :
    Reads (decode1019 1019) (Message.m1019 sat week ura code idot iode).fields.flatten
      (some (Message.m1019 sat week ura code idot iode).items) := by
  rw [decode1019, if_neg (by decide)]
  simp only [Message.fields, List.flatten_cons, List.flatten_nil]
  refine Reads.bind_fieldU (w := 6) _ (by decide) fun _ hsat => ?_
  refine Reads.bind_fieldU (w := 10) _ (by decide) fun _ hweek => ?_
  refine Reads.bind_fieldU (w := 4) _ (by decide) fun _ hura => ?_
  refine Reads.bind_fieldU (w := 2) _ (by decide) fun _ hcode => ?_
  refine Reads.bind_fieldS (w := 14) _ (by decide) ?_
  refine Reads.bind_fieldU (w := 8) _ (by decide) fun _ hiode => ?_
  rw [hsat, hweek, hura, hcode, hiode]
  exact .pure _

/-- `decode1045_1046` reads back the fields of either Galileo ephemeris. -/
theorem reads_decode1045_1046 {type : ℕ} (htype : type = 1045 ∨ type = 1046) (g : Galileo) :
    Reads (decode1045_1046 type) g.fields.flatten (some g.items) := by
  rw [decode1045_1046, if_neg (by omega)]
  simp only [Galileo.fields, List.flatten_cons, List.flatten_nil]
  refine Reads.bind_fieldU (w := 6) _ (by decide) fun _ hsat => ?_
  refine Reads.bind_fieldU (w := 12) _ (by decide) fun _ hweek => ?_
  refine Reads.bind_fieldU (w := 10) _ (by decide) fun _ hiode => ?_
  refine Reads.bind_fieldU (w := 8) _ (by decide) fun _ hsisa => ?_
  rw [hsat, hweek, hiode, hsisa]
  exact .pure _

/-- The decoder of the type of a message reads the message. -/
theorem reads_message (m : Message) : ∃ decoder, Decodes m.type decoder ∧
    Reads (decoder m.type) m.fields.flatten (some m.items) := by
  cases m with
  | m1005 s =>
    have hread := reads_decode1005_1006 (.inl rfl) s (.pure [])
    rw [List.append_nil, List.append_nil] at hread
    exact ⟨_, decodes1005_1006, hread⟩
  | m1006 s height =>
    have hread := reads_decode1005_1006 (.inr rfl) s (reads_height height)
    have hfields : (Message.m1006 s height).fields.flatten =
        s.fields.flatten ++ fieldBits height := by simp [Message.fields]
    exact ⟨_, decodes1005_1006, hfields ▸ hread⟩
  | m1007 station ant setup =>
    have hread := reads_decode1007_1008 (.inl rfl) station ant setup (.pure [])
    exact ⟨_, decodes1007_1008 (.inl rfl), hread⟩
  | m1008 station ant setup serial =>
    have hread := reads_decode1007_1008 (.inr rfl) station ant setup (reads_serial serial)
    have hfields : (Message.m1008 station ant setup serial).fields.flatten =
        fieldBits station ++ (ant.bits ++ (fieldBits setup ++ serial.bits)) := by
      simp [Message.fields]
    exact ⟨_, decodes1007_1008 (.inr rfl), hfields ▸ hread⟩
  | m1033 station ant setup antSn rx fw rxSn =>
    exact ⟨_, decodes1033 rfl, reads_decode1033 station ant setup antSn rx fw rxSn⟩
  | m1019 sat week ura code idot iode =>
    exact ⟨_, decodes1019 rfl, reads_decode1019 sat week ura code idot iode⟩
  | m1045 g => exact ⟨_, decodes1045_1046 (.inl rfl), reads_decode1045_1046 (.inl rfl) g⟩
  | m1046 g => exact ⟨_, decodes1045_1046 (.inr rfl), reads_decode1045_1046 (.inr rfl) g⟩

/-- The bytes of a message, the last one filled up with zeros. -/
def Message.encode (m : Message) : Bytes := pack m.bits

/-- No item of a well formed message is an error. -/
theorem Message.any_isError_items (m : Message) : m.items.any Item.isError = false := by
  cases m <;> rfl

theorem Message.type_bounds (m : Message) : 2 ^ 8 ≤ m.type ∧ m.type < 2 ^ 12 := by
  cases m <;> simp [Message.type]

/-- A payload that starts with the bits of a message has its type. -/
theorem Message.messageType_of_bits {m : Message} {payload : Bytes}
    (h : m.bits <+: bitsOf payload) : messageType payload = m.type := by
  obtain ⟨rest, hrest⟩ := h
  have htake : (bitsOf payload).take 12 = natBits 12 m.type := by
    rw [← hrest, Message.bits, List.append_assoc, List.take_left' (length_natBits ..)]
  rw [messageType, htake, natOf_natBits, Nat.mod_eq_of_lt m.type_bounds.2]

/-- A payload that begins with a message is decoded to the values of its fields. -/
theorem decode_of_bits {m : Message} {payload : Bytes} (hbits : m.bits <+: bitsOf payload)
    (hroom : 8 * payload.length + 64 < 2 ^ 64) :
    decode payload = .ok (headItems m.type payload.length ++ m.items) := by
  have htype := Message.messageType_of_bits hbits
  have hlen : 2 ≤ payload.length := two_le_length (by rw [htype]; exact m.type_bounds.1)
  obtain ⟨decoder, hdec, hread⟩ := reads_message m
  rw [← htype] at hdec hread ⊢
  refine decode_of_reads hlen hroom hdec hread ?_
  obtain ⟨rest, hrest⟩ := hbits
  rw [← hrest, Message.bits, List.append_assoc, List.drop_left' (length_natBits ..)]
  exact List.prefix_append ..

/-- A message with anything behind it is decoded to the values of its fields. -/
theorem decode_encode (m : Message) (more : Bytes)
    (hroom : 8 * (m.encode ++ more).length + 64 < 2 ^ 64) :
    decode (m.encode ++ more) =
        .ok (headItems m.type (m.encode ++ more).length ++ m.items) ∧
      (headItems m.type (m.encode ++ more).length ++ m.items).any Item.isError = false := by
  obtain ⟨fill, hfill⟩ := bitsOf_pack m.bits
  have hbits : m.bits <+: bitsOf (m.encode ++ more) := by
    rw [bitsOf_append, Message.encode, hfill, List.append_assoc]
    exact List.prefix_append ..
  refine ⟨decode_of_bits hbits hroom, ?_⟩
  rw [List.any_append, any_isError_headItems, m.any_isError_items]
  rfl

/-- A message 1008 with an empty serial number. -/
def noSerial : Message :=
  .m1008 7 ⟨[0x54], by decide, List.forall_mem_singleton.2 rfl⟩ 0 ⟨[], by decide, by simp⟩

theorem decode_encode_1008 : 8 * (noSerial.encode ++ []).length + 64 < 2 ^ 64 ∧
    ∃ items, decode (noSerial.encode ++ []) = .ok items ∧ .quoted " ant=" [0x54] ∈ items := by
  have h := decode_encode noSerial [] (by decide)
  exact ⟨by decide, _, h.1, by simp [noSerial, Message.items]⟩

end RtcmMessageDecoder

end RtcmBridge

import RtcmBridge.Msm.Basic

/-!
# The message decoder

The class `RtcmMessageDecoder` of the two decoders, which is the same in both.
A summary is the list of what is written to it, one item for each field with the
key in front of it (`Item`); its text is in `MessageDecoder.Text`. The values of
a field that is printed in other units are those before the scaling.
-/

namespace RtcmBridge

open BitReader

/-- `std::isprint`, in the classic locale. -/
def isPrint (b : UInt8) : Bool := 0x20 ≤ b && b ≤ 0x7E

/-- The character that is shown for a byte. -/
def shown (b : UInt8) : UInt8 := if isPrint b then b else 46

/-- The loop stops at the end of the payload, without an error. -/
def readAscii : ℕ → Reading Bytes
  | 0 => pure []
  | chars + 1 => do
    match ← getU 8 with
    | none => pure []
    | some c =>
      let out ← readAscii chars
      pure (shown c.toUInt8 :: out)

namespace RtcmMessageDecoder

/-- `SigInfo`: the label of a signal, and its frequency in Hz, which is 0 if it is not known. -/
structure SigInfo where
  label : String
  freqHz : ℕ := 0
  deriving DecidableEq

/-- What is written to a summary. -/
inductive Item
  /-- A summary that is nothing but this text. -/
  | text (s : String)
  | error (s : String)
  | name (s : String)
  | number (key : String) (v : ℤ)
  /-- A number of tenths of millimetres, printed in metres. -/
  | scaled (key : String) (v : ℤ)
  | quoted (key : String) (s : Bytes)
  /-- The line of a satellite. -/
  | heading (c : Char) (sat : ℕ)
  /-- The line of a cell. -/
  | observation (sig : SigInfo) (o : Msm.Observation)
  deriving DecidableEq

/-- The items are written, and what `x` writes: what is written before an error stays. -/
def printing (items : List Item) (x : Reading (List Item)) : Reading (List Item) := fun br =>
  match x br with
  | .ok (more, br') => .ok (items ++ more, br')
  | .error (.report text) => .ok (items ++ [.error text], br)
  | .error .undefined => .error .undefined

/-- `constellation_code`. -/
def constellationCode (type : ℕ) : Char :=
  if 1070 ≤ type ∧ type < 1080 then 'G'
  else if 1080 ≤ type ∧ type < 1090 then 'R'
  else if 1090 ≤ type ∧ type < 1100 then 'E'
  else if 1100 ≤ type ∧ type < 1110 then 'S'
  else if 1110 ≤ type ∧ type < 1120 then 'J'
  else if 1120 ≤ type ∧ type < 1130 then 'C'
  else '?'

/-- `signal_info`. -/
def signalInfo (c : Char) (sigId : ℕ) : SigInfo :=
  match c, sigId with
  | 'G', 2 => ⟨"L1", 1575420000⟩
  | 'G', 3 => ⟨"L1", 1575420000⟩
  | 'G', 8 => ⟨"L2", 1227600000⟩
  | 'G', 9 => ⟨"L2", 1227600000⟩
  | 'G', 10 => ⟨"L2", 1227600000⟩
  | 'G', 15 => ⟨"L5", 1176450000⟩
  | 'G', 16 => ⟨"L5", 1176450000⟩
  | 'G', 17 => ⟨"L5", 1176450000⟩
  | 'R', 2 => ⟨"G1", 1602000000⟩
  | 'R', 8 => ⟨"G2", 1246000000⟩
  | 'R', 14 => ⟨"G3", 1202025000⟩
  | 'E', 2 => ⟨"E1", 1575420000⟩
  | 'E', 8 => ⟨"E6", 1278750000⟩
  | 'E', 14 => ⟨"E5b", 1207140000⟩
  | 'E', 16 => ⟨"E5a", 1176450000⟩
  | 'E', 22 => ⟨"E5", 1191795000⟩
  | 'C', 2 => ⟨"B1", 1561098000⟩
  | 'C', 8 => ⟨"B3", 1268520000⟩
  | 'C', 14 => ⟨"B2", 1207140000⟩
  | 'C', 16 => ⟨"B2a", 1176450000⟩
  | 'C', 22 => ⟨"B2ab", 1191795000⟩
  | 'J', 2 => ⟨"L1", 1575420000⟩
  | 'J', 8 => ⟨"L2", 1227600000⟩
  | 'J', 15 => ⟨"L5", 1176450000⟩
  | 'J', 22 => ⟨"L6", 1278750000⟩
  | _, _ => { label := "SIG" ++ toString sigId }

/-- `type_name`. -/
def typeName (t : ℕ) : String :=
  match t with
  | 1005 => "Stationary RTK ARP"
  | 1006 => "Stationary RTK ARP + Antenna Height"
  | 1007 => "Antenna Descriptor"
  | 1008 => "Antenna Descriptor + Serial"
  | 1013 => "System Parameters"
  | 1019 => "GPS Ephemeris"
  | 1020 => "GLONASS Ephemeris"
  | 1033 => "Receiver/Antenna Descriptor"
  | 1045 => "Galileo F/NAV Ephemeris"
  | 1046 => "Galileo I/NAV Ephemeris"
  | 1074 => "GPS MSM4"
  | 1075 => "GPS MSM5"
  | 1076 => "GPS MSM6"
  | 1077 => "GPS MSM7"
  | 1084 => "GLONASS MSM4"
  | 1085 => "GLONASS MSM5"
  | 1086 => "GLONASS MSM6"
  | 1087 => "GLONASS MSM7"
  | 1094 => "Galileo MSM4"
  | 1095 => "Galileo MSM5"
  | 1096 => "Galileo MSM6"
  | 1097 => "Galileo MSM7"
  | 1104 => "SBAS MSM4"
  | 1105 => "SBAS MSM5"
  | 1106 => "SBAS MSM6"
  | 1107 => "SBAS MSM7"
  | 1114 => "QZSS MSM4"
  | 1115 => "QZSS MSM5"
  | 1116 => "QZSS MSM6"
  | 1117 => "QZSS MSM7"
  | 1124 => "BeiDou MSM4"
  | 1125 => "BeiDou MSM5"
  | 1126 => "BeiDou MSM6"
  | 1127 => "BeiDou MSM7"
  | 1230 => "GLONASS Code-Phase Bias"
  | _ => ""

/-! ### Messages

A decoder returns `none` for the types of other messages. -/

/-- `decode_1005_1006`: the reference point of a station, and the height of its antenna. -/
def decode1005_1006 (type : ℕ) : Reading (Option (List Item)) :=
  if type ≠ 1005 ∧ type ≠ 1006 then pure none
  else do
    let error := " decode_error=invalid_1005_1006"
    let stid ← need error (getU 12)
    let itrf ← need error (getU 6)
    let gps ← need error (getU 1)
    let glo ← need error (getU 1)
    let gal ← need error (getU 1)
    let _ref ← need error (getU 1)
    let x ← need error (getS 38)
    let _single ← need error (getU 1)
    let _reserved ← need error (getU 1)
    let y ← need error (getS 38)
    let _quarter ← need error (getU 2)
    let z ← need error (getS 38)
    some <$> printing [.number " staid=" stid.toNat, .number " itrf=" itrf.toNat,
        .scaled " x=" x, .scaled " y=" y, .scaled " z=" z, .number " gps=" gps.toNat,
        .number " glo=" glo.toNat, .number " gal=" gal.toNat]
      (if type = 1006 then do
        let h ← need " decode_error=missing_antenna_height" (getU 16)
        pure [.scaled " ant_h=" h.toNat]
      else pure [])

/-- `decode_1007_1008`: the descriptor of an antenna, and its serial number. -/
def decode1007_1008 (type : ℕ) : Reading (Option (List Item)) :=
  if type ≠ 1007 ∧ type ≠ 1008 then pure none
  else do
    let stid ← need " decode_error=invalid_1007_1008" (getU 12)
    let ndesc ← need " decode_error=invalid_1007_1008" (getU 8)
    let desc ← readAscii ndesc.toNat
    let setup ← need " decode_error=missing_setup_id" (getU 8)
    some <$> printing [.number " staid=" stid.toNat, .quoted " ant=" desc,
        .number " setup=" setup.toNat]
      (if type = 1008 then do
        let nser ← need " decode_error=missing_serial_length" (getU 8)
        let serial ← readAscii nser.toNat
        pure [.quoted " serial=" serial]
      else pure [])

/-- `decode_1033`: the descriptors of the receiver and of its antenna. -/
def decode1033 (type : ℕ) : Reading (Option (List Item)) :=
  if type ≠ 1033 then pure none
  else do
    let stid ← need " decode_error=invalid_1033" (getU 12)
    let n ← need " decode_error=invalid_1033" (getU 8)
    let antDesc ← readAscii n.toNat
    let setup ← need " decode_error=invalid_1033_fields" (getU 8)
    let nAntSn ← need " decode_error=invalid_1033_fields" (getU 8)
    let antSn ← readAscii nAntSn.toNat
    let nRxType ← need " decode_error=invalid_1033_rx_type" (getU 8)
    let rxType ← readAscii nRxType.toNat
    let nRxFw ← need " decode_error=invalid_1033_rx_fw" (getU 8)
    let rxFw ← readAscii nRxFw.toNat
    let nRxSn ← need " decode_error=invalid_1033_rx_sn" (getU 8)
    let rxSn ← readAscii nRxSn.toNat
    pure (some [.number " staid=" stid.toNat, .quoted " ant=" antDesc, .quoted " ant_sn=" antSn,
      .quoted " rx=" rxType, .quoted " fw=" rxFw, .quoted " rx_sn=" rxSn,
      .number " setup=" setup.toNat])

/-- A turn of the loop over the announcements. -/
def readAnnouncement : Reading Unit := do
  let error := " decode_error=truncated_1013_announcements"
  let _msg ← need error (getU 12)
  let _sync ← need error (getU 1)
  let _interval ← need error (getU 16)

/-- `decode_1013`: the system parameters, with the announcements of messages. -/
def decode1013 (type : ℕ) : Reading (Option (List Item)) :=
  if type ≠ 1013 then pure none
  else do
    let error := " decode_error=invalid_1013"
    let stid ← need error (getU 12)
    let mjd ← need error (getU 16)
    let sod ← need error (getU 17)
    let nmsg ← need error (getU 5)
    some <$> printing [.number " staid=" stid.toNat, .number " mjd=" mjd.toNat,
        .number " sod=" sod.toNat, .number " announcements=" nmsg.toNat]
      (do
        let _turns ← (List.range nmsg.toNat).mapM fun _ => readAnnouncement
        pure [])

/-- `decode_1019`: the beginning of a GPS ephemeris. -/
def decode1019 (type : ℕ) : Reading (Option (List Item)) :=
  if type ≠ 1019 then pure none
  else do
    let error := " decode_error=invalid_1019"
    let sat ← need error (getU 6)
    let week ← need error (getU 10)
    let ura ← need error (getU 4)
    let code ← need error (getU 2)
    let idot ← need error (getS 14)
    let iode ← need error (getU 8)
    pure (some [.number " sat=G" sat.toNat, .number " week=" week.toNat, .number " ura=" ura.toNat,
      .number " codeL2=" code.toNat, .number " iode=" iode.toNat, .number " idot_raw=" idot])

/-- `decode_1020`: the beginning of a GLONASS ephemeris. -/
def decode1020 (type : ℕ) : Reading (Option (List Item)) :=
  if type ≠ 1020 then pure none
  else do
    let error := " decode_error=invalid_1020"
    let sat ← need error (getU 6)
    let freq ← need error (getU 5)
    let tkH ← need error (getU 5)
    let tkM ← need error (getU 6)
    let tkS ← need error (getU 1)
    pure (some [.number " sat=R" sat.toNat, .number " freq_ch=" (freq.toNat - 7),
      .number " tk=" tkH.toNat, .number ":" tkM.toNat, .number ":" (tkS * 30).toNat])

/-- `decode_1045_1046`: the beginning of a Galileo ephemeris. -/
def decode1045_1046 (type : ℕ) : Reading (Option (List Item)) :=
  if type ≠ 1045 ∧ type ≠ 1046 then pure none
  else do
    let error := " decode_error=invalid_1045_1046"
    let sat ← need error (getU 6)
    let week ← need error (getU 12)
    let iode ← need error (getU 10)
    let sisa ← need error (getU 8)
    pure (some [.number " sat=E" sat.toNat, .number " week=" week.toNat,
      .number " iode=" iode.toNat, .number " sisa=" sisa.toNat])

/-- `decode_1230`: the GLONASS biases, up to their mask. -/
def decode1230 (type : ℕ) : Reading (Option (List Item)) :=
  if type ≠ 1230 then pure none
  else do
    let error := " decode_error=invalid_1230"
    let stid ← need error (getU 12)
    let ind ← need error (getU 1)
    let mask ← need error (getU 3)
    pure (some [.number " staid=" stid.toNat, .number " code_phase_mask=" mask.toNat,
      .number " ext=" ind.toNat])

/-- The loop over the cells that reports them: the satellite of a cell is written
    if it is not that of the last one. -/
def reportLines (constel : Char) : ℤ → List Msm.Observation → List Item
  | _, [] => []
  | lastSat, o :: os =>
    (if (o.sat : ℤ) ≠ lastSat then [.heading constel o.sat] else []) ++
      .observation (signalInfo constel o.sigId) o :: reportLines constel o.sat os

/-- What `decode_msm` prints: the header, and then the lines of the cells. -/
def reportItems (constel : Char) (report : Msm.Report) : List Item :=
  [.number " staid=" report.header.stid.toNat, .number " tow=" report.header.tow.toNat,
    .number " nsat=" report.nsat, .number " nsig=" report.nsig, .number " ncells=" report.ncells,
    .number " multiple=" report.header.mm.toNat, .number " smoothing=" report.header.smooth.toNat,
    .number " smooth_int=" report.header.smoothInt.toNat,
    .number " clk=" report.header.clkSteer.toNat,
    .number " extclk=" report.header.extClk.toNat] ++ reportLines constel (-1) report.observations

/-- `decode_msm`, with what it prints. -/
def decodeMsm (type : ℕ) : Reading (Option (List Item)) := do
  let report ← Msm.decodeMsm type
  pure (report.map (reportItems (constellationCode type)))

/-! ### Payloads -/

/-- The decoders in the order in which `decode` tries them. -/
def decoders : List (ℕ → Reading (Option (List Item))) :=
  [decode1005_1006, decode1007_1008, decode1033, decode1013, decode1019, decode1020,
    decode1045_1046, decode1230, decodeMsm]

/-- The decoders are tried one after the other. -/
def dispatch (type : ℕ) : List (ℕ → Reading (Option (List Item))) → Reading (List Item)
  | [] => pure []
  | decoder :: rest => do
    match ← decoder type with
    | some items => pure items
    | none => dispatch type rest

/-- The items with which a summary begins. -/
def headItems (type len : ℕ) : List Item :=
  [.number "type=" type] ++ (if typeName type ≠ "" then [.name (typeName type)] else []) ++
    [.number " len=" len]

/-- What `decode` reads and writes, if there are two bytes at least. -/
def readPayload (len : ℕ) : Reading (List Item) := do
  match ← getU 12 with
  | none => pure [.text "cannot_read_message_type"]
  | some msgType => printing (headItems msgType.toNat len) (dispatch msgType.toNat decoders)

/-- `RtcmMessageDecoder::decode`, but for the time that the summary begins with. -/
def decode (payload : Bytes) : Except Stop (List Item) :=
  if payload.length < 2 then pure [.text "payload_too_short"]
  else (readPayload payload.length).run' (.new payload)

end RtcmMessageDecoder

end RtcmBridge

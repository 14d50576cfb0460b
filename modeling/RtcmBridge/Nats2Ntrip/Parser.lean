import RtcmBridge.Ntrip2Nats.Parser

/-!
# The configuration of `nats2ntrip`
-/

namespace RtcmBridge.Nats2Ntrip

open ConfigurationFile

/-- `parser::Section`. -/
inductive Section
  | options
  | natsSources
  | natsMountpoints
  | ntripDestinations

/-- `parser::Configuration`. -/
structure Configuration where
  options : Options := {}
  natsSources : List NatsDestination := []
  natsMountpoints : List Bytes := []
  ntripDestination : NtripSource := {}
  hasNtripDestination : Bool := false

/-- `parse_section_header`, which takes `[ntrip_sources]` for the mountpoints, too. -/
def parseSectionHeader : Bytes → Except Bytes Section :=
  ConfigurationFile.parseSectionHeader [(ascii "options", .options),
    (ascii "nats_sources", .natsSources), (ascii "nats_mountpoints", .natsMountpoints),
    (ascii "ntrip_sources", .natsMountpoints), (ascii "ntrip_destinations", .ntripDestinations)]

/-- `parse_options_body_line`. -/
def parseOptionsBodyLine (line : Bytes) (configuration : Configuration) : Parsed Configuration :=
  let (error, options) := parseOptionsLine line configuration.options
  (error, { configuration with options })

/-- `parse_nats_sources_body_line`. -/
def parseNatsSourcesBodyLine (line : Bytes) (configuration : Configuration) :
    Parsed Configuration :=
  match parseNatsLine (ascii "source") line with
  | .error error => (some error, configuration)
  | .ok server =>
    (none, { configuration with natsSources := configuration.natsSources ++ [{ server }] })

/-- The bytes of `" \t/:"`, which a mountpoint may not contain. -/
def mountpointDelimiters : Bytes := [32, 9, 47, 58]

/-- `parse_nats_mountpoint_body_line`. -/
def parseNatsMountpointBodyLine (line : Bytes) (configuration : Configuration) :
    Parsed Configuration :=
  let mountpoint := trimCopy line
  if mountpoint = [] then
    (some (ascii "Invalid NTRIP source format: empty mountpoint"), configuration)
  else if mountpoint.any (· ∈ mountpointDelimiters) then
    (some (ascii "Invalid NTRIP source format: mountpoint must be a plain name"), configuration)
  else
    (none, { configuration with natsMountpoints := configuration.natsMountpoints ++ [mountpoint] })

/-- The destination is stored part by part: an invalid port leaves the others. -/
def parseNtripDestinationBodyLine (line : Bytes) (configuration : Configuration) :
    Parsed Configuration :=
  match delimiter 58 line 0 with
  | none => (some (ascii "Invalid NTRIP destination format: missing ':'"), configuration)
  | some userLimit =>
    match delimiter 32 line (userLimit + 1) with
    | none => (some (ascii "Invalid NTRIP destination format: missing space"), configuration)
    | some passLimit =>
      match delimiter 58 line (passLimit + 1) with
      | none => (some (ascii "Invalid NTRIP destination format: missing ':'"), configuration)
      | some hostLimit =>
        match findFrom 47 line (hostLimit + 1) with
        | some _ =>
          (some (ascii "Invalid NTRIP destination format: " ++
            ascii "destination must not include a mountpoint"), configuration)
        | none =>
          let user := line.take userLimit
          let pass := (line.drop (userLimit + 1)).take (passLimit - userLimit - 1)
          let host := (line.drop (passLimit + 1)).take (hostLimit - passLimit - 1)
          let configuration := { configuration with
            ntripDestination := { configuration.ntripDestination with user, pass, host } }
          match parsePositiveInt (line.drop (hostLimit + 1)) with
          | none => (some (ascii "Invalid NTRIP destination format: invalid port"), configuration)
          | some port =>
            (none, { configuration with
              ntripDestination := { configuration.ntripDestination with port, name := [] }
              hasNtripDestination := true })

/-- The parser of the lines of a section. -/
def parseBodyLine : Section → Bytes → Configuration → Parsed Configuration
  | .options => parseOptionsBodyLine
  | .natsSources => parseNatsSourcesBodyLine
  | .natsMountpoints => parseNatsMountpointBodyLine
  | .ntripDestinations => parseNtripDestinationBodyLine

/-- What `parse_configuration` checks after the last line. -/
def checkConfiguration (configuration : Configuration) : Option Bytes :=
  if configuration.options.reconnectMinSec > configuration.options.reconnectMaxSec then
    some (ascii "Value of reconnect_min_sec cannot be greater than reconnect_max_sec")
  else if configuration.natsSources = [] then
    some (ascii "No NATS sources configured")
  else if configuration.natsMountpoints = [] then
    some (ascii "No NATS mountpoints configured")
  else if !configuration.hasNtripDestination then
    some (ascii "No NTRIP destination configured")
  else none

/-- `parse_configuration`. The file is `none` if it cannot be opened. -/
def parseConfiguration (path : Bytes) (file : Option Bytes) (configuration : Configuration) :
    Parsed Configuration :=
  ConfigurationFile.parseConfiguration parseSectionHeader parseBodyLine .options
    checkConfiguration path file configuration

/-! ### Mountpoints -/

/-- A name that a line of a file can give and `parse_nats_mountpoint_body_line`
    accepts as it is. -/
structure PlainName (m : Bytes) : Prop where
  bodyLine : BodyLine m
  plain : ∀ b ∈ m, b ∉ mountpointDelimiters

variable {line m path text : Bytes} {configuration configuration' : Configuration}

/-- A configuration passes the checks if its delays are ordered, its lists not empty, and there
    is a destination. -/
theorem checkConfiguration_eq_none_iff : checkConfiguration configuration = none ↔
    configuration.options.reconnectMinSec ≤ configuration.options.reconnectMaxSec ∧
      configuration.natsSources ≠ [] ∧ configuration.natsMountpoints ≠ [] ∧
      configuration.hasNtripDestination = true := by
  rw [checkConfiguration, ← Int32.not_lt]
  split_ifs with hdelays hsources hmountpoints hdestination <;> simp_all

/-- The mountpoints accepted are those that are not empty and contain no delimiter,
    once they are trimmed. -/
theorem parseNatsMountpointBodyLine_eq_iff :
    parseNatsMountpointBodyLine line configuration = (none, configuration') ↔
      trimCopy line ≠ [] ∧ (∀ b ∈ trimCopy line, b ∉ mountpointDelimiters) ∧
        configuration' = { configuration with
          natsMountpoints := configuration.natsMountpoints ++ [trimCopy line] } := by
  rw [parseNatsMountpointBodyLine]
  split_ifs with hempty hplain
  · simp [hempty]
  · simp only [List.any_eq_true, decide_eq_true_eq] at hplain
    obtain ⟨b, hb, hd⟩ := hplain
    refine iff_of_false (by simp) ?_
    rintro ⟨-, h, -⟩
    exact h b hb hd
  · simp only [List.any_eq_true, decide_eq_true_eq, not_exists, not_and] at hplain
    rw [Prod.mk.injEq, and_iff_right rfl, and_iff_right hempty, and_iff_right hplain, eq_comm]

/-- All the mountpoints read so far are plain names. -/
def PlainMountpoints (configuration : Configuration) : Prop :=
  ∀ m ∈ configuration.natsMountpoints, PlainName m

theorem plainMountpoints_body (current : Section) (hl : BodyLine line)
    (h : PlainMountpoints configuration) :
    PlainMountpoints (parseBodyLine current line configuration).2 := by
  cases current with
  | options => exact h
  | natsSources =>
    rw [parseBodyLine, parseNatsSourcesBodyLine]
    split <;> exact h
  | natsMountpoints =>
    rw [parseBodyLine]
    rcases hp : parseNatsMountpointBodyLine line configuration with ⟨_ | error, configuration'⟩
    · obtain ⟨-, hplain, rfl⟩ := parseNatsMountpointBodyLine_eq_iff.1 hp
      rw [trimCopy_of_trimmed hl.trimmed] at hplain ⊢
      intro m hm
      rcases List.mem_append.1 hm with hm | hm
      · exact h m hm
      · rw [List.mem_singleton.1 hm]
        exact ⟨hl, hplain⟩
    · rw [parseNatsMountpointBodyLine] at hp
      split_ifs at hp <;> obtain ⟨herror, rfl⟩ := Prod.mk.inj hp
      · exact h
      · exact h
      · simp at herror
  | ntripDestinations =>
    rw [parseBodyLine, parseNtripDestinationBodyLine]
    repeat' split
    all_goals exact h

/-- The mountpoints of a file that is accepted are plain names. -/
theorem plainMountpoints_of_accepted {file : Option Bytes}
    (h : parseConfiguration path file {} = (none, configuration)) :
    PlainMountpoints configuration := by
  obtain ⟨text, -, hparse, -⟩ := ConfigurationFile.parseConfiguration_eq_none_iff.1 h
  have hinv : PlainMountpoints
      (parseLines parseSectionHeader parseBodyLine .options (lines text) {}).2 :=
    parseLines_invariant (fun l hl => not_mem_of_mem_lines hl)
      (fun current line configuration => plainMountpoints_body current) (by simp [PlainMountpoints])
  rwa [hparse] at hinv

/-- A file with the mountpoint `m`. -/
def fileOf (m : Bytes) : Bytes :=
  ascii "[nats_sources]" ++ 10 :: (ascii "nats://h:1" ++ 10 ::
    (ascii "[ntrip_destinations]" ++ 10 :: (ascii "u:p h:1" ++ 10 ::
      (ascii "[nats_mountpoints]" ++ 10 :: m))))

/-- The configuration that this file gives. -/
def configurationOf (m : Bytes) : Configuration where
  natsSources := [⟨ascii "nats://h:1"⟩]
  natsMountpoints := [m]
  ntripDestination :=
    { user := ascii "u", pass := ascii "p", host := ascii "h", port := 1 }
  hasNtripDestination := true

/-- Any plain name can be a mountpoint. -/
theorem parseConfiguration_fileOf (hm : PlainName m) :
    parseConfiguration path (some (fileOf m)) {} = (none, configurationOf m) := by
  have hparse : parseLines parseSectionHeader parseBodyLine .options (lines (fileOf m)) {} =
      (none, configurationOf m) := by
    rw [fileOf, lines_append (by decide), lines_append (by decide), lines_append (by decide),
      lines_append (by decide), lines_append (by decide),
      lines_last hm.bodyLine.noNewline hm.bodyLine.nonempty]
    change parseLines parseSectionHeader parseBodyLine .natsMountpoints [m]
      { configurationOf m with natsMountpoints := [] } = _
    have htrim := trimCopy_of_trimmed hm.bodyLine.trimmed
    rw [parseLines_body hm.bodyLine, parseBodyLine, parseNatsMountpointBodyLine_eq_iff.2
      ⟨by rw [htrim]; exact hm.bodyLine.nonempty, by rw [htrim]; exact hm.plain, rfl⟩, htrim]
    rfl
  exact ConfigurationFile.parseConfiguration_eq_none_iff.2 ⟨_, rfl, hparse, rfl⟩

end RtcmBridge.Nats2Ntrip

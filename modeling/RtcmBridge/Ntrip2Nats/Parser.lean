import RtcmBridge.ConfigurationFile

/-!
# The configuration of `ntrip2nats`
-/

namespace RtcmBridge

/-- `configuration::NatsDestination`. -/
structure NatsDestination where
  server : Bytes

namespace Ntrip2Nats

open ConfigurationFile

/-- `configuration::Section`. -/
inductive Section
  | options
  | ntripSources
  | natsDestinations

/-- `configuration::Configuration`. -/
structure Configuration where
  options : Options := {}
  ntripSources : List NtripSource := []
  natsDestinations : List NatsDestination := []

/-- `parse_section_header`. -/
def parseSectionHeader : Bytes → Except Bytes Section :=
  ConfigurationFile.parseSectionHeader [(ascii "options", .options),
    (ascii "nats_destinations", .natsDestinations), (ascii "ntrip_sources", .ntripSources)]

/-- `parse_options_body_line`. -/
def parseOptionsBodyLine (line : Bytes) (configuration : Configuration) : Parsed Configuration :=
  let (error, options) := parseOptionsLine line configuration.options
  (error, { configuration with options })

/-- `parse_nats_destinations_body_line`. -/
def parseNatsDestinationsBodyLine (line : Bytes) (configuration : Configuration) :
    Parsed Configuration :=
  match parseNatsLine (ascii "destination") line with
  | .error error => (some error, configuration)
  | .ok server =>
    (none, { configuration with
      natsDestinations := configuration.natsDestinations ++ [{ server }] })

/-- `parse_ntrip_sources_body_line`. -/
def parseNtripSourcesBodyLine (line : Bytes) (configuration : Configuration) :
    Parsed Configuration :=
  match delimiter 58 line 0 with
  | none => (some (ascii "Invalid NTRIP source format: missing ':'"), configuration)
  | some userLimit =>
    match delimiter 32 line (userLimit + 1) with
    | none => (some (ascii "Invalid NTRIP source format: missing space"), configuration)
    | some passLimit =>
      match delimiter 58 line (passLimit + 1) with
      | none => (some (ascii "Invalid NTRIP source format: missing ':'"), configuration)
      | some hostLimit =>
        match delimiter 47 line (hostLimit + 1) with
        | none => (some (ascii "Invalid NTRIP source format: missing '/'"), configuration)
        | some portLimit =>
          let user := line.take userLimit
          let pass := (line.drop (userLimit + 1)).take (passLimit - userLimit - 1)
          let host := (line.drop (passLimit + 1)).take (hostLimit - passLimit - 1)
          match parsePositiveInt
              ((line.drop (hostLimit + 1)).take (portLimit - hostLimit - 1)) with
          | none => (some (ascii "Invalid NTRIP source format: invalid port"), configuration)
          | some port =>
            let name := line.drop (portLimit + 1)
            (none, { configuration with
              ntripSources := configuration.ntripSources ++ [{ user, pass, host, port, name }] })

/-- The parser of the lines of a section. -/
def parseBodyLine : Section → Bytes → Configuration → Parsed Configuration
  | .options => parseOptionsBodyLine
  | .natsDestinations => parseNatsDestinationsBodyLine
  | .ntripSources => parseNtripSourcesBodyLine

/-- What `parse_configuration` checks after the last line. -/
def checkConfiguration (configuration : Configuration) : Option Bytes :=
  if configuration.options.reconnectMinSec > configuration.options.reconnectMaxSec then
    some (ascii "Value of reconnect_min_sec cannot be greater than reconnect_max_sec")
  else if configuration.natsDestinations = [] then
    some (ascii "No NATS destinations configured")
  else if configuration.ntripSources = [] then
    some (ascii "No NTRIP sources configured")
  else none

/-- `parse_configuration`. The file is `none` if it cannot be opened. -/
def parseConfiguration (path : Bytes) (file : Option Bytes) (configuration : Configuration) :
    Parsed Configuration :=
  ConfigurationFile.parseConfiguration parseSectionHeader parseBodyLine .options
    checkConfiguration path file configuration

/-! ### Sources -/

/-- A line of a source, in its parts. -/
structure SourceLine where
  user : Bytes
  pass : Bytes
  host : Bytes
  port : Bytes
  name : Bytes
  number : Int32
  user_part : Part 58 user
  pass_part : Part 32 pass
  host_part : Part 58 host
  port_part : Part 47 port
  port_number : parsePositiveInt port = some number

namespace SourceLine

variable (l : SourceLine)

/-- The line with these parts. -/
def line : Bytes :=
  l.user ++ 58 :: (l.pass ++ 32 :: (l.host ++ 58 :: (l.port ++ 47 :: l.name)))

/-- The source that the line gives. -/
def source : NtripSource :=
  { user := l.user, pass := l.pass, host := l.host, name := l.name, port := l.number }

end SourceLine

variable {line : Bytes} {configuration configuration' : Configuration}

/-- A configuration passes the checks if its delays are ordered and its lists not empty. -/
theorem checkConfiguration_eq_none_iff : checkConfiguration configuration = none ↔
    configuration.options.reconnectMinSec ≤ configuration.options.reconnectMaxSec ∧
      configuration.natsDestinations ≠ [] ∧ configuration.ntripSources ≠ [] := by
  rw [checkConfiguration, ← Int32.not_lt]
  split_ifs with hdelays hdestinations hsources <;> simp [*]

/-- A line that is accepted is one in five parts, and adds its source. -/
theorem exists_sourceLine
    (h : parseNtripSourcesBodyLine line configuration = (none, configuration')) :
    ∃ l : SourceLine, line = l.line ∧ configuration' =
      { configuration with ntripSources := configuration.ntripSources ++ [l.source] } := by
  rw [parseNtripSourcesBodyLine] at h
  rcases hu : delimiter 58 line 0 with _ | a
  · simp [hu] at h
  rcases hp : delimiter 32 line (a + 1) with _ | b
  · simp [hu, hp] at h
  rcases hh : delimiter 58 line (b + 1) with _ | c
  · simp [hu, hp, hh] at h
  rcases ht : delimiter 47 line (c + 1) with _ | d
  · simp [hu, hp, hh, ht] at h
  simp only [hu, hp, hh, ht] at h
  obtain ⟨user, pass, host, m, hline, user_part, pass_part, host_part, huser, hpass, hhost, hm⟩ :=
    credentials_of_delimiters hu hp hh
  obtain ⟨port, name, hdrop, port_part, hport, hname⟩ := cut_of_delimiter ht
  simp only [Nat.sub_sub] at h
  rw [huser, hpass, hhost, hport, hname] at h
  rcases hn : parsePositiveInt port with _ | number
  · simp [hn] at h
  simp only [hn] at h
  refine ⟨⟨user, pass, host, port, name, number, user_part, pass_part, host_part, port_part,
    hn⟩, ?_, (Prod.mk.inj h).2.symm⟩
  rw [SourceLine.line, hline, ← hm, hdrop]

theorem parseNtripSourcesBodyLine_line (l : SourceLine) (configuration : Configuration) :
    parseNtripSourcesBodyLine l.line configuration =
      (none, { configuration with ntripSources := configuration.ntripSources ++ [l.source] }) := by
  rw [parseNtripSourcesBodyLine]
  have h₀ : l.line.drop 0 = l.line := List.drop_zero
  obtain ⟨huser, h₁⟩ := cut_of_drop h₀
  obtain ⟨hpass, h₂⟩ := cut_of_drop h₁
  obtain ⟨hhost, h₃⟩ := cut_of_drop h₂
  obtain ⟨hport, h₄⟩ := cut_of_drop h₃
  rw [List.drop_zero, Nat.sub_zero] at huser
  simp only [delimiter_of_drop h₀ l.user_part, delimiter_of_drop h₁ l.pass_part,
    delimiter_of_drop h₂ l.host_part, delimiter_of_drop h₃ l.port_part, Nat.sub_sub, huser,
    hpass, hhost, hport, h₄, l.port_number]
  rfl

/-- The lines accepted are those in five parts, and each adds its source. -/
theorem parseNtripSourcesBodyLine_eq_iff :
    parseNtripSourcesBodyLine line configuration = (none, configuration') ↔
      ∃ l : SourceLine, line = l.line ∧ configuration' =
        { configuration with ntripSources := configuration.ntripSources ++ [l.source] } := by
  refine ⟨exists_sourceLine, ?_⟩
  rintro ⟨l, rfl, rfl⟩
  exact parseNtripSourcesBodyLine_line l configuration

/-- A mountpoint of `ntrip2nats`: the name of a source of a file that it accepts. -/
def IsMountpoint (m : Bytes) : Prop :=
  ∃ path file configuration, parseConfiguration path file {} = (none, configuration) ∧
    ∃ source ∈ configuration.ntripSources, source.name = m

/-- A source with the mountpoint `m`. -/
def sourceOf (m : Bytes) : SourceLine where
  user := ascii "u"
  pass := ascii "p"
  host := ascii "h"
  port := ascii "1"
  name := m
  number := 1
  user_part := ⟨by decide, by decide⟩
  pass_part := ⟨by decide, by decide⟩
  host_part := ⟨by decide, by decide⟩
  port_part := ⟨by decide, by decide⟩
  port_number := by decide

/-- A file with this source. -/
def fileOf (m : Bytes) : Bytes :=
  ascii "[nats_destinations]" ++ 10 :: (ascii "nats://h:1" ++ 10 ::
    (ascii "[ntrip_sources]" ++ 10 :: (sourceOf m).line))

/-- The configuration that this file gives. -/
def configurationOf (m : Bytes) : Configuration :=
  { ntripSources := [(sourceOf m).source], natsDestinations := [⟨ascii "nats://h:1"⟩] }

/-- Any name can be a mountpoint that has no line end and does not end with white space. -/
theorem isMountpoint_of_last {m : Bytes} (hm : 10 ∉ m)
    (hlast : ∀ b ∈ m.getLast?, isSpace b = false) : IsMountpoint m := by
  have hsplit : (sourceOf m).line = ascii "u:p h:1/" ++ m := rfl
  have hline : BodyLine (sourceOf m).line := by
    have hhead : (sourceOf m).line.head? = some 117 := rfl
    refine ⟨⟨?_, ?_⟩, List.cons_ne_nil _ _, by simp [hhead], by simp [hhead], ?_⟩
    · rintro b ⟨⟩
      rfl
    · rw [hsplit]
      refine last_append_not_space ?_ hlast
      rintro b ⟨⟩
      rfl
    · rw [hsplit, List.mem_append, not_or]
      exact ⟨by decide, hm⟩
  have hparse : parseLines parseSectionHeader parseBodyLine .options (lines (fileOf m)) {} =
      (none, configurationOf m) := by
    rw [fileOf, lines_append (by decide), lines_append (by decide), lines_append (by decide),
      lines_last hline.noNewline hline.nonempty]
    change parseLines parseSectionHeader parseBodyLine .ntripSources [(sourceOf m).line]
      { natsDestinations := [⟨ascii "nats://h:1"⟩] } = _
    rw [parseLines_body hline, parseBodyLine, parseNtripSourcesBodyLine_line]
    rfl
  refine ⟨[], some (fileOf m), configurationOf m, ?_, (sourceOf m).source,
    List.mem_singleton_self _, rfl⟩
  exact ConfigurationFile.parseConfiguration_eq_none_iff.2 ⟨_, rfl, hparse, rfl⟩

end Ntrip2Nats

end RtcmBridge

import RtcmBridge.AcceptedOptions
import RtcmBridge.Endpoints.Grammar

/-!
# The entries of a file that is accepted

A section that is a list has one entry for each of its lines, in the order of the
file (`entries_of_accepted`). The entries of the two programs are the servers,
the sources and the mountpoints; the destination of `nats2ntrip` is not a list,
and comes from one of the lines of its section.
-/

namespace RtcmBridge

namespace ConfigurationFile

section Entries

variable {σ γ : Type} {header : Bytes → Except Bytes σ} {body : σ → Bytes → γ → Parsed γ}
  {current : σ} {ls : List Bytes} {configuration configuration' : γ} {inSection : σ → Bool}

/-- The lines in the sections that `inSection` holds of. -/
def sectionLines (header : Bytes → Except Bytes σ) (inSection : σ → Bool) (current : σ)
    (ls : List Bytes) : List Bytes :=
  ((bodyLines header current ls).filter fun p => inSection p.1).map Prod.snd

/-- The lines that are handed to the parsers of the sections. -/
theorem bodyLine_of_mem (hls : ∀ line ∈ ls, 10 ∉ line) {p : σ × Bytes}
    (hp : p ∈ bodyLines header current ls) : BodyLine p.2 := by
  induction ls generalizing current with
  | nil => exact absurd hp List.not_mem_nil
  | cons line ls ih =>
    have hls' := fun l hl => hls l (List.mem_cons_of_mem _ hl)
    rw [bodyLines] at hp
    split_ifs at hp with hl hc
    · split at hp
      · exact absurd hp List.not_mem_nil
      · exact ih hls' hp
    · rcases List.mem_cons.1 hp with rfl | hp
      · exact ⟨trimmed_trimCopy line, hl.1, hl.2, hc, fun h =>
          hls line List.mem_cons_self ((isInfix_trimCopy line).subset h)⟩
      · exact ih hls' hp
    · exact ih hls' hp

/-- The lines of a section are neither headers, nor empty, nor comments. -/
theorem bodyLine_of_mem_sectionLines (hls : ∀ line ∈ ls, 10 ∉ line) {line : Bytes}
    (h : line ∈ sectionLines header inSection current ls) : BodyLine line := by
  obtain ⟨p, hp, rfl⟩ := List.mem_map.1 h
  exact bodyLine_of_mem hls (List.mem_filter.1 hp).1

/-- The parser of a section that adds an entry for each line, and leaves the
    entries of the other sections as they are. -/
structure AddsEntries {ε : Type} (body : σ → Bytes → γ → Parsed γ) (inSection : σ → Bool)
    (entriesIn : γ → List ε) (Gives : Bytes → ε → Prop) : Prop where
  add : ∀ current line configuration configuration', inSection current = true →
    body current line configuration = (none, configuration') →
    ∃ entry, Gives line entry ∧ entriesIn configuration' = entriesIn configuration ++ [entry]
  keep : ∀ current line configuration, inSection current = false →
    entriesIn (body current line configuration).2 = entriesIn configuration

/-- A list section has one entry for each of its lines, in their order. -/
theorem AddsEntries.entries_of_accepted {ε : Type} {entriesIn : γ → List ε}
    {Gives : Bytes → ε → Prop} (hadds : AddsEntries body inSection entriesIn Gives)
    (hempty : entriesIn configuration = [])
    (hparse : parseLines header body current ls configuration = (none, configuration')) :
    List.Forall₂ Gives (sectionLines header inSection current ls) (entriesIn configuration') := by
  refine parseLines_accepted (P := fun seen configuration => List.Forall₂ Gives
    ((seen.filter fun p => inSection p.1).map Prod.snd) (entriesIn configuration))
    (fun seen current line configuration configuration' h hbody => ?_)
    (hempty ▸ List.Forall₂.nil) hparse
  rw [List.filter_append, List.map_append]
  cases hcurrent : inSection current with
  | true =>
    obtain ⟨entry, hgives, hentry⟩ := hadds.add _ _ _ _ hcurrent hbody
    rw [hentry]
    exact List.rel_append h (by simpa [hcurrent] using hgives)
  | false =>
    have hkeep := hadds.keep current line configuration hcurrent
    rw [hbody] at hkeep
    simpa [hcurrent, hkeep] using h

/-- Each entry is that of a line. -/
theorem exists_line_of_entry {ε : Type} {Gives : Bytes → ε → Prop} {ls : List Bytes}
    {entries : List ε} (h : List.Forall₂ Gives ls entries) {entry : ε} (hentry : entry ∈ entries) :
    ∃ line ∈ ls, Gives line entry := by
  induction h with
  | nil => exact absurd hentry List.not_mem_nil
  | cons hgives _ ih =>
    rcases List.mem_cons.1 hentry with rfl | hentry
    · exact ⟨_, List.mem_cons_self, hgives⟩
    · obtain ⟨line, hline, hgives⟩ := ih hentry
      exact ⟨line, List.mem_cons_of_mem _ hline, hgives⟩

/-- The line is one of a server, which the entry has. -/
def GivesServer (line : Bytes) (entry : NatsDestination) : Prop :=
  ∃ l : ServerLine, line = l.line ∧ entry.server = l.server

end Entries

end ConfigurationFile

open ConfigurationFile

/-! ### `ntrip2nats` -/

namespace Ntrip2Nats

/-- The section `[nats_destinations]`. -/
def Section.isNatsDestinations : Section → Bool
  | .natsDestinations => true
  | _ => false

/-- The section `[ntrip_sources]`. -/
def Section.isNtripSources : Section → Bool
  | .ntripSources => true
  | _ => false

/-- The line is one of a source, which is the entry. -/
def GivesSource (line : Bytes) (entry : NtripSource) : Prop :=
  ∃ l : SourceLine, line = l.line ∧ entry = l.source

/-- The lines of a file in `[nats_destinations]`. -/
def natsDestinationLines (text : Bytes) : List Bytes :=
  sectionLines parseSectionHeader Section.isNatsDestinations .options (lines text)

/-- The lines of a file in `[ntrip_sources]`. -/
def ntripSourceLines (text : Bytes) : List Bytes :=
  sectionLines parseSectionHeader Section.isNtripSources .options (lines text)

/-- A server is added whatever the configuration is. -/
theorem parseNatsDestinationsBodyLine_eq (line : Bytes) (configuration : Configuration) :
    parseNatsDestinationsBodyLine line configuration =
      ((parseNatsDestinationsBodyLine line {}).1, { configuration with
        natsDestinations := configuration.natsDestinations ++
          (parseNatsDestinationsBodyLine line {}).2.natsDestinations }) := by
  rw [parseNatsDestinationsBodyLine, parseNatsDestinationsBodyLine]
  split <;> simp

/-- A source is added whatever the configuration is. -/
theorem parseNtripSourcesBodyLine_eq (line : Bytes) (configuration : Configuration) :
    parseNtripSourcesBodyLine line configuration =
      ((parseNtripSourcesBodyLine line {}).1, { configuration with
        ntripSources := configuration.ntripSources ++
          (parseNtripSourcesBodyLine line {}).2.ntripSources }) := by
  rw [parseNtripSourcesBodyLine, parseNtripSourcesBodyLine]
  repeat' split
  all_goals simp

theorem addsEntries_natsDestinations :
    AddsEntries parseBodyLine Section.isNatsDestinations Configuration.natsDestinations
      GivesServer where
  add current line configuration configuration' hcurrent hbody := by
    cases current with
    | natsDestinations =>
      rw [parseBodyLine, parseNatsDestinationsBodyLine] at hbody
      rcases hparse : parseNatsLine (ascii "destination") line with error | server
      · simp [hparse] at hbody
      · simp only [hparse] at hbody
        obtain ⟨l, hline, hserver⟩ := parseNatsLine_eq_ok_iff.1 hparse
        exact ⟨⟨server⟩, ⟨l, hline, hserver⟩, (Prod.mk.inj hbody).2 ▸ rfl⟩
    | _ => exact absurd hcurrent (by decide)
  keep current line configuration hcurrent := by
    cases current with
    | natsDestinations => exact absurd hcurrent (by decide)
    | options => rfl
    | ntripSources => rw [parseBodyLine, parseNtripSourcesBodyLine_eq]

theorem addsEntries_ntripSources :
    AddsEntries parseBodyLine Section.isNtripSources Configuration.ntripSources GivesSource where
  add current line configuration configuration' hcurrent hbody := by
    cases current with
    | ntripSources =>
      obtain ⟨l, hline, rfl⟩ := exists_sourceLine hbody
      exact ⟨l.source, ⟨l, hline, rfl⟩, rfl⟩
    | _ => exact absurd hcurrent (by decide)
  keep current line configuration hcurrent := by
    cases current with
    | ntripSources => exact absurd hcurrent (by decide)
    | options => rfl
    | natsDestinations => rw [parseBodyLine, parseNatsDestinationsBodyLine_eq]

end Ntrip2Nats

/-! ### `nats2ntrip` -/

namespace Nats2Ntrip

/-- The section `[nats_sources]`. -/
def Section.isNatsSources : Section → Bool
  | .natsSources => true
  | _ => false

/-- The section `[nats_mountpoints]`, under either of its names. -/
def Section.isNatsMountpoints : Section → Bool
  | .natsMountpoints => true
  | _ => false

/-- The section `[ntrip_destinations]`. -/
def Section.isNtripDestinations : Section → Bool
  | .ntripDestinations => true
  | _ => false

/-- The lines of a file in `[nats_sources]`. -/
def natsSourceLines (text : Bytes) : List Bytes :=
  sectionLines parseSectionHeader Section.isNatsSources .options (lines text)

/-- The lines of a file in `[nats_mountpoints]`. -/
def natsMountpointLines (text : Bytes) : List Bytes :=
  sectionLines parseSectionHeader Section.isNatsMountpoints .options (lines text)

/-- A server is added whatever the configuration is. -/
theorem parseNatsSourcesBodyLine_eq (line : Bytes) (configuration : Configuration) :
    parseNatsSourcesBodyLine line configuration =
      ((parseNatsSourcesBodyLine line {}).1, { configuration with
        natsSources := configuration.natsSources ++
          (parseNatsSourcesBodyLine line {}).2.natsSources }) := by
  rw [parseNatsSourcesBodyLine, parseNatsSourcesBodyLine]
  split <;> simp

/-- A mountpoint is added whatever the configuration is. -/
theorem parseNatsMountpointBodyLine_eq (line : Bytes) (configuration : Configuration) :
    parseNatsMountpointBodyLine line configuration =
      ((parseNatsMountpointBodyLine line {}).1, { configuration with
        natsMountpoints := configuration.natsMountpoints ++
          (parseNatsMountpointBodyLine line {}).2.natsMountpoints }) := by
  rw [parseNatsMountpointBodyLine, parseNatsMountpointBodyLine]
  split_ifs <;> simp

/-- The destination is stored from what it was before, whatever else the
    configuration is. -/
theorem parseNtripDestinationBodyLine_eq (line : Bytes) (configuration : Configuration) :
    parseNtripDestinationBodyLine line configuration =
      let stored := (parseNtripDestinationBodyLine line
        { ntripDestination := configuration.ntripDestination
          hasNtripDestination := configuration.hasNtripDestination }).2
      ((parseNtripDestinationBodyLine line {}).1, { configuration with
        ntripDestination := stored.ntripDestination
        hasNtripDestination := stored.hasNtripDestination }) := by
  rw [parseNtripDestinationBodyLine, parseNtripDestinationBodyLine, parseNtripDestinationBodyLine]
  repeat' split
  all_goals rfl

theorem addsEntries_natsSources :
    AddsEntries parseBodyLine Section.isNatsSources Configuration.natsSources GivesServer where
  add current line configuration configuration' hcurrent hbody := by
    cases current with
    | natsSources =>
      rw [parseBodyLine, parseNatsSourcesBodyLine] at hbody
      rcases hparse : parseNatsLine (ascii "source") line with error | server
      · simp [hparse] at hbody
      · simp only [hparse] at hbody
        obtain ⟨l, hline, hserver⟩ := parseNatsLine_eq_ok_iff.1 hparse
        exact ⟨⟨server⟩, ⟨l, hline, hserver⟩, (Prod.mk.inj hbody).2 ▸ rfl⟩
    | _ => exact absurd hcurrent (by decide)
  keep current line configuration hcurrent := by
    cases current with
    | natsSources => exact absurd hcurrent (by decide)
    | options => rfl
    | natsMountpoints => rw [parseBodyLine, parseNatsMountpointBodyLine_eq]
    | ntripDestinations => rw [parseBodyLine, parseNtripDestinationBodyLine_eq]

theorem addsEntries_natsMountpoints :
    AddsEntries parseBodyLine Section.isNatsMountpoints Configuration.natsMountpoints
      fun line entry => entry = trimCopy line where
  add current line configuration configuration' hcurrent hbody := by
    cases current with
    | natsMountpoints =>
      obtain ⟨-, -, rfl⟩ := parseNatsMountpointBodyLine_eq_iff.1 hbody
      exact ⟨_, rfl, rfl⟩
    | _ => exact absurd hcurrent (by decide)
  keep current line configuration hcurrent := by
    cases current with
    | natsMountpoints => exact absurd hcurrent (by decide)
    | options => rfl
    | natsSources => rw [parseBodyLine, parseNatsSourcesBodyLine_eq]
    | ntripDestinations => rw [parseBodyLine, parseNtripDestinationBodyLine_eq]

/-- The destination of a file that has one is that of one of its lines. -/
theorem exists_destinationLine_of_parseLines {ls : List Bytes} {configuration : Configuration}
    (hparse : parseLines parseSectionHeader parseBodyLine .options ls {} = (none, configuration))
    (hhas : configuration.hasNtripDestination = true) :
    ∃ l : DestinationLine, l.line ∈ sectionLines parseSectionHeader Section.isNtripDestinations
      .options ls ∧ configuration.ntripDestination = l.destination := by
  refine parseLines_accepted (P := fun seen configuration =>
    configuration.hasNtripDestination = true → ∃ l : DestinationLine,
      l.line ∈ (seen.filter fun p => p.1.isNtripDestinations).map Prod.snd ∧
        configuration.ntripDestination = l.destination)
    (fun seen current line configuration configuration' h hbody => ?_)
    (fun h => absurd h (by decide)) hparse hhas
  -- A destination is given by the last line of its section; the other sections keep it.
  rw [List.filter_append, List.map_append]
  cases current with
  | ntripDestinations =>
    obtain ⟨l, rfl, rfl⟩ := exists_destinationLine hbody
    exact fun _ => ⟨l, List.mem_append_right _ List.mem_cons_self, rfl⟩
  | options =>
    rw [← (Prod.mk.inj hbody).2]
    exact fun hhas => (h hhas).imp fun l hl => ⟨List.mem_append_left _ hl.1, hl.2⟩
  | natsSources =>
    rw [parseBodyLine, parseNatsSourcesBodyLine_eq] at hbody
    rw [← (Prod.mk.inj hbody).2]
    exact fun hhas => (h hhas).imp fun l hl => ⟨List.mem_append_left _ hl.1, hl.2⟩
  | natsMountpoints =>
    rw [parseBodyLine, parseNatsMountpointBodyLine_eq] at hbody
    rw [← (Prod.mk.inj hbody).2]
    exact fun hhas => (h hhas).imp fun l hl => ⟨List.mem_append_left _ hl.1, hl.2⟩

end Nats2Ntrip

end RtcmBridge

import RtcmBridge.Endpoints.Entries
import RtcmBridge.Layout.Blocks

/-!
# The layout of the configuration files of the two programs

What the layout of a file cannot change: whether the file is accepted, and the
configuration then. The configuration has an entry for each line of a list
section, and the options are the last ones given.
-/

namespace RtcmBridge

open ConfigurationFile

/-- Whether an option is accepted does not depend on the others. -/
theorem fst_parseOptionsLine (line : Bytes) (options options' : Options) :
    (parseOptionsLine line options).1 = (parseOptionsLine line options').1 := by
  have hoption (key value : Bytes) (set set' : Int32 → Options) :
      (parseOption key value options set).1 = (parseOption key value options' set').1 := by
    rw [parseOption, parseOption]
    split <;> rfl
  rw [parseOptionsLine, parseOptionsLine]
  split
  · rfl
  · dsimp only
    split_ifs
    all_goals first | rfl | exact hoption ..

/-! ### Whole files -/

section Files

variable {σ γ : Type} {body : σ → Bytes → γ → Parsed γ} {current : σ} {check : γ → Option Bytes}
  {path text text' : Bytes} {configuration : γ}

/-- The layout of a file does not change its configuration. -/
theorem parseConfiguration_of_sameLayout {names : List (Bytes × σ)}
    (h : SameLayout (lines text) (lines text')) :
    parseConfiguration (parseSectionHeader names) body current check path (some text)
        configuration =
      parseConfiguration (parseSectionHeader names) body current check path (some text')
        configuration := by
  rw [parseConfiguration, parseConfiguration, parseLines_of_sameLayout h]

/-- The checks after the last line see the configuration only. -/
theorem accepted_parseConfiguration {header : Bytes → Except Bytes σ} :
    accepted (parseConfiguration header body current check path (some text) configuration) =
      (accepted (parseLines header body current (lines text) configuration)).filter
        fun configuration => (check configuration).isNone := by
  rw [parseConfiguration]
  rcases parseLines header body current (lines text) configuration with ⟨_ | error, between⟩
  · change accepted (check between, between) = (some between).filter fun c => (check c).isNone
    rw [Option.filter_some]
    cases check between <;> rfl
  · rfl

/-- The order of the sections of a file does not change its configuration. -/
theorem accepted_of_permuted {header : Bytes → Except Bytes σ} (hbody : Separate body)
    (h : Permuted header (lines text) (lines text')) :
    accepted (parseConfiguration header body current check path (some text) configuration) =
      accepted (parseConfiguration header body current check path (some text')
        configuration) := by
  rw [accepted_parseConfiguration, accepted_parseConfiguration,
    hbody.accepted_of_permuted h current configuration]

end Files

namespace Ntrip2Nats

/-- The servers that a line gives. -/
def newServers (line : Bytes) : List NatsDestination :=
  (parseNatsDestinationsBodyLine line {}).2.natsDestinations

/-- The sources that a line gives. -/
def newSources (line : Bytes) : List NtripSource :=
  (parseNtripSourcesBodyLine line {}).2.ntripSources

theorem separate_parseBodyLine : Separate parseBodyLine where
  error current line configuration configuration' := by
    cases current with
    | options => exact fst_parseOptionsLine ..
    | natsDestinations =>
      rw [parseBodyLine, parseNatsDestinationsBodyLine_eq line configuration,
        parseNatsDestinationsBodyLine_eq line configuration']
    | ntripSources =>
      rw [parseBodyLine, parseNtripSourcesBodyLine_eq line configuration,
        parseNtripSourcesBodyLine_eq line configuration']
  store current current' line line' configuration hne := by
    have hservers (line : Bytes) (c : Configuration) : (parseNatsDestinationsBodyLine line c).2 =
        { c with natsDestinations := c.natsDestinations ++ newServers line } :=
      congrArg Prod.snd (parseNatsDestinationsBodyLine_eq line c)
    have hsources (line : Bytes) (c : Configuration) : (parseNtripSourcesBodyLine line c).2 =
        { c with ntripSources := c.ntripSources ++ newSources line } :=
      congrArg Prod.snd (parseNtripSourcesBodyLine_eq line c)
    -- Each section only stores into a part of its own.
    cases current <;> cases current'
    all_goals first
      | exact absurd rfl hne
      | simp only [parseBodyLine, parseOptionsBodyLine, hservers, hsources]

end Ntrip2Nats

namespace Nats2Ntrip

/-- The servers that a line gives. -/
def newServers (line : Bytes) : List NatsDestination :=
  (parseNatsSourcesBodyLine line {}).2.natsSources

/-- The mountpoints that a line gives. -/
def newMountpoints (line : Bytes) : List Bytes :=
  (parseNatsMountpointBodyLine line {}).2.natsMountpoints

/-- What a line leaves of the destination `destination`. -/
def stored (line : Bytes) (destination : NtripSource) (has : Bool) : Configuration :=
  (parseNtripDestinationBodyLine line
    { ntripDestination := destination, hasNtripDestination := has }).2

theorem separate_parseBodyLine : Separate parseBodyLine where
  error current line configuration configuration' := by
    cases current with
    | options => exact fst_parseOptionsLine ..
    | natsSources =>
      rw [parseBodyLine, parseNatsSourcesBodyLine_eq line configuration,
        parseNatsSourcesBodyLine_eq line configuration']
    | natsMountpoints =>
      rw [parseBodyLine, parseNatsMountpointBodyLine_eq line configuration,
        parseNatsMountpointBodyLine_eq line configuration']
    | ntripDestinations =>
      rw [parseBodyLine, parseNtripDestinationBodyLine_eq line configuration,
        parseNtripDestinationBodyLine_eq line configuration']
  store current current' line line' configuration hne := by
    have hservers (line : Bytes) (c : Configuration) : (parseNatsSourcesBodyLine line c).2 =
        { c with natsSources := c.natsSources ++ newServers line } :=
      congrArg Prod.snd (parseNatsSourcesBodyLine_eq line c)
    have hmountpoints (line : Bytes) (c : Configuration) : (parseNatsMountpointBodyLine line c).2 =
        { c with natsMountpoints := c.natsMountpoints ++ newMountpoints line } :=
      congrArg Prod.snd (parseNatsMountpointBodyLine_eq line c)
    have hstored (line : Bytes) (c : Configuration) : (parseNtripDestinationBodyLine line c).2 =
        let left := stored line c.ntripDestination c.hasNtripDestination
        { c with
          ntripDestination := left.ntripDestination
          hasNtripDestination := left.hasNtripDestination } :=
      congrArg Prod.snd (parseNtripDestinationBodyLine_eq line c)
    cases current <;> cases current'
    all_goals first
      | exact absurd rfl hne
      | simp only [parseBodyLine, parseOptionsBodyLine, hservers, hmountpoints, hstored]

/-- The mountpoints are the lines of their section. -/
theorem natsMountpoints_of_parseLines {text : Bytes} {configuration : Configuration}
    (h : parseLines parseSectionHeader parseBodyLine .options (lines text) {} =
      (none, configuration)) :
    configuration.natsMountpoints = natsMountpointLines text := by
  have hentries := addsEntries_natsMountpoints.entries_of_accepted rfl h
  have htrim : (natsMountpointLines text).map trimCopy = natsMountpointLines text := by
    conv_rhs => rw [← List.map_id (natsMountpointLines text)]
    exact List.map_congr_left fun line hline => trimCopy_of_trimmed
      (bodyLine_of_mem_sectionLines (fun _ => not_mem_of_mem_lines) hline).trimmed
  have hmap := List.forall₂_map_left_iff.2 (hentries.imp fun _ _ h => h.symm)
  rw [List.forall₂_eq_eq_eq] at hmap
  exact hmap.symm.trans htrim

end Nats2Ntrip

/-- **The meaning of a configuration file does not depend on its layout.** Neither
    program does anything else on a file that differs in blank lines, comments,
    white space around lines and the letter case of section names only; a file with
    its sections in another order is accepted if and only if the file is, with the
    same configuration; and that has one entry for each line of a list section, in
    their order, and the options that the file gives last, or else their defaults. -/
theorem layout_independent (path text : Bytes) :
    (∀ text', SameLayout (lines text) (lines text') →
      Ntrip2Nats.parseConfiguration path (some text) {} =
          Ntrip2Nats.parseConfiguration path (some text') {} ∧
        Nats2Ntrip.parseConfiguration path (some text) {} =
          Nats2Ntrip.parseConfiguration path (some text') {}) ∧
    (∀ text', Permuted Ntrip2Nats.parseSectionHeader (lines text) (lines text') →
      accepted (Ntrip2Nats.parseConfiguration path (some text) {}) =
        accepted (Ntrip2Nats.parseConfiguration path (some text') {})) ∧
    (∀ text', Permuted Nats2Ntrip.parseSectionHeader (lines text) (lines text') →
      accepted (Nats2Ntrip.parseConfiguration path (some text) {}) =
        accepted (Nats2Ntrip.parseConfiguration path (some text') {})) ∧
    (∀ configuration,
      Ntrip2Nats.parseConfiguration path (some text) {} = (none, configuration) →
      List.Forall₂ GivesServer (Ntrip2Nats.natsDestinationLines text)
        configuration.natsDestinations ∧
      List.Forall₂ Ntrip2Nats.GivesSource (Ntrip2Nats.ntripSourceLines text)
        configuration.ntripSources ∧
      configuration.options = optionsOf (Ntrip2Nats.optionLines text)) ∧
    ∀ configuration,
      Nats2Ntrip.parseConfiguration path (some text) {} = (none, configuration) →
      List.Forall₂ GivesServer (Nats2Ntrip.natsSourceLines text) configuration.natsSources ∧
      configuration.natsMountpoints = Nats2Ntrip.natsMountpointLines text ∧
      configuration.options = optionsOf (Nats2Ntrip.optionLines text) := by
  refine ⟨fun text' h => ⟨?_, ?_⟩, fun text' h => ?_, fun text' h => ?_,
    fun configuration h => ?_, fun configuration h => ?_⟩
  · exact parseConfiguration_of_sameLayout h
  · exact parseConfiguration_of_sameLayout h
  · exact accepted_of_permuted Ntrip2Nats.separate_parseBodyLine h
  · exact accepted_of_permuted Nats2Ntrip.separate_parseBodyLine h
  · have hparse := (parseLines_of_accepted h).1
    exact ⟨Ntrip2Nats.addsEntries_natsDestinations.entries_of_accepted rfl hparse,
      Ntrip2Nats.addsEntries_ntripSources.entries_of_accepted rfl hparse,
      Ntrip2Nats.options_of_accepted h⟩
  · have hparse := (parseLines_of_accepted h).1
    exact ⟨Nats2Ntrip.addsEntries_natsSources.entries_of_accepted rfl hparse,
      Nats2Ntrip.natsMountpoints_of_parseLines hparse, Nats2Ntrip.options_of_accepted h⟩

/-- A section with one line. -/
def blockOf (name line : Bytes) (h : (trimCopy line).head? ≠ some 91) : Block where
  header := 91 :: (name ++ [93])
  body := [line]
  header_line := by rw [trimCopy_of_trimmed (trimmed_header name)]; rfl
  body_lines := List.forall_mem_singleton.2 h

/-- The lines of a file, with a comment and with the sections in another order. -/
theorem layout_independent_fileOf :
    Ntrip2Nats.parseConfiguration [] (some (Ntrip2Nats.fileOf (ascii "M"))) {} =
      Ntrip2Nats.parseConfiguration []
        (some (ascii "#" ++ 10 :: Ntrip2Nats.fileOf (ascii "M"))) {} ∧
    accepted (Ntrip2Nats.parseConfiguration [] (some (Ntrip2Nats.fileOf (ascii "M"))) {}) =
      accepted (Ntrip2Nats.parseConfiguration [] (some (ascii "[ntrip_sources]" ++ 10 ::
        (ascii "u:p h:1/M" ++ 10 :: (ascii "[nats_destinations]" ++ 10 ::
          ascii "nats://h:1")))) {}) ∧
    accepted (Nats2Ntrip.parseConfiguration [] (some (Nats2Ntrip.fileOf (ascii "M"))) {}) =
      accepted (Nats2Ntrip.parseConfiguration [] (some (ascii "[ntrip_destinations]" ++ 10 ::
        (ascii "u:p h:1" ++ 10 :: (ascii "[nats_sources]" ++ 10 :: (ascii "nats://h:1" ++ 10 ::
          (ascii "[nats_mountpoints]" ++ 10 :: ascii "M")))))) {}) ∧
    (Ntrip2Nats.configurationOf (ascii "M")).options =
      optionsOf (Ntrip2Nats.optionLines (Ntrip2Nats.fileOf (ascii "M"))) ∧
    (Nats2Ntrip.configurationOf (ascii "M")).natsMountpoints =
      Nats2Ntrip.natsMountpointLines (Nats2Ntrip.fileOf (ascii "M")) := by
  refine ⟨((layout_independent [] _).1 _ ?_).1, (layout_independent [] _).2.1 _ ?_,
    (layout_independent [] _).2.2.1 _ ?_, ((layout_independent [] _).2.2.2.1 _ ?_).2.2,
    ((layout_independent [] _).2.2.2.2 _ ?_).2.1⟩
  · exact .rel _ _ (.insert [] _ (by rintro b ⟨⟩; rfl))
  · refine ⟨[], [blockOf (ascii "nats_destinations") (ascii "nats://h:1") (by decide),
      blockOf (ascii "ntrip_sources") (ascii "u:p h:1/M") (by decide)], _, by simp, rfl, rfl,
      .swap _ _ _, List.pairwise_pair.2 ?_⟩
    rintro current ⟨⟩ ⟨⟩
  · refine ⟨[], [blockOf (ascii "nats_sources") (ascii "nats://h:1") (by decide),
      blockOf (ascii "ntrip_destinations") (ascii "u:p h:1") (by decide),
      blockOf (ascii "nats_mountpoints") (ascii "M") (by decide)], _, by simp, rfl, rfl,
      .swap _ _ _, .cons (List.forall_mem_cons.2 ⟨?_, List.forall_mem_singleton.2 ?_⟩)
        (.cons (List.forall_mem_singleton.2 ?_) (List.pairwise_singleton _ _))⟩
    all_goals rintro current ⟨⟩ ⟨⟩
  · rfl
  · rfl

end RtcmBridge

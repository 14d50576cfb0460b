import RtcmBridge.Canonical.Files

/-!
# Configurations and their files

The configurations that a file can give are known (`Configuration.Writable`), and each of
them has a file that gives it (`Configuration.text`): written from a configuration that has
been read, whatever its file looked like, it is read as this configuration again.
-/

namespace RtcmBridge

open ConfigurationFile

/-! ### `ntrip2nats` -/

namespace Ntrip2Nats

/-- The line of a source. -/
def sourceText (source : NtripSource) : Bytes := credentials source ++ 47 :: source.name

/-- A source that a file can give. -/
structure WritableSource (source : NtripSource) : Prop where
  addressed : Addressed source
  bodyLine : BodyLine (sourceText source)

/-- A configuration that a file can give. -/
structure Configuration.Writable (configuration : Configuration) : Prop where
  options : WritableOptions configuration.options
  servers : ServersIn Checked configuration.natsDestinations
  sources : ∀ source ∈ configuration.ntripSources, WritableSource source
  natsDestinations : configuration.natsDestinations ≠ []
  ntripSources : configuration.ntripSources ≠ []

/-- The lines of a file with the configuration. -/
def Configuration.lines (configuration : Configuration) : List Bytes :=
  ascii "[options]" :: ((optionEntries configuration.options).map optionLine ++
    ascii "[nats_destinations]" :: (configuration.natsDestinations.map NatsDestination.server ++
      ascii "[ntrip_sources]" :: (configuration.ntripSources.map sourceText ++ [])))

/-- The file of a configuration. -/
def Configuration.text (configuration : Configuration) : Bytes := unlines configuration.lines

variable {path text line : Bytes} {file : Option Bytes} {configuration : Configuration}

/-- A source is written as a line that the parser takes apart into the same source. -/
theorem WritableSource.exists_line {source : NtripSource} (h : WritableSource source) :
    ∃ l : SourceLine, sourceText source = l.line ∧ l.source = source :=
  ⟨⟨source.user, source.pass, source.host, ascii (toString source.port), source.name, source.port,
    h.addressed.user, h.addressed.pass, h.addressed.host, h.addressed.port_part,
    parsePositiveInt_toString h.addressed.port⟩, by simp [sourceText, credentials, SourceLine.line],
    rfl⟩

/-- A source that has been read can be written. -/
theorem writableSource_of_line {l : SourceLine} (h : BodyLine l.line) :
    WritableSource l.source := by
  have hport : 0 < l.number.toInt := parsePositiveInt_pos l.port_number
  have hnewline := h.noNewline
  simp only [SourceLine.line, List.mem_append, List.mem_cons, not_or] at hnewline
  refine ⟨⟨l.user_part, l.pass_part, l.host_part, hport⟩, h.of_head ?_ ?_ ?_⟩
  · simp only [sourceText, credentials, SourceLine.line, SourceLine.source, List.append_assoc]
    exact head?_append_cons l.user_part.nonempty
  · intro b hb
    refine h.trimmed.2 b ?_
    simp only [sourceText, SourceLine.source, SourceLine.line, List.getLast?_append,
      List.getLast?_cons] at hb ⊢
    simpa using hb
  · simp only [sourceText, credentials, SourceLine.source, List.mem_append, List.mem_cons, not_or]
    have := notMem_number (c := 10) rfl hport
    tauto

/-- What has been accepted can be written. -/
theorem writable_of_accepted
    (h : parseConfiguration path file {} = (none, configuration)) : configuration.Writable := by
  obtain ⟨text, rfl, hparse, hcheck⟩ := ConfigurationFile.parseConfiguration_eq_none_iff.1 h
  obtain ⟨hordered, hdestinations, hsources⟩ := checkConfiguration_eq_none_iff.1 hcheck
  refine ⟨?_, (endpoints_of_accepted h).1, fun source hsource => ?_, hdestinations, hsources⟩
  · rw [options_of_accepted h] at hordered ⊢
    exact writableOptions_optionsOf hordered
  · obtain ⟨line, hline, l, rfl, rfl⟩ := exists_line_of_entry
      (addsEntries_ntripSources.entries_of_accepted rfl hparse) hsource
    exact writableSource_of_line
      (bodyLine_of_mem_sectionLines (fun _ => not_mem_of_mem_lines) hline)

/-! The parts of the configuration. -/

/-- The options are a part of the configuration. -/
def optionsSlot : Slot Configuration Options :=
  ⟨Configuration.options, fun c options => { c with options },
    fun _ _ => rfl, fun _ _ _ => rfl, fun _ => rfl⟩

/-- The servers are a part of the configuration. -/
def natsDestinationsSlot : Slot Configuration (List NatsDestination) :=
  ⟨Configuration.natsDestinations, fun c natsDestinations => { c with natsDestinations },
    fun _ _ => rfl, fun _ _ _ => rfl, fun _ => rfl⟩

/-- The sources are a part of the configuration. -/
def ntripSourcesSlot : Slot Configuration (List NtripSource) :=
  ⟨Configuration.ntripSources, fun c ntripSources => { c with ntripSources },
    fun _ _ => rfl, fun _ _ _ => rfl, fun _ => rfl⟩

/-- A line of a server adds it at the end. -/
theorem stores_server (h : configuration.Writable) :
    ∀ entry ∈ configuration.natsDestinations, Stores parseBodyLine .natsDestinations
      natsDestinationsSlot NatsDestination.server concat entry := by
  intro entry hentry
  obtain ⟨hbody, l, hline, hserver⟩ := exists_serverLine h.servers hentry
  refine ⟨hbody, fun c => ?_⟩
  rw [parseBodyLine, parseNatsDestinationsBodyLine, hline, parseNatsLine_line, ← hserver]
  rfl

/-- So does a line of a source. -/
theorem stores_source (h : configuration.Writable) :
    ∀ entry ∈ configuration.ntripSources,
      Stores parseBodyLine .ntripSources ntripSourcesSlot sourceText concat entry := by
  intro entry hentry
  obtain ⟨l, hline, hsource⟩ := (h.sources entry hentry).exists_line
  refine ⟨(h.sources entry hentry).bodyLine, fun c => ?_⟩
  rw [parseBodyLine, hline, parseNtripSourcesBodyLine_line, hsource]
  rfl

/-- Every section is written under its header. -/
theorem titles : Titles parseSectionHeader (ascii "[options]") .options ∧
    Titles parseSectionHeader (ascii "[nats_destinations]") .natsDestinations ∧
    Titles parseSectionHeader (ascii "[ntrip_sources]") .ntripSources :=
  ⟨⟨by decide, rfl, rfl⟩, ⟨by decide, rfl, rfl⟩, ⟨by decide, rfl, rfl⟩⟩

/-- The text of a configuration is read as the configuration. -/
theorem parseConfiguration_text (h : configuration.Writable) (path : Bytes) :
    parseConfiguration path (some configuration.text) {} = (none, configuration) := by
  have hoptions : ∀ entry ∈ optionEntries configuration.options,
      Stores parseBodyLine .options optionsSlot optionLine setOption entry :=
    stores_option (fun _ _ => rfl) h.options
  have hservers := stores_server h
  have hsources := stores_source h
  -- The text is cut into the lines again that it was put together from.
  have hlines : RtcmBridge.lines configuration.text = configuration.lines := by
    refine lines_unlines fun line hline => ?_
    simp only [Configuration.lines, List.mem_cons, List.mem_append, List.not_mem_nil,
      or_false] at hline
    rcases hline with rfl | hline | rfl | hline | rfl | hline
    · decide
    · exact notMem_map_line hoptions line hline
    · decide
    · exact notMem_map_line hservers line hline
    · decide
    · exact notMem_map_line hsources line hline
  have hparse : parseLines parseSectionHeader parseBodyLine .options configuration.lines {} =
      (none, configuration) := by
    rw [Configuration.lines, parseLines_section titles.1 hoptions,
      parseLines_section titles.2.1 hservers, parseLines_section titles.2.2 hsources,
      foldl_optionEntries h.options, foldl_concat, foldl_concat]
    rfl
  have hcheck : checkConfiguration configuration = none :=
    checkConfiguration_eq_none_iff.2 ⟨h.options.ordered, h.natsDestinations, h.ntripSources⟩
  exact ConfigurationFile.parseConfiguration_eq_none_iff.2 ⟨_, rfl, hlines ▸ hparse, hcheck⟩

/-- **The configurations of `ntrip2nats`.** A file gives a configuration if and only if it can
    be written, and then the file that is written from it gives it again. -/
theorem roundTrip_ntrip2nats (configuration : Configuration) :
    ((∃ path file, parseConfiguration path file {} = (none, configuration)) ↔
      configuration.Writable) ∧
    ((∀ path, parseConfiguration path (some configuration.text) {} = (none, configuration)) ↔
      configuration.Writable) := by
  refine ⟨⟨fun ⟨path, file, h⟩ => writable_of_accepted h, fun h => ?_⟩, fun h => ?_,
    fun h => parseConfiguration_text h⟩
  · exact ⟨[], some configuration.text, parseConfiguration_text h []⟩
  · exact writable_of_accepted (h [])

example : (configurationOf (ascii "M")).text = ascii ("[options]\nread_buffer_bytes=4096\n" ++
    "reconnect_min_sec=2\nreconnect_max_sec=32\nthroughput_log_kb=100\n" ++
    "[nats_destinations]\nnats://h:1\n[ntrip_sources]\nu:p h:1/M\n") := by
  decide +kernel

end Ntrip2Nats

/-! ### `nats2ntrip` -/

namespace Nats2Ntrip

/-- The destination that a file can give. -/
structure WritableDestination (destination : NtripSource) : Prop where
  addressed : Addressed destination
  name : destination.name = []
  bodyLine : BodyLine (credentials destination)

/-- A configuration that a file can give. -/
structure Configuration.Writable (configuration : Configuration) : Prop where
  options : WritableOptions configuration.options
  servers : ServersIn Checked configuration.natsSources
  mountpoints : ∀ m ∈ configuration.natsMountpoints, PlainName m
  destination : WritableDestination configuration.ntripDestination
  natsSources : configuration.natsSources ≠ []
  natsMountpoints : configuration.natsMountpoints ≠ []
  hasNtripDestination : configuration.hasNtripDestination = true

/-- The lines of a file with the configuration. -/
def Configuration.lines (configuration : Configuration) : List Bytes :=
  ascii "[options]" :: ((optionEntries configuration.options).map optionLine ++
    ascii "[nats_sources]" :: (configuration.natsSources.map NatsDestination.server ++
      ascii "[nats_mountpoints]" :: (configuration.natsMountpoints.map id ++
        ascii "[ntrip_destinations]" :: ([configuration.ntripDestination].map credentials ++ []))))

/-- The file of a configuration. -/
def Configuration.text (configuration : Configuration) : Bytes := unlines configuration.lines

variable {path text line : Bytes} {file : Option Bytes} {configuration : Configuration}

/-- A destination is written as a line that is taken apart into the same destination. -/
theorem WritableDestination.exists_line {destination : NtripSource}
    (h : WritableDestination destination) :
    ∃ l : DestinationLine, credentials destination = l.line ∧ l.destination = destination := by
  refine ⟨⟨destination.user, destination.pass, destination.host, ascii (toString destination.port),
    destination.port, h.addressed.user, h.addressed.pass, h.addressed.host, h.addressed.port_part,
    parsePositiveInt_toString h.addressed.port⟩, rfl, ?_⟩
  rw [DestinationLine.destination, ← h.name]

/-- A destination that has been read can be written. -/
theorem writableDestination_of_line {l : DestinationLine} (h : BodyLine l.line) :
    WritableDestination l.destination := by
  have hport : 0 < l.number.toInt := parsePositiveInt_pos l.port_number
  have hnewline := h.noNewline
  simp only [DestinationLine.line, List.mem_append, List.mem_cons, not_or] at hnewline
  refine ⟨⟨l.user_part, l.pass_part, l.host_part, hport⟩, rfl, h.of_head ?_ ?_ ?_⟩
  · exact head?_append_cons l.user_part.nonempty
  · have hsplit : credentials l.destination =
        (l.user ++ 58 :: (l.pass ++ 32 :: (l.host ++ [58]))) ++ ascii (toString l.number) := by
      simp [credentials, DestinationLine.destination]
    rw [hsplit]
    exact last_number hport _
  · simp only [credentials, DestinationLine.destination, List.mem_append, List.mem_cons, not_or]
    have := notMem_number (c := 10) rfl hport
    tauto

theorem writable_of_accepted
    (h : parseConfiguration path file {} = (none, configuration)) : configuration.Writable := by
  obtain ⟨text, rfl, hparse, hcheck⟩ := ConfigurationFile.parseConfiguration_eq_none_iff.1 h
  obtain ⟨hordered, hsources, hmountpoints, hhas⟩ := checkConfiguration_eq_none_iff.1 hcheck
  obtain ⟨l, hline, hdestination⟩ := exists_destinationLine_of_parseLines hparse hhas
  refine ⟨?_, (endpoints_of_accepted h).1, plainMountpoints_of_accepted h, ?_, hsources,
    hmountpoints, hhas⟩
  · rw [options_of_accepted h] at hordered ⊢
    exact writableOptions_optionsOf hordered
  · rw [hdestination]
    exact writableDestination_of_line
      (bodyLine_of_mem_sectionLines (fun _ => not_mem_of_mem_lines) hline)

/-! The parts of the configuration. -/

/-- The options are a part of the configuration. -/
def optionsSlot : Slot Configuration Options :=
  ⟨Configuration.options, fun c options => { c with options },
    fun _ _ => rfl, fun _ _ _ => rfl, fun _ => rfl⟩

/-- The servers are a part of the configuration. -/
def natsSourcesSlot : Slot Configuration (List NatsDestination) :=
  ⟨Configuration.natsSources, fun c natsSources => { c with natsSources },
    fun _ _ => rfl, fun _ _ _ => rfl, fun _ => rfl⟩

/-- The mountpoints are a part of the configuration. -/
def natsMountpointsSlot : Slot Configuration (List Bytes) :=
  ⟨Configuration.natsMountpoints, fun c natsMountpoints => { c with natsMountpoints },
    fun _ _ => rfl, fun _ _ _ => rfl, fun _ => rfl⟩

/-- The destination, and whether there is one. -/
def ntripDestinationSlot : Slot Configuration (NtripSource × Bool) :=
  ⟨fun c => (c.ntripDestination, c.hasNtripDestination),
    fun c d => { c with ntripDestination := d.1, hasNtripDestination := d.2 },
    fun _ _ => rfl, fun _ _ _ => rfl, fun _ => rfl⟩

theorem stores_server (h : configuration.Writable) :
    ∀ entry ∈ configuration.natsSources, Stores parseBodyLine .natsSources
      natsSourcesSlot NatsDestination.server concat entry := by
  intro entry hentry
  obtain ⟨hbody, l, hline, hserver⟩ := exists_serverLine h.servers hentry
  refine ⟨hbody, fun c => ?_⟩
  rw [parseBodyLine, parseNatsSourcesBodyLine, hline, parseNatsLine_line, ← hserver]
  rfl

theorem stores_mountpoint (h : configuration.Writable) :
    ∀ entry ∈ configuration.natsMountpoints,
      Stores parseBodyLine .natsMountpoints natsMountpointsSlot id concat entry := by
  intro entry hentry
  have hplain := h.mountpoints entry hentry
  have htrim := trimCopy_of_trimmed hplain.bodyLine.trimmed
  refine ⟨hplain.bodyLine, fun c => ?_⟩
  refine parseNatsMountpointBodyLine_eq_iff.2 ⟨?_, ?_, ?_⟩
  · rw [id, htrim]
    exact hplain.bodyLine.nonempty
  · rw [id, htrim]
    exact hplain.plain
  · rw [id, htrim]
    rfl

/-- The line of the destination sets it, and marks it as given. -/
theorem stores_destination (h : configuration.Writable) :
    ∀ entry ∈ [configuration.ntripDestination], Stores parseBodyLine .ntripDestinations
      ntripDestinationSlot credentials (fun _ entry => (entry, true)) entry := by
  intro entry hentry
  rw [List.mem_singleton] at hentry
  subst hentry
  obtain ⟨l, hline, hdestination⟩ := h.destination.exists_line
  refine ⟨h.destination.bodyLine, fun c => ?_⟩
  rw [parseBodyLine, hline, parseNtripDestinationBodyLine_line, hdestination]
  rfl

theorem titles : Titles parseSectionHeader (ascii "[options]") .options ∧
    Titles parseSectionHeader (ascii "[nats_sources]") .natsSources ∧
    Titles parseSectionHeader (ascii "[nats_mountpoints]") .natsMountpoints ∧
    Titles parseSectionHeader (ascii "[ntrip_destinations]") .ntripDestinations :=
  ⟨⟨by decide, rfl, rfl⟩, ⟨by decide, rfl, rfl⟩, ⟨by decide, rfl, rfl⟩,
    ⟨by decide, rfl, rfl⟩⟩

theorem parseConfiguration_text (h : configuration.Writable) (path : Bytes) :
    parseConfiguration path (some configuration.text) {} = (none, configuration) := by
  have hoptions : ∀ entry ∈ optionEntries configuration.options,
      Stores parseBodyLine .options optionsSlot optionLine setOption entry :=
    stores_option (fun _ _ => rfl) h.options
  have hservers := stores_server h
  have hmountpoints := stores_mountpoint h
  have hdestination := stores_destination h
  have hlines : RtcmBridge.lines configuration.text = configuration.lines := by
    refine lines_unlines fun line hline => ?_
    rw [Configuration.lines] at hline
    simp only [List.mem_cons, List.mem_append, List.append_nil] at hline
    rcases hline with rfl | hline | rfl | hline | rfl | hline | rfl | hline
    · decide
    · exact notMem_map_line hoptions line hline
    · decide
    · exact notMem_map_line hservers line hline
    · decide
    · exact notMem_map_line hmountpoints line hline
    · decide
    · exact notMem_map_line hdestination line hline
  have hparse : parseLines parseSectionHeader parseBodyLine .options configuration.lines {} =
      (none, configuration) := by
    rw [Configuration.lines, parseLines_section titles.1 hoptions,
      parseLines_section titles.2.1 hservers, parseLines_section titles.2.2.1 hmountpoints,
      parseLines_section titles.2.2.2 hdestination, foldl_optionEntries h.options, foldl_concat,
      foldl_concat, parseLines]
    simp only [List.foldl_cons, List.foldl_nil, ← h.hasNtripDestination]
    rfl
  have hcheck : checkConfiguration configuration = none := checkConfiguration_eq_none_iff.2
    ⟨h.options.ordered, h.natsSources, h.natsMountpoints, h.hasNtripDestination⟩
  exact ConfigurationFile.parseConfiguration_eq_none_iff.2 ⟨_, rfl, hlines ▸ hparse, hcheck⟩

/-- **The configurations of `nats2ntrip`.** A file gives a configuration if and only if it can
    be written, and then the file that is written from it gives it again. -/
theorem roundTrip_nats2ntrip (configuration : Configuration) :
    ((∃ path file, parseConfiguration path file {} = (none, configuration)) ↔
      configuration.Writable) ∧
    ((∀ path, parseConfiguration path (some configuration.text) {} = (none, configuration)) ↔
      configuration.Writable) := by
  refine ⟨⟨fun ⟨path, file, h⟩ => writable_of_accepted h, fun h => ?_⟩, fun h => ?_,
    fun h => parseConfiguration_text h⟩
  · exact ⟨[], some configuration.text, parseConfiguration_text h []⟩
  · exact writable_of_accepted (h [])

end Nats2Ntrip

end RtcmBridge

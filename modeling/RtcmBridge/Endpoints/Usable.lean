import RtcmBridge.Endpoints.Entries

/-!
# The endpoints of a file that is accepted

What the parsers check of an address: the port is a positive `int`, and the host
ends at the first `:`. They do not look for white space in a host, and not for
ports above 65535, so that not every endpoint can be used.
-/

namespace RtcmBridge

namespace ConfigurationFile

/-- An address that can be used. -/
structure Usable (host : Bytes) (port : Int32) : Prop where
  nonempty : host ≠ []
  noSpace : ∀ b ∈ host, isSpace b = false
  port : 1 ≤ port.toInt ∧ port.toInt ≤ 65535

/-- An address as the parsers check it. -/
structure Checked (host : Bytes) (port : Int32) : Prop where
  noColon : 58 ∉ host
  noNewline : 10 ∉ host
  port : 1 ≤ port.toInt ∧ port.toInt < 2 ^ 31

/-- The servers have the form `nats://host:port`, with addresses in `P`. -/
def ServersIn (P : Bytes → Int32 → Prop) (servers : List NatsDestination) : Prop :=
  ∀ entry ∈ servers, ∃ host port,
    entry.server = ascii "nats://" ++ host ++ ascii ":" ++ ascii (toString port) ∧ P host port

theorem parsePositiveInt_bounds {value : Bytes} {n : Int32} (h : parsePositiveInt value = some n) :
    1 ≤ n.toInt ∧ n.toInt < 2 ^ 31 :=
  ⟨parsePositiveInt_pos h, Int32.toInt_lt n⟩

variable {σ : Type} {header : Bytes → Except Bytes σ} {inSection : σ → Bool} {current : σ}
  {text : Bytes}

/-- What the lines of a section give has been checked. -/
theorem serversIn_of_entries {servers : List NatsDestination}
    (h : List.Forall₂ GivesServer (sectionLines header inSection current (lines text)) servers) :
    ServersIn Checked servers := by
  intro entry hentry
  obtain ⟨line, hline, l, rfl, hserver⟩ := exists_line_of_entry h hentry
  have hbody := bodyLine_of_mem_sectionLines (fun _ => not_mem_of_mem_lines) hline
  exact ⟨l.host, l.number, hserver, l.host_part,
    fun h => hbody.noNewline (List.mem_append_right _ (List.mem_append_left _ h)),
    parsePositiveInt_bounds l.port_number⟩

end ConfigurationFile

open ConfigurationFile

namespace Ntrip2Nats

/-- The addresses of the servers are in `P`, those of the sources in `Q`. -/
def Configuration.EndpointsIn (P Q : Bytes → Int32 → Prop) (configuration : Configuration) : Prop :=
  ServersIn P configuration.natsDestinations ∧
    ∀ entry ∈ configuration.ntripSources, Q entry.host entry.port

variable {path text : Bytes} {configuration : Configuration}

/-- The addresses of an accepted file have been checked, each for what is checked of its kind. -/
theorem endpoints_of_accepted
    (h : parseConfiguration path (some text) {} = (none, configuration)) :
    configuration.EndpointsIn Checked fun host port => host ≠ [] ∧ Checked host port := by
  have hparse := (parseLines_of_accepted h).1
  refine ⟨serversIn_of_entries (addsEntries_natsDestinations.entries_of_accepted rfl hparse),
    fun entry hentry => ?_⟩
  obtain ⟨line, hline, l, rfl, rfl⟩ := exists_line_of_entry
    (addsEntries_ntripSources.entries_of_accepted rfl hparse) hentry
  have hbody := bodyLine_of_mem_sectionLines (fun _ => not_mem_of_mem_lines) hline
  refine ⟨l.host_part.nonempty, l.host_part.noDelimiter, fun h => hbody.noNewline ?_,
    parsePositiveInt_bounds l.port_number⟩
  simpa [SourceLine.line] using .inr (.inr (.inl h))

/-- A file with a server and a source that cannot be used. -/
def unusableFile : Bytes :=
  ascii "[nats_destinations]" ++ 10 :: (ascii "nats://a b:70000" ++ 10 ::
    (ascii "[ntrip_sources]" ++ 10 :: ascii "u:p a b:70000/M"))

end Ntrip2Nats

namespace Nats2Ntrip

/-- The addresses of the servers are in `P`, that of the destination in `Q`. -/
def Configuration.EndpointsIn (P Q : Bytes → Int32 → Prop) (configuration : Configuration) : Prop :=
  ServersIn P configuration.natsSources ∧
    Q configuration.ntripDestination.host configuration.ntripDestination.port

variable {path text : Bytes} {configuration : Configuration}

theorem hasNtripDestination_of_accepted
    (h : parseConfiguration path (some text) {} = (none, configuration)) :
    configuration.hasNtripDestination = true :=
  (checkConfiguration_eq_none_iff.1 (parseLines_of_accepted h).2).2.2.2

/-- The addresses of a file that `nats2ntrip` accepts have been checked as well. -/
theorem endpoints_of_accepted
    (h : parseConfiguration path (some text) {} = (none, configuration)) :
    configuration.EndpointsIn Checked fun host port => host ≠ [] ∧ Checked host port := by
  have hparse := (parseLines_of_accepted h).1
  refine ⟨serversIn_of_entries (addsEntries_natsSources.entries_of_accepted rfl hparse), ?_⟩
  obtain ⟨l, hline, hdestination⟩ :=
    exists_destinationLine_of_parseLines hparse (hasNtripDestination_of_accepted h)
  have hbody := bodyLine_of_mem_sectionLines (fun _ => not_mem_of_mem_lines) hline
  rw [hdestination]
  refine ⟨l.host_part.nonempty, l.host_part.noDelimiter, fun h => hbody.noNewline ?_,
    parsePositiveInt_bounds l.port_number⟩
  simpa [DestinationLine.line] using .inr (.inr (.inl h))

/-- A file with a server and a destination that cannot be used. -/
def unusableFile : Bytes :=
  ascii "[nats_sources]" ++ 10 :: (ascii "nats://a b:70000" ++ 10 ::
    (ascii "[ntrip_destinations]" ++ 10 :: (ascii "u:p a b:70000" ++ 10 ::
      (ascii "[nats_mountpoints]" ++ 10 :: ascii "M"))))

end Nats2Ntrip

/-- **What is checked of the endpoints of a file.** In every file that is accepted,
    the servers have the form `nats://host:port`, no host contains a `:` or a line
    end, the hosts of sources and destinations are not empty, and the ports are
    positive `int`s. -/
theorem accepted_endpoints_checked (path text : Bytes) :
    (∀ configuration,
      Ntrip2Nats.parseConfiguration path (some text) {} = (none, configuration) →
      configuration.EndpointsIn Checked fun host port => host ≠ [] ∧ Checked host port) ∧
    ∀ configuration,
      Nats2Ntrip.parseConfiguration path (some text) {} = (none, configuration) →
      configuration.EndpointsIn Checked fun host port => host ≠ [] ∧ Checked host port :=
  ⟨fun _ => Ntrip2Nats.endpoints_of_accepted, fun _ => Nats2Ntrip.endpoints_of_accepted⟩

theorem accepted_endpoints_checked_unusableFile :
    (∃ configuration, Ntrip2Nats.parseConfiguration [] (some Ntrip2Nats.unusableFile) {} =
        (none, configuration) ∧
      configuration.EndpointsIn Checked fun host port => host ≠ [] ∧ Checked host port) ∧
    ∃ configuration, Nats2Ntrip.parseConfiguration [] (some Nats2Ntrip.unusableFile) {} =
        (none, configuration) ∧
      configuration.EndpointsIn Checked fun host port => host ≠ [] ∧ Checked host port :=
  ⟨⟨_, rfl, (accepted_endpoints_checked [] Ntrip2Nats.unusableFile).1 _ rfl⟩,
    _, rfl, (accepted_endpoints_checked [] Nats2Ntrip.unusableFile).2 _ rfl⟩

/-- Blanks in hosts and ports that do not exist are accepted. -/
theorem accepted_endpoints_unusable :
    (∃ configuration, Ntrip2Nats.parseConfiguration [] (some Ntrip2Nats.unusableFile) {} =
        (none, configuration) ∧
      configuration.natsDestinations.map NatsDestination.server = [ascii "nats://a b:70000"] ∧
      configuration.ntripSources.map NtripSource.host = [ascii "a b"] ∧
      configuration.ntripSources.map NtripSource.port = [70000] ∧
      ¬configuration.EndpointsIn Usable Usable) ∧
    ∃ configuration, Nats2Ntrip.parseConfiguration [] (some Nats2Ntrip.unusableFile) {} =
        (none, configuration) ∧
      configuration.natsSources.map NatsDestination.server = [ascii "nats://a b:70000"] ∧
      configuration.ntripDestination.host = ascii "a b" ∧
      configuration.ntripDestination.port = 70000 ∧
      ¬configuration.EndpointsIn Usable Usable :=
  ⟨⟨_, rfl, rfl, rfl, rfl, fun h =>
      absurd (h.2 _ List.mem_cons_self).port.2 (by decide)⟩,
    _, rfl, rfl, rfl, rfl, fun h => absurd h.2.port.2 (by decide)⟩

end RtcmBridge

import RtcmBridge.Canonical.Programs
import RtcmBridge.Family
import RtcmBridge.Nats2Ntrip.Mountpoints
import RtcmBridge.NtripConnection.Liveness
import RtcmBridge.NtripConnection.Published

/-!
# The process `ntrip2nats`

`main` starts a connection for each source of its configuration, and then runs the handlers
of all of them, one at a time, until nothing is pending any more (`process`,
`Finished`). What each session publishes it publishes on the subject of its source
(`subject`).

On a subject the bodies of its sources are interleaved, and each of them is complete
(`published_on`). The process never finishes (`never_finished`).
-/

namespace RtcmBridge.Ntrip2Nats

open Asio Nats2Ntrip

/-- The process, with a connection for each source. -/
abbrev Bridge (configuration : Configuration) :=
  Family (Fin configuration.ntripSources.length) NtripConnection Bytes

section Process

variable (configuration : Configuration) (evpEncodeBlock : Bytes → Option Bytes)

/-- `main` from its loop over the sources on. -/
def process : Automaton (Bridge configuration)
    (Fin configuration.ntripSources.length × Completion) :=
  Family.family (fun i => NtripConnection.reader configuration.options
    configuration.ntripSources[i] evpEncodeBlock) NtripConnection.messages

/-- The subject of the session for the source `i`. -/
def subject (i : Fin configuration.ntripSources.length) : Bytes :=
  subjectOf configuration.ntripSources[i].name

end Process

variable {configuration : Configuration} {evpEncodeBlock : Bytes → Option Bytes}
  {b : Bridge configuration}

/-- `io.run` returns. -/
def Finished (b : Bridge configuration) : Prop := ∀ i, (b.member i).io.pending = []

/-- What is published on the subjects that a subscription matches. -/
def publishedOn (subscription : Bytes) (b : Bridge configuration) :
    List (Fin configuration.ntripSources.length × Bytes) :=
  Family.selected (fun i => matchesSubject subscription (subject configuration i) = true) b

/-- A reader only adds to what it has forwarded. -/
theorem grows_reader (i : Fin configuration.ntripSources.length) :
    Relay.Grows (NtripConnection.reader configuration.options configuration.ntripSources[i]
      evpEncodeBlock) NtripConnection.messages :=
  NtripConnection.grows_messages

theorem grows_publishedOn (subscription : Bytes) :
    Relay.Grows (process configuration evpEncodeBlock) (publishedOn subscription) :=
  Family.grows_selected fun i => matchesSubject subscription (subject configuration i) = true

/-- Each reader is in a state that it can reach alone. -/
theorem reader_reachable (h : (process configuration evpEncodeBlock).Reachable b)
    (i : Fin configuration.ntripSources.length) :
    (NtripConnection.reader configuration.options configuration.ntripSources[i]
      evpEncodeBlock).Reachable (b.member i) :=
  Family.member_reachable h i

/-- What is published comes from a source whose subject matches, and is one of its pieces. -/
theorem mem_publishedOn (h : (process configuration evpEncodeBlock).Reachable b)
    {subscription : Bytes} {x : Fin configuration.ntripSources.length × Bytes}
    (hx : x ∈ publishedOn subscription b) :
    matchesSubject subscription (subject configuration x.1) = true ∧
      x.2 ∈ (b.member x.1).pieces := by
  obtain ⟨hmatch, hmem⟩ := Family.mem_selected grows_reader h hx
  rw [NtripConnection.messages_of_reader (reader_reachable h x.1)] at hmem
  exact ⟨hmatch, hmem⟩

/-- What is published is not empty, and its length is an `int`. -/
theorem sized_publishedOn (h : (process configuration evpEncodeBlock).Reachable b)
    {subscription : Bytes} {x : Fin configuration.ntripSources.length × Bytes}
    (hx : x ∈ publishedOn subscription b) : x.2 ≠ [] ∧ x.2.length < 2 ^ 31 :=
  (NtripConnection.pieces_of_reader (reader_reachable h x.1)).2 _ (mem_publishedOn h hx).2

/-- The part of a source is what its connection has forwarded. -/
theorem pieces_publishedOn (h : (process configuration evpEncodeBlock).Reachable b)
    {subscription : Bytes} {i : Fin configuration.ntripSources.length}
    (hi : matchesSubject subscription (subject configuration i) = true) :
    ((publishedOn subscription b).filter fun x => x.1 = i).map Prod.snd =
      (b.member i).pieces := by
  rw [publishedOn, Family.filter_selected grows_reader h hi,
    NtripConnection.messages_of_reader (reader_reachable h i)]

/-- What is published on a subject that only the source `i` has. -/
theorem flatten_publishedOn (h : (process configuration evpEncodeBlock).Reachable b)
    {subscription : Bytes} {i : Fin configuration.ntripSources.length}
    (hi : ∀ j, matchesSubject subscription (subject configuration j) = true ↔ j = i) :
    ((publishedOn subscription b).map Prod.snd).flatten = (b.member i).body := by
  have hr := reader_reachable h i
  rw [publishedOn, Family.selected_of_unique grows_reader h hi,
    NtripConnection.messages_of_reader hr, NtripConnection.flatten_pieces hr]

/-- Two sources, on a caster each. -/
def twoSources : Configuration where
  natsDestinations := [⟨ascii "nats://h:1"⟩]
  ntripSources := [(sourceOf (ascii "A")).source, (sourceOf (ascii "B")).source]

/-- The source with the mountpoint `A`. -/
def sourceA : Fin twoSources.ntripSources.length := ⟨0, by decide⟩

/-- The source with the mountpoint `B`. -/
def sourceB : Fin twoSources.ntripSources.length := ⟨1, by decide⟩

/-- The two responses, and then more of the first one. -/
def twoResponses : List (Fin twoSources.ntripSources.length × Completion) :=
  List.replicate 3 (sourceA, ⟨0, .ok, []⟩) ++ List.replicate 3 (sourceB, ⟨0, .ok, []⟩) ++
  [(sourceA, ⟨0, .ok, ascii "ICY 200 OK\r\n\r\na"⟩),
    (sourceB, ⟨0, .ok, ascii "ICY 200 OK\r\n\r\nx"⟩), (sourceA, ⟨0, .ok, ascii "b"⟩)]

/-- Every reader is alive, whatever the others do. -/
theorem alive_member (h : (process configuration evpEncodeBlock).Reachable b)
    (i : Fin configuration.ntripSources.length) : NtripConnection.Alive (b.member i) :=
  (NtripConnection.late_reachable
    (NtripConnection.reachable_of_reader (reader_reachable h i))).invariant
      ⟨_, List.mem_singleton_self _, rfl⟩ fun _ _ _ hc hs => NtripConnection.alive_step hc hs

/-- **The process does not finish.** With a file that is accepted, whatever happens to its
    connections, `io.run` does not return: for each source of the file an operation is pending
    that has not been cancelled. -/
theorem never_finished {path : Bytes} {file : Option Bytes}
    (haccept : parseConfiguration path file {} = (none, configuration))
    (h : (process configuration evpEncodeBlock).Reachable b) :
    ¬Finished b ∧ ∀ i, ∃ op ∈ (b.member i).io.pending, op.cancelled = false := by
  refine ⟨fun hfinished => ?_, fun i => alive_member h i⟩
  have hpos : 0 < configuration.ntripSources.length :=
    List.length_pos_of_ne_nil (writable_of_accepted haccept).ntripSources
  obtain ⟨op, hop, -⟩ := alive_member h ⟨0, hpos⟩
  rw [hfinished ⟨0, hpos⟩] at hop
  exact List.not_mem_nil hop

theorem never_finished_twoResponses : ∃ b : Bridge twoSources,
    (process twoSources encodeBlock).exec twoResponses = some b ∧
      ¬Finished b ∧ ∀ i, ∃ op ∈ (b.member i).io.pending, op.cancelled = false := by
  have hrun : ((process twoSources encodeBlock).exec twoResponses).isSome = true := by
    decide +kernel
  obtain ⟨b, hb⟩ := Option.isSome_iff_exists.1 hrun
  have hfile : parseConfiguration [] (some (fileOf (ascii "A\nu:p h:1/B"))) {} =
      (none, twoSources) := rfl
  exact ⟨b, hb, never_finished hfile (Automaton.reachable_of_exec hb)⟩

end RtcmBridge.Ntrip2Nats

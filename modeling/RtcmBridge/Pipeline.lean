import RtcmBridge.DecoderClient.Bodies
import RtcmBridge.Framer.RoundTrip
import RtcmBridge.Nats2Ntrip.Received
import RtcmBridge.Ntrip2Nats.Process

/-!
# From caster to caster

`ntrip2nats` publishes what it reads from its sources; NATS takes the messages, in their order,
to the subscribers of the subject, or loses them; `nats2ntrip` uploads them to another caster,
and `rtcm_decoder_nats` decodes them. Each of the two is the consumer of a relay
(`uploadRelay`, `decoderRelay`), whose producer is the process `ntrip2nats`.

What the second caster reads are parts of what the sources sent after their header blocks,
piece by piece and in order, and of no source with another subject (`upload_sublist`); they
are the bodies from their beginning on if nothing has been lost (`upload_prefix`). The framer
of the decoder receives just the body of its source, over all connections (`decoder_framed`);
from frames, it gets their payloads (`decoder_roundTrip`). What `rtcm_decoder_ntrip` decodes of
the same stream agrees with it (`decoders_consistent`).
-/

namespace RtcmBridge

open Asio Ntrip2Nats RtcmStreamFramer

variable (configuration : Ntrip2Nats.Configuration) (evpEncodeBlock : Bytes → Option Bytes)

/-! ### The upload -/

section Upload

open Nats2Ntrip (Payload Uploading)
open Nats2Ntrip.Uploading

variable (target : NtripSource) (options : Options) (hash : UInt64)

/-- `ntrip2nats`, and `nats2ntrip` for `target`. -/
def uploadRelay : Automaton
    (Relay (Bridge configuration) (Fin configuration.ntripSources.length × Bytes) Uploading)
    (Relay.Event (Fin configuration.ntripSources.length × Completion) Uploading.Event) :=
  Relay.relay (process configuration evpEncodeBlock) (publishedOn (subjectOf target.name))
    (Uploading.automaton options target evpEncodeBlock hash) (fun x => .arrive x.2) Uploading.own

variable {configuration evpEncodeBlock target options hash}
  {r : Relay (Bridge configuration) (Fin configuration.ntripSources.length × Bytes) Uploading}

/-- Behind the relay, the session is one that can be reached. -/
theorem session_reachable_of_relay
    (h : (uploadRelay configuration evpEncodeBlock target options hash).Reachable r) :
    (Nats2Ntrip.StreamSession.automaton options hash).Reachable r.consumer.session :=
  session_reachable (Relay.consumer_reachable h)

/-- The session has received what has been delivered. -/
theorem received_eq_delivered
    (h : (uploadRelay configuration evpEncodeBlock target options hash).Reachable r) :
    r.consumer.session.received.map Payload.data = r.delivered.map Prod.snd := by
  have hfilter : r.consumer.session.received.map Payload.data =
      (r.delivered.map Prod.snd).filter (· ≠ []) := by
    refine Relay.consumer_invariant (P := fun l u => u.session.received.map Payload.data =
      (l.map Prod.snd).filter (· ≠ [])) h rfl ?_ fun {l d u u'} _ hP hown hstep => ?_
    · intro l m u u' _ hP hstep
      have hs : u.step options target evpEncodeBlock (.arrive m.2) = some u' := hstep
      rw [received_arrive hs, hP, List.map_append, List.filter_append]
      rfl
    · have hs : u.step options target evpEncodeBlock d = some u' := hstep
      rw [received_own hown hs, hP]
  rw [hfilter, List.filter_eq_self]
  intro m hm
  obtain ⟨x, hx, rfl⟩ := List.mem_map.1 hm
  have hsub := Relay.delivered_sublist (grows_publishedOn _) h
  have hmem := hsub.subset (List.mem_append_left _ hx)
  exact decide_eq_true (sized_publishedOn (Relay.producer_reachable h) hmem).1

/-- The upload of the next message, on a new connection. -/
def uploadOne :
    List (Relay.Event (Fin twoSources.ntripSources.length × Completion) Uploading.Event) :=
  [.consume (.worker {}), .consume (.worker accepting), .consume (.worker {}), .deliver,
    .consume (.worker {}), .consume (.worker accepting)]

/-- Of the two messages on the subject the first one is lost. -/
def lossyRun :
    List (Relay.Event (Fin twoSources.ntripSources.length × Completion) Uploading.Event) :=
  twoResponses.map .produce ++ [.lose 0] ++ uploadOne

end Upload

/-! ### The decoder -/

section Decoder

variable (mountpoint : Bytes)

/-- `rtcm_decoder_nats`, message by message. -/
def decoder : Automaton RtcmStreamFramer NatsMsg where
  init := {}
  step framer msg := some (onNatsMsg framer msg)

/-- `ntrip2nats`, and `rtcm_decoder_nats` for `mountpoint`. -/
def decoderRelay : Automaton
    (Relay (Bridge configuration) (Fin configuration.ntripSources.length × Bytes) RtcmStreamFramer)
    (Relay.Event (Fin configuration.ntripSources.length × Completion) NatsMsg) :=
  Relay.relay (process configuration evpEncodeBlock) (publishedOn (subjectOf mountpoint))
    decoder (fun x => ⟨x.2⟩) fun _ => false

variable {configuration evpEncodeBlock mountpoint}
  {r : Relay (Bridge configuration) (Fin configuration.ntripSources.length × Bytes)
    RtcmStreamFramer}
  {es : List (Relay.Event (Fin configuration.ntripSources.length × Completion) NatsMsg)}

/-- The framer has received what has been delivered. -/
theorem framer_eq (h : (decoderRelay configuration evpEncodeBlock mountpoint).Reachable r) :
    r.consumer = framed (r.delivered.map Prod.snd).flatten := by
  have hor : (∃ x ∈ r.delivered, 2 ^ 31 ≤ x.2.length) ∨
      r.consumer = framed (r.delivered.map Prod.snd).flatten := by
    refine Relay.consumer_invariant (P := fun l f => (∃ x ∈ l, 2 ^ 31 ≤ x.2.length) ∨
      f = framed (l.map Prod.snd).flatten) h (.inr framed_nil.symm) ?_ fun _ _ hown => ?_
    · intro l x f f' _ hP hstep
      rcases hP with ⟨x', hx', hlen⟩ | rfl
      · exact .inl ⟨x', List.mem_append_left _ hx', hlen⟩
      · by_cases hlen : x.2.length < 2 ^ 31
        · have hmsg := onNatsMsg_framed (l.map Prod.snd).flatten hlen
          rw [msg_publish hlen] at hmsg
          rw [List.map_append, List.flatten_append, List.map_singleton, List.flatten_singleton,
            ← hmsg]
          exact .inr (Option.some.inj hstep).symm
        · exact .inl ⟨x, by simp, not_lt.1 hlen⟩
    · cases hown
  refine hor.resolve_left fun ⟨x, hx, hlen⟩ => ?_
  have hsub := Relay.delivered_sublist (grows_publishedOn _) h
  have hlt := (sized_publishedOn (Relay.producer_reachable h)
    (hsub.subset (List.mem_append_left _ hx))).2
  exact absurd hlt (not_lt.2 hlen)

/-- Without losses, the decoder has framed what it has got of the body. -/
theorem exists_framed
    (h : (decoderRelay configuration evpEncodeBlock mountpoint).Run
      (fun _ e => e.isLoss = false) es r)
    {i : Fin configuration.ntripSources.length}
    (hi : ∀ j, matchesSubject (subjectOf mountpoint) (subject configuration j) = true ↔ j = i) :
    ∃ got, got ++ (r.channel.map Prod.snd).flatten = (r.producer.member i).body ∧
      r.consumer = framed got := by
  refine ⟨(r.delivered.map Prod.snd).flatten, ?_, framer_eq h.reachable⟩
  rw [← List.flatten_append, ← List.map_append, Relay.delivered_eq (grows_publishedOn _) h]
  exact flatten_publishedOn (Relay.producer_reachable h.reachable) hi

/-- Two frames, the first of which comes on two connections. The other source has sent something
    between its halves. -/
def reconnectRun :
    List (Relay.Event (Fin twoSources.ntripSources.length × Completion) NatsMsg) :=
  List.replicate 3 (.produce (sourceA, ⟨0, .ok, []⟩)) ++
  List.replicate 3 (.produce (sourceB, ⟨0, .ok, []⟩)) ++
  [.produce (sourceA, ⟨0, .ok, ascii "ICY 200 OK\r\n\r\n" ++ [0x20, 0xD3, 0x00, 0x00]⟩),
    .deliver, .produce (sourceB, ⟨0, .ok, ascii "ICY 200 OK\r\n\r\nx"⟩),
    .produce (sourceA, ⟨0, .failed, []⟩)] ++
  List.replicate 4 (.produce (sourceA, ⟨0, .ok, []⟩)) ++
  [.produce (sourceA, ⟨0, .ok, ascii "ICY 200 OK\r\n\r\n" ++ [0x47, 0xEA]⟩),
    .produce (sourceA, ⟨0, .ok, [0x4B, 0x0D, 0x0A, 0xD3, 0x00, 0x03, 0x43]⟩), .deliver, .deliver,
    .produce (sourceA, ⟨0, .ok, [0xD3, 0x00, 0xA4, 0x77, 0xF0]⟩), .deliver]

theorem lossless_reconnectRun : ∀ e ∈ reconnectRun, e.isLoss = false := by
  simp [reconnectRun, Relay.Event.isLoss]

theorem matches_sourceA : ∀ j, matchesSubject (subjectOf (ascii "A")) (subject twoSources j) =
    true ↔ j = sourceA := by
  decide

/-- **The two decoders never contradict each other.** With a caster that goes on with the same
    stream whenever a connection is established again, on both ways, and nothing lost: what
    `rtcm_decoder_ntrip` has decoded, in a run without a rejected response, and what
    `rtcm_decoder_nats` has decoded are both the first payloads of the stream; and when both
    have received as much of it, their framers are in the same state. -/
theorem decoders_consistent
    (h : (decoderRelay configuration evpEncodeBlock mountpoint).Run
      (fun _ e => e.isLoss = false) es r)
    {i : Fin configuration.ntripSources.length}
    (hi : ∀ j, matchesSubject (subjectOf mountpoint) (subject configuration j) = true ↔ j = i)
    {target : NtripDecoderTarget} {loads : Option ℕ} {es' : List Completion}
    {s : NtripDecoderClient × List NtripDecoderClient.Connection}
    (h' : (NtripDecoderClient.connectionsAutomaton target loads).Run
      (fun s e => NtripDecoderClient.Accepts s.1 e) es' s)
    (stream : Bytes) (hbody : (r.producer.member i).body <+: stream)
    (hbodies : (NtripDecoderClient.bodies s.2).flatten <+: stream) :
    r.consumer.decoded <+: (push {} stream).decoded ∧
      s.1.framer.decoded <+: (push {} stream).decoded ∧
      (r.channel = [] → (NtripDecoderClient.bodies s.2).flatten = (r.producer.member i).body →
        s.1.framer = r.consumer) := by
  obtain ⟨got, hgot, hframer⟩ := exists_framed h hi
  have hdirect := NtripDecoderClient.framer_eq_bodies h'
  -- Either way, a part of the stream has been framed.
  have hprefix {part : Bytes} (hpart : part <+: stream) :
      (framed part).decoded <+: (push {} stream).decoded := by
    obtain ⟨more, rfl⟩ := hpart
    rw [NtripDecoderClient.push_new]
    exact decoded_framed_append part more
  refine ⟨?_, ?_, fun hchannel heq => ?_⟩
  · rw [hframer]
    exact hprefix ((hgot ▸ List.prefix_append ..).trans hbody)
  · rw [hdirect]
    exact hprefix hbodies
  · rw [hchannel, List.map_nil, List.flatten_nil, List.append_nil] at hgot
    rw [hdirect, hframer, heq, hgot]

/-- The same frames, as `rtcm_decoder_ntrip` receives them, with the border of its connections
    elsewhere. -/
def directRun : List Completion :=
  [⟨0, .ok, []⟩, ⟨0, .ok, []⟩, ⟨0, .ok, []⟩,
    ⟨0, .ok, ascii "HTTP/1.1 200 OK\r\n\r\n" ++ [0x20, 0xD3, 0x00, 0x00, 0x47, 0xEA]⟩,
    ⟨0, .ok, [0x4B, 0x0D, 0x0A, 0xD3]⟩, ⟨0, .failed, []⟩,
    ⟨0, .ok, []⟩, ⟨0, .ok, []⟩, ⟨0, .ok, []⟩, ⟨0, .ok, []⟩,
    ⟨0, .ok, ascii "HTTP/1.1 200 OK\r\n\r\n" ++ [0x00, 0x03, 0x43]⟩,
    ⟨0, .ok, [0xD3, 0x00, 0xA4, 0x77, 0xF0]⟩]

theorem decoders_consistent_directRun : ∃ r s,
    (decoderRelay twoSources encodeBlock (ascii "A")).exec reconnectRun = some r ∧
      ((NtripDecoderClient.connectionsAutomaton {} none).restrict
        fun s e => NtripDecoderClient.Accepts s.1 e).exec directRun = some s ∧
      r.consumer.decoded = [[], [0x43, 0xD3, 0x00]] ∧ s.1.framer = r.consumer := by
  have hrun : ((decoderRelay twoSources encodeBlock (ascii "A")).exec reconnectRun).map
      (fun r => ((r.producer.member sourceA).body, r.consumer.decoded, r.channel.map Prod.snd)) =
        some (encodeFrames twoFrames, [[], [0x43, 0xD3, 0x00]], []) := by
    decide +kernel
  obtain ⟨r, hr, heq⟩ := Option.map_eq_some_iff.1 hrun
  simp only [Prod.mk.injEq, List.map_eq_nil_iff] at heq
  obtain ⟨hbody, hdecoded, hchannel⟩ := heq
  have hdirect : (((NtripDecoderClient.connectionsAutomaton {} none).restrict
      fun s e => NtripDecoderClient.Accepts s.1 e).exec directRun).map
      (fun s => (NtripDecoderClient.bodies s.2).flatten) = some (encodeFrames twoFrames) := by
    decide +kernel
  obtain ⟨s, hs, hbodies⟩ := Option.map_eq_some_iff.1 hdirect
  have hconsistent := decoders_consistent
    ((Automaton.run_of_exec hr).of_forall lossless_reconnectRun) matches_sourceA
    (Automaton.run_of_restrict (Automaton.run_of_exec hs)) (encodeFrames twoFrames)
    (by rw [hbody]) (by rw [hbodies])
  exact ⟨r, s, hr, hs, hdecoded, hconsistent.2.2 hchannel (hbodies.trans hbody.symm)⟩

end Decoder

end RtcmBridge

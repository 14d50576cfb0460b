import RtcmBridge.DecoderClient.Stream
import RtcmBridge.DecoderNats
import RtcmBridge.NtripConnection.Transfer

/-!
# The two ways from a caster to a decoder

`rtcm_decoder_ntrip` decodes what it reads from a caster; `rtcm_decoder_nats`
decodes what `ntrip2nats` has published of it. Both framers receive the body of
the response, each in pieces of its own, and so decode the same.
-/

namespace RtcmBridge

open RtcmStreamFramer Ntrip2Nats

/-- **Decoding directly and decoding through NATS agree.** A response whose
    header block, up to the first blank line at `k`, both clients accept is read
    by both, cut into reads in any two ways, those of `ntrip2nats` no longer
    than its buffer. With every message of `ntrip2nats` delivered once and in
    order, the payloads decoded, the counters and what is left in the buffers
    are the same, namely those of a fresh framer that is given the body. -/
theorem decoders_agree (options : Options) (response : Bytes) (k : ℕ)
    (hk : find headersEndMark response = some k)
    (hresponseOk : responseOk (response.take (k + 4)) = true)
    (hisOkResponse : isOkResponse (response.take (k + 4)) = true)
    -- `rtcm_decoder_ntrip`, connected.
    (target : NtripDecoderTarget) (client : NtripDecoderClient)
    (hheader : client.headerDone = false) (hempty : client.responseHeader = [])
    (hframer : client.framer = {})
    (reads : List Bytes) (hreads : reads.flatten = response)
    -- `ntrip2nats`, connected.
    (source : NtripSource) (evpEncodeBlock : Bytes → Option Bytes)
    (c : NtripConnection) (hcomplete : c.responseHeadersComplete = false)
    (hbuffer : c.responseBuffer = []) (reads' : List Bytes) (hreads' : reads'.flatten = response)
    (hsize : ∀ data ∈ reads', (data.length : ℤ) ≤ options.readBufferBytes.toInt) :
    ∃ messages, (c.establish.onReads options source evpEncodeBlock reads').session.published =
        c.session.published ++ messages ∧
      (messages.map Publish.msg).foldl onNatsMsg {} = (client.onReads target reads).framer ∧
      (client.onReads target reads).framer = push {} (response.drop (k + 4)) := by
  -- The direct way.
  have hdirect : (client.onReads target reads).framer = framed (response.drop (k + 4)) := by
    have hfed : client.Fed [] [] := .inl ⟨rfl, hheader, hempty, hframer.trans framed_nil.symm⟩
    have hacc : NtripDecoderClient.Accepted ([] ++ reads.flatten) := by
      intro k' hk'
      rw [List.nil_append, hreads] at hk' ⊢
      rwa [Option.some.inj (hk'.symm.trans hk)]
    have := NtripDecoderClient.fed_onReads target reads hfed hacc
    rw [List.nil_append, hreads] at this
    rcases this with ⟨hnone, -⟩ | ⟨k', hk', -, hf⟩
    · rw [hk] at hnone
      exact absurd hnone (by simp)
    · rw [hf, List.nil_append, Option.some.inj (hk'.symm.trans hk)]
  -- The way over NATS.
  have hr : c.establish.Reading {} := .inl ⟨hcomplete, rfl, hbuffer⟩
  have hacc (k' : ℕ) (hk' : find headersEndMark (([] : Bytes) ++ reads'.flatten) = some k') :
      responseOk ((([] : Bytes) ++ reads'.flatten).take (k' + 4)) = true := by
    rw [List.nil_append, hreads'] at hk' ⊢
    rwa [Option.some.inj (hk'.symm.trans hk)]
  obtain ⟨pieces, hpub, hbody, hlen⟩ :=
    NtripConnection.published_onReads options source evpEncodeBlock reads' hr rfl hacc
  have hflat : pieces.flatten = response.drop (k + 4) := by
    have : bodyOf (([] : Bytes) ++ reads'.flatten) = bodyOf [] ++ pieces.flatten := hbody
    rw [List.nil_append, hreads', bodyOf_of_some hk, if_pos hresponseOk] at this
    exact this.symm
  have hsmall : ∀ piece ∈ pieces, piece.length < 2 ^ 31 := by
    intro piece hp
    obtain ⟨data, hd, hle⟩ := hlen piece hp
    have h₁ := hsize data hd
    have h₂ := Int32.toInt_lt options.readBufferBytes
    omega
  refine ⟨_, hpub, ?_, ?_⟩
  · rw [hdirect, ← hflat]
    have := foldl_onNatsMsg pieces hsmall []
    rwa [framed_nil, List.nil_append] at this
  · rw [hdirect, ← framed_nil, push_framed, List.nil_append]

/-- An empty frame, and one with a preamble in its payload. -/
def sampleBody : Bytes :=
  [0xD3, 0x00, 0x00, 0x47, 0xEA, 0x4B, 0xD3, 0x00, 0x03, 0x43, 0xD3, 0x00, 0xA4, 0x77, 0xF0]

/-- The reads of `rtcm_decoder_ntrip`, cut inside the first CRC and inside the second payload. -/
def directReads : List Bytes :=
  [ascii "ICY 200 OK\r\n\r\n", [0xD3, 0x00, 0x00, 0x47, 0xEA], [],
    [0x4B, 0xD3, 0x00, 0x03, 0x43], [0xD3, 0x00, 0xA4, 0x77, 0xF0]]

/-- The reads of `ntrip2nats`, cut inside the blank line and inside both headers. -/
def bridgedReads : List Bytes :=
  [ascii "ICY 200 OK\r\n\r", ascii "\n" ++ [0xD3, 0x00],
    [0x00, 0x47, 0xEA, 0x4B, 0xD3], [0x00, 0x03, 0x43, 0xD3, 0x00, 0xA4, 0x77, 0xF0]]

theorem decoders_agree_sampleBody : ∃ messages,
    (NtripConnection.onReads {} {} (fun _ => some (ascii "Og==")) (NtripConnection.establish
      { delay := 2 }) bridgedReads).session.published = [] ++ messages ∧
    (messages.map Publish.msg).foldl onNatsMsg {} =
      (NtripDecoderClient.onReads {} {} directReads).framer ∧
    (NtripDecoderClient.onReads {} {} directReads).framer = push {} sampleBody :=
  decoders_agree {} (ascii "ICY 200 OK\r\n\r\n" ++ sampleBody) 10 rfl rfl rfl
    {} {} rfl rfl rfl directReads rfl {} _ { delay := 2 } rfl rfl bridgedReads rfl (by decide)

end RtcmBridge

import RtcmBridge.Chunk
import RtcmBridge.DecoderClient.Connections
import RtcmBridge.Framer.RoundTrip

/-!
# Chunked responses

What follows the header block goes to the framer as it is: the client does not
undo a chunked coding. The sizes and the line ends of the chunks contain no
preamble, so that the framer passes over them between frames; within a frame
they spoil it. A chunked stream is decoded to its frames if each chunk is a
sequence of whole frames (`onReads_chunked`).
-/

namespace RtcmBridge

open RtcmStreamFramer

/-- A CRC-valid frame, and nothing more. -/
structure IsFrame (f : Bytes) : Prop where
  frame : FrameAt f 0
  length : f.length = 3 + lengthAt f 0 + 3

/-- A sequence of whole frames. -/
def IsFrames (p : Bytes) : Prop := ∃ fs : List Bytes, (∀ f ∈ fs, IsFrame f) ∧ p = fs.flatten

variable {f g : Bytes} {fs : List Bytes}

/-! ### Whole frames -/

/-- Without a preamble, a gap does not matter. -/
theorem decoded_framed_gap (hg : 0xD3 ∉ g) (m : Bytes) :
    (framed (g ++ m)).decoded = (framed m).decoded := by
  rw [decoded_framed, decoded_framed, (scan_gap hg m).1, List.filterMap_append,
    List.filterMap_replicate_of_none rfl, List.nil_append]

/-- A frame is decoded first, and then what is behind it. -/
theorem decoded_framed_frame (hf : IsFrame f) (m : Bytes) :
    (framed (f ++ m)).decoded = payloadAt f 0 :: (framed m).decoded := by
  have hv : frames.verdict f = .advance f.length (.frame (payloadAt f 0)) :=
    (verdict_eq_frame_iff f 0 _ _).2 ⟨hf.frame, hf.length, rfl⟩
  rw [decoded_framed, decoded_framed, frames.outs_of_advance (frames.stable hv m), List.drop_left]
  rfl

/-- So are any frames, one behind the other. -/
theorem decoded_framed_frames (hfs : ∀ f ∈ fs, IsFrame f) (m : Bytes) :
    (framed (fs.flatten ++ m)).decoded = fs.map (payloadAt · 0) ++ (framed m).decoded := by
  induction fs with
  | nil => rfl
  | cons f fs ih =>
    rw [List.flatten_cons, List.append_assoc, decoded_framed_frame (hfs f List.mem_cons_self),
      ih fun f hf => hfs f (List.mem_cons_of_mem _ hf)]
    rfl

/-! ### Chunks of whole frames -/

/-- The framer passes over the size of a chunk and the end of its line. -/
theorem decoded_framed_size (n : ℕ) (m : Bytes) :
    (framed (printed 16 n ++ crlf ++ m)).decoded = (framed m).decoded := by
  refine decoded_framed_gap (fun h => ?_) m
  have hsize : 0xD3 ∉ hexAlphabet ++ crlf := by decide
  rcases List.mem_append.1 h with h | h
  · exact hsize (List.mem_append_left _ (mem_hexAlphabet h))
  · exact hsize (List.mem_append_right _ h)

/-- The line break behind a chunk is such a gap. -/
theorem decoded_framed_crlf (m : Bytes) : (framed (crlf ++ m)).decoded = (framed m).decoded :=
  decoded_framed_gap (by decide) m

/-- Chunks of whole frames are decoded as if they were not coded. -/
theorem decoded_framed_chunks {pieces : List Bytes} (h : ∀ p ∈ pieces, IsFrames p) :
    (framed (pieces.flatMap encodeChunk)).decoded = (framed pieces.flatten).decoded := by
  induction pieces with
  | nil => rfl
  | cons p pieces ih =>
    obtain ⟨fs, hfs, rfl⟩ := h p List.mem_cons_self
    rw [List.flatMap_cons, encodeChunk, List.append_assoc, List.append_assoc, decoded_framed_size,
      decoded_framed_frames hfs, decoded_framed_crlf, List.flatten_cons,
      decoded_framed_frames hfs, ih fun p hp => h p (List.mem_cons_of_mem _ hp)]

/-! ### The client -/

/-- The header block of a chunked response. -/
structure ChunkedHeader (header : Bytes) : Prop where
  status : ascii "HTTP/1.1 200 OK\r\n" <+: header
  coding : ascii "\r\nTransfer-Encoding: chunked\r\n" <:+: header
  ends : ∃ k, find headersEndMark header = some k ∧ header.length = k + 4

namespace NtripDecoderClient

/-- The client has just sent its first request. -/
structure Requested (c : NtripDecoderClient) : Prop where
  responseHeader : c.responseHeader = []
  headerDone : c.headerDone = false
  framer : c.framer = {}

/-- The framer receives what follows the header block. -/
theorem framer_onReads {c : NtripDecoderClient} (hc : Requested c) {target : NtripDecoderTarget}
    {header body : Bytes} (hheader : ChunkedHeader header) {reads : List Bytes}
    (hreads : reads.flatten = header ++ body) : (c.onReads target reads).framer = framed body := by
  obtain ⟨k, hk, hlen⟩ := hheader.ends
  have hfind := find_append hk body
  have hfed : Fed [] c [] :=
    .inl ⟨rfl, hc.headerDone, hc.responseHeader, hc.framer.trans framed_nil.symm⟩
  have hacc : Accepted ([] ++ reads.flatten) := by
    rw [List.nil_append, hreads]
    intro k' hk'
    obtain rfl := Option.some.inj (hfind.symm.trans hk')
    rw [← hlen, List.take_left, isOkResponse_iff]
    exact ⟨ascii "HTTP/1.1", by decide, List.IsPrefix.trans ⟨ascii " OK\r\n", rfl⟩ hheader.status⟩
  rw [framer_of_fed (fed_onReads target reads hfed hacc), List.nil_append, List.nil_append, hreads,
    bodyAfter, hfind]
  dsimp only
  rw [← hlen, List.drop_left]

/-- **Chunked streams.** Of valid frames in any pieces, each in a chunk, received in
    any reads after the header block of a chunked response, the client decodes
    what a framer decodes of the chunks as they are coded; and if each piece is a
    sequence of whole frames, exactly the payloads of the frames, in order. -/
theorem onReads_chunked (target : NtripDecoderTarget) (c : NtripDecoderClient) (hc : Requested c)
    (header : Bytes) (hheader : ChunkedHeader header) (fs : List Bytes)
    (hfs : ∀ f ∈ fs, IsFrame f) (pieces : List Bytes) (hpieces : pieces.flatten = fs.flatten)
    (reads : List Bytes) (hreads : reads.flatten = header ++ pieces.flatMap encodeChunk) :
    (c.onReads target reads).framer.decoded = (push {} (pieces.flatMap encodeChunk)).decoded ∧
      ((∀ p ∈ pieces, IsFrames p) →
        (c.onReads target reads).framer.decoded = fs.map (payloadAt · 0)) := by
  rw [framer_onReads hc hheader hreads, push_new]
  refine ⟨rfl, fun hwhole => ?_⟩
  rw [decoded_framed_chunks hwhole, hpieces, ← List.append_nil fs.flatten,
    decoded_framed_frames hfs, framed_nil, List.append_nil]

/-- The header block of a chunked response. -/
def chunkedHeader : Bytes := ascii "HTTP/1.1 200 OK\r\nTransfer-Encoding: chunked\r\n\r\n"

theorem chunkedHeader_spec : ChunkedHeader chunkedHeader :=
  ⟨by decide, by decide, ⟨43, by decide, by decide⟩⟩

/-- A frame with an empty payload. -/
def emptyFrame : Bytes := [0xD3, 0x00, 0x00, 0x47, 0xEA, 0x4B]

/-- A frame with a preamble in its payload. -/
def preambleFrame : Bytes := [0xD3, 0x00, 0x03, 0x43, 0xD3, 0x00, 0xA4, 0x77, 0xF0]

theorem isFrame_emptyFrame : IsFrame emptyFrame := ⟨⟨rfl, by decide, by decide +kernel⟩, rfl⟩

theorem isFrame_preambleFrame : IsFrame preambleFrame := ⟨⟨rfl, by decide, by decide +kernel⟩, rfl⟩

theorem sampleFrames_spec : ∀ f ∈ [emptyFrame, preambleFrame], IsFrame f :=
  List.forall_mem_cons.2 ⟨isFrame_emptyFrame, List.forall_mem_singleton.2 isFrame_preambleFrame⟩

/-- Three frames in two chunks, the first of which is cut inside its size line. -/
theorem onReads_chunked_threeFrames : (onReads {} {}
    [chunkedHeader ++ [0x66], crlf ++ emptyFrame ++ preambleFrame ++ crlf ++
      encodeChunk emptyFrame]).framer.decoded = [[], [0x43, 0xD3, 0x00], []] := by
  have hfs : ∀ f ∈ [emptyFrame, preambleFrame, emptyFrame], IsFrame f := by
    have := isFrame_emptyFrame
    have := isFrame_preambleFrame
    simp [*]
  refine (onReads_chunked {} {} ⟨rfl, rfl, rfl⟩ chunkedHeader chunkedHeader_spec
    [emptyFrame, preambleFrame, emptyFrame] hfs [emptyFrame ++ preambleFrame, emptyFrame] rfl
    _ (by decide +kernel)).2 fun p hp => ?_
  simp only [List.mem_cons, List.not_mem_nil, or_false] at hp
  rcases hp with rfl | rfl
  · exact ⟨[emptyFrame, preambleFrame], sampleFrames_spec, by simp⟩
  · exact ⟨[emptyFrame], List.forall_mem_singleton.2 isFrame_emptyFrame, by simp⟩

/-- A chunk that ends after the header of the empty frame: nothing is decoded. -/
theorem onReads_splitFrame : ¬∀ (target : NtripDecoderTarget) (c : NtripDecoderClient),
    Requested c → ∀ header : Bytes, ChunkedHeader header → ∀ fs : List Bytes,
    (∀ f ∈ fs, IsFrame f) → ∀ pieces : List Bytes, (∀ p ∈ pieces, p ≠ []) →
    pieces.flatten = fs.flatten → ∀ reads : List Bytes,
    reads.flatten = header ++ pieces.flatMap encodeChunk →
      (c.onReads target reads).framer.decoded = fs.map (payloadAt · 0) := by
  intro h
  have hdec := h {} {} ⟨rfl, rfl, rfl⟩ chunkedHeader chunkedHeader_spec [emptyFrame]
    (List.forall_mem_singleton.2 isFrame_emptyFrame)
    [[0xD3, 0x00, 0x00], [0x47, 0xEA, 0x4B]] (by decide) rfl
    [chunkedHeader, encodeChunk [0xD3, 0x00, 0x00] ++ encodeChunk [0x47, 0xEA, 0x4B]] rfl
  let tail : Bytes := [0x00, 0x00, 0x0D, 0x0A] ++ encodeChunk [0x47, 0xEA, 0x4B]
  have hv : frames.verdict (0xD3 :: tail) = .advance 1 .badCrc := by
    change frameVerdict (0xD3 :: tail) = .advance 1 .badCrc
    rw [frameVerdict, if_neg (by decide), if_neg (by decide), if_neg (by decide),
      if_neg (by decide), if_neg (by decide +kernel)]
  rw [framer_onReads ⟨rfl, rfl, rfl⟩ chunkedHeader_spec rfl] at hdec
  change (framed (printed 16 3 ++ crlf ++ (0xD3 :: tail))).decoded = [[]] at hdec
  have htail := decoded_framed_gap (g := tail) (by decide) []
  rw [List.append_nil, framed_nil, decoded_framed] at htail
  rw [decoded_framed_size, decoded_framed, frames.outs_of_advance hv] at hdec
  change (frames.outs tail).filterMap payloadOf = [[]] at hdec
  rw [htail] at hdec
  exact absurd hdec (by decide)

end NtripDecoderClient

end RtcmBridge

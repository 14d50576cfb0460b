import RtcmBridge.Nats2Ntrip.Source
import RtcmBridge.PrefixCode

/-!
# The body of an upload

`write_source` writes each message to the socket as a chunk. When the caster takes
each chunk as a whole, the body is their sequence (`upload_eq`). It is read in one way
only (`upload_parses`), wherever it breaks off: to the first of the messages, and what
there is of one more chunk.
-/

namespace RtcmBridge

/-! ### The grammar -/

/-- A chunk: its size in hexadecimal digits, without a leading zero, and its data. -/
@[ext]
structure Chunk where
  size : Bytes
  data : Bytes
  size_ne_nil : size ≠ []
  digits : ∀ c ∈ size, isHexDigit c = true
  noLeadingZero : size.head? = some 48 → size = [48]
  value : valueOf 16 size = data.length

namespace Chunk

/-- A chunk as it is written. -/
def text (c : Chunk) : Bytes := c.size ++ crlf ++ c.data ++ crlf

/-- The size of a chunk ends at the carriage return. -/
theorem cr_notMem_size (c : Chunk) : 13 ∉ c.size := fun h =>
  absurd (c.digits 13 h) (by decide)

/-- No chunk is the beginning of another. -/
theorem prefixFree_text : PrefixFree text where
  ne_nil c h := c.size_ne_nil (by simp_all [text])
  inj {c c' l l'} h := by
    simp only [text, List.append_assoc] at h
    have hcr (d : Bytes) : crlf ++ d = [] ∨ ∃ t, crlf ++ d = 13 :: t := .inr ⟨10 :: d, rfl⟩
    -- The size ends at the first carriage return, whatever the data are.
    obtain ⟨hsize, hrest⟩ :=
      append_inj_of_notMem c.cr_notMem_size c'.cr_notMem_size (hcr _) (hcr _) h
    have hlen : c.data.length = c'.data.length := by rw [← c.value, ← c'.value, hsize]
    exact Chunk.ext hsize (List.append_inj (List.append_cancel_left hrest) hlen).1

/-- The chunk that `encode_chunk` writes. -/
def of (data : Bytes) : Chunk where
  size := printed 16 data.length
  data
  size_ne_nil h := by
    obtain ⟨c, l, hl, -⟩ := printed_eq_cons (by decide) le_rfl data.length
    exact absurd (hl.symm.trans h) (by simp)
  digits c hc := by
    obtain ⟨d, hd, rfl⟩ := mem_printed (by decide) hc
    exact isHexDigit_digitOf hd
  noLeadingZero h := by
    obtain ⟨c, l, hl, hzero⟩ := printed_eq_cons (by decide) le_rfl data.length
    have hhead : (printed 16 data.length).head? = some c := congrArg List.head? hl
    rw [hzero (Option.some.inj (hhead.symm.trans h))]
    rfl
  value := valueOf_printed (by decide) le_rfl _

theorem text_of (data : Bytes) : (of data).text = encodeChunk data := rfl

/-- The size of a message that is not empty does not begin with a zero. -/
theorem head?_encodeChunk {data : Bytes} (h : data ≠ []) :
    (encodeChunk data).head? ≠ some 48 := by
  intro hzero
  obtain ⟨c, l, hl, hc⟩ := printed_eq_cons (by decide) le_rfl data.length
  have hsize : printed 16 data.length = c :: l := hl
  rw [encodeChunk, hsize] at hzero
  exact h (List.length_eq_zero_iff.1 (hc (Option.some.inj hzero)))

end Chunk

/-! ### The stream -/

/-- `write_source` on a TCP connection to which `sent` was written, when the caster takes
    the whole chunk. A null pointer is `none`. -/
def writeSource (sent : Bytes) (data : Option Bytes) : NtripStatus × Bytes :=
  let c : SourceConnection := { socket := some { written := sent } }
  let (status, c) := c.ntripConnectionWrite { takes := (encodeChunk (data.getD [])).length } data
  (status, c.socket.elim [] Wire.written)

/-- What is written to the socket, message after message. -/
def upload (ps : List Bytes) : Bytes := ps.foldl (fun sent p => (writeSource sent (some p)).2) []

variable {ps : List Bytes}

/-- A message is written as a chunk. -/
theorem writeSource_some (sent : Bytes) {data : Bytes} (h : data ≠ []) :
    writeSource sent (some data) = (.ok, sent ++ encodeChunk data) := by
  have hopen : SourceConnection.On sent [] [] { socket := some { written := sent } } := ⟨rfl, rfl⟩
  obtain ⟨c', hon, heq⟩ := SourceConnection.ntripConnectionWrite_cases
    { takes := (encodeChunk data).length } hopen h
  rw [List.take_length] at hon
  rw [writeSource, Option.getD_some, heq]
  dsimp only
  rw [if_neg (lt_irrefl _), hon.socket]
  rfl

/-- The body is the sequence of the chunks of the messages. -/
theorem upload_eq (h : ∀ p ∈ ps, p ≠ []) : upload ps = (ps.map Chunk.of).flatMap Chunk.text := by
  have hwrite (sent : Bytes) : ∀ ps : List Bytes, (∀ p ∈ ps, p ≠ []) →
      ps.foldl (fun sent p => (writeSource sent (some p)).2) sent =
        sent ++ ps.flatMap encodeChunk := by
    intro ps h
    induction ps generalizing sent with
    | nil => exact (List.append_nil _).symm
    | cons p ps ih =>
      rw [List.foldl_cons, ih _ fun q hq => h q (List.mem_cons_of_mem _ hq),
        writeSource_some sent (h p (List.mem_cons_self ..)), List.flatMap_cons,
        List.append_assoc]
  rw [upload, hwrite [] ps h, List.flatMap_map]
  rfl

theorem map_data_of (ps : List Bytes) : (ps.map Chunk.of).map Chunk.data = ps := by
  rw [List.map_map]
  exact List.map_id ps

/-- **An upload is read in one way.** The stream that is written for messages
    that are not empty is read as chunks in one way only, the data of which are
    the messages. If it breaks off, it is still read in one way only, the data
    being the first of the messages. No chunk, whole or broken off, is the last
    chunk of a body, whose size is zero. -/
theorem upload_parses (h : ∀ p ∈ ps, p ≠ []) :
    (∃ cs : List Chunk, cs.map Chunk.data = ps ∧
      ∀ cs' tail, Parses Chunk.text (upload ps) cs' tail ↔ cs' = cs ∧ tail = []) ∧
    ∀ s, s <+: upload ps → ∃ k ≤ ps.length, ∃ (cs : List Chunk) (tail : Bytes),
      cs.map Chunk.data = ps.take k ∧
      (∀ cs' tail', Parses Chunk.text s cs' tail' ↔ cs' = cs ∧ tail' = tail) ∧
      (∀ c ∈ cs, c.data ≠ []) ∧ tail.head? ≠ some 48 := by
  have hunique {s : Bytes} {cs : List Chunk} {tail : Bytes} (hparses : Parses Chunk.text s cs tail)
      (cs' : List Chunk) (tail' : Bytes) :
      Parses Chunk.text s cs' tail' ↔ cs' = cs ∧ tail' = tail := by
    refine ⟨Chunk.prefixFree_text.unique hparses, ?_⟩
    rintro ⟨rfl, rfl⟩
    exact hparses
  rw [upload_eq h]
  refine ⟨⟨ps.map Chunk.of, map_data_of ps, hunique ⟨(List.append_nil _).symm, .inl rfl⟩⟩,
    fun s hs => ?_⟩
  obtain ⟨k, hk, tail, hparses, htail⟩ := exists_parses hs
  rw [List.length_map] at hk
  refine ⟨k, hk, _, tail, ?_, hunique hparses, fun c hc => ?_, fun hzero => ?_⟩
  · rw [← List.map_take, map_data_of]
  · obtain ⟨p, hp, rfl⟩ := List.mem_map.1 (List.mem_of_mem_take hc)
    exact h p hp
  · rcases htail with rfl | ⟨c, hc, t, ht⟩
    · exact absurd hzero (by simp)
    · obtain ⟨p, hp, rfl⟩ := List.mem_map.1 hc
      refine Chunk.head?_encodeChunk (h p hp) ?_
      rw [← Chunk.text_of, ← ht, List.head?_append, hzero]
      rfl

/-- Messages that look like the size and the end of a chunk. -/
theorem upload_parses_lineEnds : ∃ cs : List Chunk,
    cs.map Chunk.data = [[13, 10], [48, 13, 10]] ∧
    ∀ cs' tail, Parses Chunk.text (upload [[13, 10], [48, 13, 10]]) cs' tail ↔
      cs' = cs ∧ tail = [] :=
  (upload_parses (by simp)).1

end RtcmBridge

import RtcmBridge.DecoderClient.Chains
import RtcmBridge.DecoderClient.Stream
import RtcmBridge.Framer.Seams

/-!
# Several connections of `rtcm_decoder_ntrip`

A new connection resets the header buffer and the delay, but not the framer: this
goes on with the bytes it has left of the connections before (`Inv.framer`). The
frames decoded are those of each connection alone as long as these bytes capture
nothing of what the new connection delivers (`separate_iff`).
-/

namespace RtcmBridge.NtripDecoderClient

open Asio RtcmStreamFramer

/-- An established connection: what the framer had left before it, and what was
    received on it. -/
structure Connection where
  left : Bytes
  received : Bytes := []

/-- The bytes after the header block of a response. -/
def bodyAfter (s : Bytes) : Bytes :=
  match find headersEndMark s with
  | some k => s.drop (k + 4)
  | none => []

/-- The bodies of the connections, whose newest is the first, in their order. -/
def bodies (ks : List Connection) : List Bytes := ks.reverse.map fun k => bodyAfter k.received

/-- The connections after a step: one is established, or the newest one has
    received more. -/
def recordConnections (ks : List Connection) (c : NtripDecoderClient) (e : Completion)
    (_ : NtripDecoderClient) : List Connection :=
  match c.io.pending[e.i]?, e.ec with
  | some op, .ok =>
    match op.kind with
    | .connect => ⟨c.framer.buf, []⟩ :: ks
    | .read => ks.modifyHead fun k => { k with received := k.received ++ e.data }
    | _ => ks
  | _, _ => ks

/-- The client from its `start` on, with its connections. -/
def connectionsAutomaton (target : NtripDecoderTarget) (loads : Option ℕ) :
    Automaton (NtripDecoderClient × List Connection) Completion :=
  (automaton target loads).track [] recordConnections

/-- `e` does not complete a header block that the client rejects. -/
def Accepts (c : NtripDecoderClient) (e : Completion) : Prop :=
  ∀ op ∈ c.io.pending[e.i]?, op.kind = .read → e.ec = .ok → c.headerDone = false →
    ∀ pos ∈ find headersEndMark (c.responseHeader ++ e.data),
      isOkResponse ((c.responseHeader ++ e.data).take (pos + 4)) = true

instance (c : NtripDecoderClient) (e : Completion) : Decidable (Accepts c e) :=
  inferInstanceAs (Decidable (∀ op ∈ c.io.pending[e.i]?, op.kind = .read → e.ec = .ok →
    c.headerDone = false → ∀ pos ∈ find headersEndMark (c.responseHeader ++ e.data),
      isOkResponse ((c.responseHeader ++ e.data).take (pos + 4)) = true))

/-- What is decoded is what a fresh framer decodes of each connection alone, and
    each frame decoded is one that the fresh framer accepts, within the bytes of
    its connection. -/
structure Separate (s : NtripDecoderClient × List Connection) : Prop where
  decoded : s.1.framer.decoded = (bodies s.2).flatMap fun b => (push {} b).decoded
  frames : s.1.framer.decoded =
    (accepted (bodies s.2).flatten).map (payloadAt (bodies s.2).flatten)
  own : ∀ i ∈ accepted (bodies s.2).flatten, ∃ older b newer,
    bodies s.2 = older ++ b :: newer ∧ ∃ j ∈ accepted b,
      i = older.flatten.length + j ∧ j + (3 + lengthAt b j + 3) ≤ b.length

/-- A read of which the bytes left capture something. -/
def Mixes (s : NtripDecoderClient × List Connection) (e : Completion) : Prop :=
  ∃ op k ks, s.1.io.pending[e.i]? = some op ∧ op.kind = .read ∧ e.ec = .ok ∧ s.2 = k :: ks ∧
    Captures k.left (bodyAfter (k.received ++ e.data))

variable {target : NtripDecoderTarget} {loads : Option ℕ} {c c' : NtripDecoderClient}
  {ks : List Connection} {k : Connection} {e : Completion} {before s data : Bytes}

/-! ### One connection -/

/-- The framer is that of what was before, and of the body so far. -/
theorem framer_of_fed (h : Fed before c s) : c.framer = framed (before ++ bodyAfter s) := by
  rcases h with ⟨hnone, -, -, hf⟩ | ⟨k, hk, -, hf⟩
  · rw [hf, bodyAfter, hnone, List.append_nil]
  · rw [hf, bodyAfter, hk]

/-- The header block is accepted still when more is received. -/
theorem accepted_read (h : Fed before c s) (hs : Accepted s)
    (hok : c.headerDone = false → ∀ pos, find headersEndMark (c.responseHeader ++ data) = some pos →
      isOkResponse ((c.responseHeader ++ data).take (pos + 4)) = true) :
    Accepted (s ++ data) := by
  intro k hk
  rcases h with ⟨-, hd, hbuf, -⟩ | ⟨k', hk', -, -⟩
  · have := hok hd k
    rw [hbuf] at this
    exact this hk
  · obtain rfl := Option.some.inj ((find_append hk' data).symm.trans hk)
    rw [List.take_append_of_le_length (find_mark_le hk')]
    exact hs k' hk'

/-! ### Whole runs -/

/-- The body of the newest connection is the last one. -/
theorem bodies_cons (k : Connection) (ks : List Connection) :
    bodies (k :: ks) = bodies ks ++ [bodyAfter k.received] := by
  rw [bodies, List.reverse_cons, List.map_append]
  rfl

/-- The newest connection is being read. -/
structure Newest (c : NtripDecoderClient) (k : Connection) (ks : List Connection) : Prop where
  fed : Fed (bodies ks).flatten c k.received
  accepted : Accepted k.received
  left : k.left = frames.rest (bodies ks).flatten
  unmixed : Unmixed (bodies ks)

/-- The invariant of the client as long as nothing is captured. -/
structure Inv (s : NtripDecoderClient × List Connection) : Prop where
  single : Single s.1
  framer : s.1.framer = framed (bodies s.2).flatten
  unmixed : Unmixed (bodies s.2)
  newest : ∀ op ∈ s.1.io.pending, op.kind = .write ∨ op.kind = .read →
    ∃ k ks, s.2 = k :: ks ∧ Newest s.1 k ks

/-- Nothing is pending that reads or leads to a read. -/
def Away (c : NtripDecoderClient) : Prop :=
  ∀ op ∈ c.io.pending, ¬(op.kind = .write ∨ op.kind = .read)

/-- Nothing is received, and the connection is given up or there is none. -/
theorem Inv.away (h : Inv (c, ks)) (hsingle : Single c') (hf : c'.framer = c.framer)
    (haway : Away c') : Inv (c', ks) :=
  ⟨hsingle, hf.trans h.framer, h.unmixed, fun op hop hk => absurd hk (haway op hop)⟩

/-- `connect` leaves the framer alone, and the client not reading. -/
theorem away_connect (h : c.io.pending = []) : c.connect.framer = c.framer ∧ Away c.connect := by
  obtain ⟨loads, hl⟩ := load_snd c
  rw [connect_eq, hl]
  split_ifs
  · exact ⟨rfl, by simp [Away, Io.asyncResolve, Io.start, h]⟩
  · exact ⟨rfl, by simp [Away, h]⟩

/-- So does `reconnect`. -/
theorem away_reconnect (h : c.io.pending = []) :
    c.reconnect.framer = c.framer ∧ Away c.reconnect := by
  obtain ⟨loads, hl⟩ := load_snd { c with io := c.io.socketClose }
  have hp : c.io.socketClose.pending = [] := pending_cancel h _
  rw [reconnect_eq, hl]
  split_ifs
  · refine ⟨rfl, ?_⟩
    simp [Away, Io.newTimerAsyncWait, Io.start, Io.timerCancel, pending_cancel hp]
  · exact ⟨rfl, by simp [Away, hp]⟩

/-- Away from the connection, and after a failure, the framer is left alone. -/
theorem away_handler (h : c.io.pending = []) {kind : Kind} {ec : Ec}
    (hk : ec = .ok → kind = .resolve ∨ kind = .wait) :
    (handler target c kind ec data).framer = c.framer ∧
      Away (handler target c kind ec data) := by
  by_cases hec : ec = .ok
  · rcases hk hec with rfl | rfl
    · rw [handler, if_neg (not_not.2 hec)]
      refine ⟨rfl, ?_⟩
      simp [Away, Io.asyncConnect, Io.start, Io.socketClose, Io.socketCancel, pending_cancel h]
    · exact away_connect h
  · cases kind with
    | resolve | connect | write =>
      rw [handler, if_pos hec]
      exact away_reconnect h
    | read =>
      obtain ⟨loads, hl⟩ := load_snd c
      rw [handler, if_pos hec]
      dsimp only
      rw [hl]
      split_ifs
      · exact away_reconnect (c := { c with loads }) h
      · exact ⟨rfl, by simp [Away, h]⟩
    | wait => exact away_connect h

/-- A read adds its bytes to the newest connection. -/
theorem Newest.read (h : Newest c k ks) (io : Io) (ha : Accepted (k.received ++ data)) :
    Newest (onBytes { c with io } data).readLoop { k with received := k.received ++ data } ks :=
  ⟨fed_readLoop (fed_onBytes (c := { c with io }) h.fed ha), ha, h.left, h.unmixed⟩

/-- If the bytes left before capture nothing, the bodies stay unmixed. -/
theorem Newest.unmixed_read (h : Newest c k ks)
    (hc : ¬Captures k.left (bodyAfter (k.received ++ data))) :
    Unmixed (bodies ({ k with received := k.received ++ data } :: ks)) := by
  rw [bodies_cons]
  exact h.unmixed.concat (h.left ▸ hc)

/-- The newest connection of an unmixed stream satisfies the invariant. -/
theorem Newest.inv (h : Newest c k ks) (hsingle : Single c)
    (hu : Unmixed (bodies (k :: ks))) : Inv (c, k :: ks) := by
  refine ⟨hsingle, ?_, hu, fun _ _ _ => ⟨k, ks, rfl, h⟩⟩
  rw [bodies_cons, List.flatten_append, List.flatten_singleton]
  exact framer_of_fed h.fed

theorem not_rejects_of_accepts (h : Accepts c e) : ¬Rejects c e := by
  rintro ⟨⟨op, hi, hk⟩, hec, hd, ⟨pos, hpos, hrej⟩, -⟩
  rw [h op hi hk hec hd pos hpos] at hrej
  exact absurd hrej (by simp)

/-- A new connection. -/
theorem Inv.connect (h : Inv (c, ks)) (hsingle : Single c') (hd : c'.headerDone = false)
    (hbuf : c'.responseHeader = []) (hf : c'.framer = c.framer) :
    Inv (c', ⟨c.framer.buf, []⟩ :: ks) := by
  have hb : bodies (⟨c.framer.buf, []⟩ :: ks) = bodies ks ++ [[]] := bodies_cons _ ks
  have hnone : find headersEndMark [] = none := rfl
  refine ⟨hsingle, ?_, ?_, fun op _ _ => ⟨_, ks, rfl, ?_⟩⟩
  · rw [hb, List.flatten_append, List.flatten_singleton, List.append_nil]
    exact hf.trans h.framer
  · rw [hb]
    exact h.unmixed.concat_nil
  · refine ⟨.inl ⟨hnone, hd, hbuf, hf.trans h.framer⟩, ?_, ?_, h.unmixed⟩
    · intro k hk
      exact absurd hk (by simp [hnone])
    · exact congrArg RtcmStreamFramer.buf h.framer

/-- The newest connection goes on. -/
theorem Inv.write (h : Inv (c, k :: ks)) (io : Io) (hsingle : Single (readLoop { c with io }))
    (hnew : Newest c k ks) : Inv (readLoop { c with io }, k :: ks) :=
  Newest.inv ⟨fed_readLoop (c := { c with io }) hnew.fed, hnew.accepted, hnew.left, hnew.unmixed⟩
    hsingle h.unmixed

section Records

variable {op : Op} (hi : c.io.pending[e.i]? = some op)

include hi

/-- Only the ends of a connect and of a read change the connections. -/
theorem recordConnections_of_away
    (hk : e.ec = .ok → op.kind = .resolve ∨ op.kind = .write ∨ op.kind = .wait) :
    recordConnections ks c e c' = ks := by
  rw [recordConnections, hi]
  rcases hec : e.ec with _ | _ | _
  · rcases hk hec with hk | hk | hk <;> simp only [hk]
  · rfl
  · rfl

/-- A connection that succeeds is a new one, with what the framer has left. -/
theorem recordConnections_of_connect (hk : op.kind = .connect) (hec : e.ec = .ok) :
    recordConnections ks c e c' = ⟨c.framer.buf, []⟩ :: ks := by
  rw [recordConnections, hi, hec]
  simp only [hk]

/-- A read that succeeds belongs to the newest connection. -/
theorem recordConnections_of_read (hk : op.kind = .read) (hec : e.ec = .ok) :
    recordConnections (k :: ks) c e c' = { k with received := k.received ++ e.data } :: ks := by
  rw [recordConnections, hi, hec]
  simp only [hk, List.modifyHead_cons]

end Records

/-- A step that captures nothing. -/
theorem inv_step {s s' : NtripDecoderClient × List Connection} (h : Inv s) (ha : Accepts s.1 e)
    (hm : ¬Mixes s e) (hs : (connectionsAutomaton target loads).step s e = some s') : Inv s' := by
  obtain ⟨c, ks⟩ := s
  obtain ⟨c', ks'⟩ := s'
  obtain ⟨hstep, rfl⟩ := Automaton.step_track.1 hs
  have hsingle := single_step h.single (not_rejects_of_accepts ha) hstep
  obtain ⟨op, -, hi, -, io, hio, rfl⟩ := step_cases h.single hstep
  dsimp only at hi hsingle ⊢
  have hmem := List.mem_of_getElem? hi
  by_cases hk : e.ec = .ok → op.kind = .resolve ∨ op.kind = .wait
  · -- Nothing is read, and no connection is made or used.
    rw [recordConnections_of_away hi fun hec => (hk hec).imp_right .inr]
    obtain ⟨hf, haway⟩ := away_handler (c := { c with io }) hio hk
    exact h.away hsingle hf haway
  · push Not at hk
    obtain ⟨hec, hresolve, hwait⟩ := hk
    rcases hkind : op.kind with _ | _ | _ | _ | _
    · exact absurd hkind hresolve
    · rw [hkind] at hsingle
      rw [recordConnections_of_connect hi hkind hec]
      rw [hec] at hsingle ⊢
      exact h.connect hsingle rfl rfl rfl
    · rw [hkind] at hsingle
      rw [recordConnections_of_away hi fun _ => .inr (.inl hkind)]
      obtain ⟨k, ks, rfl, hnew⟩ := h.newest op hmem (.inl hkind)
      rw [hec] at hsingle ⊢
      exact h.write io hsingle hnew
    · rw [hkind] at hsingle
      obtain ⟨k, ks, rfl, hnew⟩ := h.newest op hmem (.inr hkind)
      rw [recordConnections_of_read hi hkind hec]
      rw [hec] at hsingle ⊢
      have hacc : Accepted (k.received ++ e.data) :=
        accepted_read hnew.fed hnew.accepted (ha op hi hkind hec)
      -- The step is not one that mixes the connections.
      have hc : ¬Captures k.left (bodyAfter (k.received ++ e.data)) := fun hc =>
        hm ⟨op, k, ks, hi, hkind, hec, rfl, hc⟩
      exact (hnew.read io hacc).inv hsingle (hnew.unmixed_read hc)
    · exact absurd hkind hwait

theorem push_new (b : Bytes) : push {} b = framed b := by
  rw [← framed_nil, push_framed, List.nil_append]

/-- While nothing is captured, the connections are separate. -/
theorem Inv.separate {s : NtripDecoderClient × List Connection} (h : Inv s) : Separate s where
  decoded := by
    rw [h.framer, h.unmixed.decoded]
    simp only [push_new]
  frames := by rw [h.framer, decoded_eq_map_accepted]
  own i hi := by
    rw [h.unmixed, mem_places] at hi
    obtain ⟨older, b, newer, heq, j, hj, rfl⟩ := hi
    obtain ⟨x, hx, rfl, q, hq⟩ := mem_accepted hj
    exact ⟨older, b, newer, heq, x.off, hj, rfl, (frameAt_of_hit hx hq).1.contained⟩

/-- A step that captures something. -/
theorem not_separate_step {s s' : NtripDecoderClient × List Connection} (h : Inv s)
    (ha : Accepts s.1 e) (hm : Mixes s e)
    (hs : (connectionsAutomaton target loads).step s e = some s') : ¬Separate s' := by
  obtain ⟨c, ks⟩ := s
  obtain ⟨c', ks'⟩ := s'
  obtain ⟨hstep, rfl⟩ := Automaton.step_track.1 hs
  obtain ⟨op, -, hi, -, io, hio, rfl⟩ := step_cases h.single hstep
  obtain ⟨op', k, ks, hi', hkind, hec, rfl, hcap⟩ := hm
  obtain rfl : op = op' := Option.some.inj (hi.symm.trans hi')
  -- The bytes read are those of the newest connection, with what it has left.
  obtain ⟨k', ks', heq, hnew⟩ := h.newest op (List.mem_of_getElem? hi) (.inr hkind)
  obtain ⟨rfl, rfl⟩ := List.cons.inj heq
  have hacc : Accepted (k.received ++ e.data) :=
    accepted_read hnew.fed hnew.accepted (ha op hi hkind hec)
  have hf := framer_of_fed (hnew.read io hacc).fed
  rw [recordConnections_of_read hi hkind hec, hkind, hec]
  intro hsep
  have hdec := hsep.decoded
  have hown := hsep.own
  simp only [push_new, bodies_cons] at hdec hown
  change (readLoop (onBytes { c with io } e.data)).framer.decoded = _ at hdec
  have hflat : (bodies ks ++ [bodyAfter (k.received ++ e.data)]).flatten =
      (bodies ks).flatten ++ bodyAfter (k.received ++ e.data) := by
    rw [List.flatten_append, List.flatten_singleton]
  rw [hf, ← hflat] at hdec
  -- Some frame decoded is in none of the bodies.
  obtain ⟨i, hacc, hplace⟩ := not_separate_of_captures hnew.unmixed (hnew.left ▸ hcap) hdec
  obtain ⟨older, b, newer, heq, j, hj, hij, -⟩ := hown i hacc
  exact hplace (mem_places.2 ⟨older, b, newer, heq, j, hj, hij⟩)

theorem inv_init : Inv (connectionsAutomaton target loads).init := by
  obtain ⟨hf, haway⟩ := away_connect (c := { loads }) rfl
  refine ⟨single_connect ⟨rfl, by simp⟩, ?_, ?_, fun op hop hk => absurd hk (haway op hop)⟩
  · exact hf.trans framed_nil.symm
  · exact accepted_nil

/-- **The connections are separate just as long as nothing is captured.** In a run
    whose header blocks are all accepted, the payloads decoded are throughout those
    that a fresh framer decodes of the body of each connection, in their order, and
    no frame decoded contains bytes of two connections, if and only if no read
    brings bytes of which those left of the connections before capture something. -/
theorem separate_iff (es : List Completion) (s : NtripDecoderClient × List Connection) :
    ((connectionsAutomaton target loads).Run (fun s e => Accepts s.1 e ∧ Separate s) es s ∧
        Separate s) ↔
      (connectionsAutomaton target loads).Run (fun s e => Accepts s.1 e ∧ ¬Mixes s e) es s :=
  Automaton.run_iff_within inv_init (fun _ h => h.separate)
    (fun _ _ _ h ha hm hs => inv_step h ha hm hs)
    fun _ _ _ h ha hm hs => not_separate_step h ha (not_not.1 hm) hs

/-- A connection that ends after the header of an empty frame, and one that
    starts with its checksum. -/
def seamRun : List Completion :=
  [⟨0, .ok, []⟩, ⟨0, .ok, []⟩, ⟨0, .ok, []⟩,
    ⟨0, .ok, ascii "HTTP/1.1 200 OK\r\n\r\n" ++ [0xD3, 0x00, 0x00]⟩, ⟨0, .failed, []⟩,
    ⟨0, .ok, []⟩, ⟨0, .ok, []⟩, ⟨0, .ok, []⟩, ⟨0, .ok, []⟩,
    ⟨0, .ok, ascii "HTTP/1.1 200 OK\r\n\r\n" ++ [0x47, 0xEA, 0x4B]⟩]

/-- The two halves are decoded as a frame. -/
theorem seamRun_mixes : ¬∀ (es : List Completion) (s : NtripDecoderClient × List Connection),
    (connectionsAutomaton {} none).Run (fun s e => Accepts s.1 e) es s → Separate s := by
  intro h
  obtain ⟨s, hs, hb⟩ : ∃ s, ((connectionsAutomaton {} none).restrict
      fun s e => Accepts s.1 e).exec seamRun = some s ∧
      bodies s.2 = [[0xD3, 0x00, 0x00], [0x47, 0xEA, 0x4B]] := ⟨_, rfl, rfl⟩
  have hframe : FrameAt (bodies s.2).flatten 0 := by
    rw [hb]
    exact ⟨rfl, by decide, by decide +kernel⟩
  have hsep := h _ _ (Automaton.run_of_restrict (Automaton.run_of_exec hs))
  -- Neither of the bodies is long enough for a frame.
  obtain ⟨older, b, newer, heq, j, -, -, hlen⟩ := hsep.own 0 (zero_mem_accepted hframe)
  have hmem : b ∈ bodies s.2 := heq ▸ List.mem_append_right _ List.mem_cons_self
  have hthree : ∀ b ∈ bodies s.2, b.length = 3 := by
    rw [hb]
    decide
  have := hthree b hmem
  omega

end RtcmBridge.NtripDecoderClient

import RtcmBridge.Nats2Ntrip.Balance
import RtcmBridge.Nats2Ntrip.Upload

/-!
# What the caster gets

A session together with its connection (`Uploading`): when the worker is in a call of the
connection, how it ends is no longer an event, but up to the caster.

The TCP connections of a session carry its messages in turn. Each of them has at most a
part of the request, or the request, which the caster has accepted, and then chunks
(`Carries`). Whatever part of this gets to the caster is read in one way only; what it reads
on the connections, one after the other, are the messages that the session has written, each
of them once, in their order (`casters_receive`).
-/

namespace RtcmBridge

/-- What there is of a word that is cut off has been cut off, too. -/
theorem CutOff.of_prefix {ι α : Type*} {text : ι → List α} {l l' : List α} (h : CutOff text l)
    (hl : l' <+: l) : CutOff text l' := by
  obtain ⟨m, rfl⟩ := hl
  rcases h with hnil | ⟨w, t, ht, hw⟩
  · exact .inl (List.append_eq_nil_iff.1 hnil).1
  · exact .inr ⟨w, m ++ t, by simp [ht], by rw [hw, List.append_assoc]⟩

namespace Nats2Ntrip

/-- The chunks of messages. -/
def chunksOf (ps : List Payload) : List Chunk := ps.map fun p => Chunk.of p.data

/-- The worker is connected. -/
def Pc.streams : Pc → Bool
  | .stream | .waiting | .writing _ => true
  | _ => false

/-- A session, and its connection to the caster. -/
structure Uploading where
  session : StreamSession
  connection : SourceConnection := {}

namespace Uploading

variable (options : Options) (source : NtripSource) (evpEncodeBlock : Bytes → Option Bytes)
  (hash : UInt64) (u : Uploading)

/-- What the threads do, and the caster. -/
inductive Event
  | arrive (data : Bytes)
  | stop
  | signal
  | worker (peer : Peer)
  deriving DecidableEq

/-- The call that the worker is in, if it is in one. -/
def call (peer : Peer) : NtripStatus × SourceConnection :=
  match u.session.pc with
  | .source => u.connection.ntripConnectionSource source evpEncodeBlock peer
  | .writing payload => u.connection.ntripConnectionWrite peer (some payload.data)
  | _ => (.ok, u.connection)

/-- One step of the session, with the connection if the worker is in a call of it. -/
def step (u : Uploading) : Event → Option Uploading
  | .arrive data => (u.session.step options (.arrive data)).map fun session => { u with session }
  | .stop => (u.session.step options .stop).map fun session => { u with session }
  | .signal => (u.session.step options .signal).map fun session => { u with session }
  | .worker peer =>
    let (status, connection) := u.call source evpEncodeBlock peer
    (u.session.step options (.worker (status = .ok))).map fun session => { session, connection }

/-- A session with its connection, from its `start` on. -/
def automaton : Automaton Uploading Event where
  init := { session := (StreamSession.automaton options hash).init }
  step := step options source evpEncodeBlock

variable {options source evpEncodeBlock hash u} {u' : Uploading} {s s' : StreamSession}

/-! ### The session -/

/-- A step is one of the session. -/
theorem session_step {e : Event} (h : u.step options source evpEncodeBlock e = some u') :
    ∃ d, u.session.step options d = some u'.session := by
  cases e with
  | arrive | worker =>
    obtain ⟨session, hs, rfl⟩ := Option.map_eq_some_iff.1 h
    exact ⟨_, hs⟩
  | stop =>
    cases h
    exact ⟨.stop, rfl⟩
  | signal =>
    cases h
    exact ⟨.signal, rfl⟩

/-- The session over its connections is a session. -/
theorem session_reachable (h : (automaton options source evpEncodeBlock hash).Reachable u) :
    (StreamSession.automaton options hash).Reachable u.session :=
  h.invariant (P := fun u => (StreamSession.automaton options hash).Reachable u.session)
    ⟨[], .init⟩ fun u e u' hu hstep => by
      obtain ⟨d, hd⟩ := session_step hstep
      exact hu.next hd

/-- Nothing is written, and no connection begins. -/
def Quiet (s s' : StreamSession) : Prop :=
  s'.written = s.written ∧ (s'.pc.streams = true → s.pc.streams = true)

theorem written_record (s : StreamSession) (pc : Pc) (act : Act) :
    ({ s with pc }.record act).written = s.written ++ act.asWrote.toList := by
  cases h : act.asWrote <;> simp [StreamSession.written, StreamSession.record, h]

theorem quiet_enqueue (options : Options) (s : StreamSession) (data : Bytes) :
    Quiet s (s.enqueue options data) := by
  refine ⟨(StreamSession.kinds_enqueue options s data).1, ?_⟩
  obtain ⟨k, qb, db, wrapped, total, lastLog, heq⟩ := StreamSession.enqueue_eq options s data
  rw [heq]
  exact id

/-- A step outside of the calls of the connection. -/
theorem quiet_of_move (h : StreamSession.Move options s s') (hsource : s.pc ≠ .source)
    (hwriting : ∀ p, s.pc ≠ .writing p) : Quiet s s' := by
  cases h with
  | arrive data => exact quiet_enqueue options s data
  | stream hpc | pop hpc => exact ⟨rfl, fun _ => by rw [hpc]; rfl⟩
  | connected hpc | sourceFailed hpc => exact absurd hpc hsource
  | wrote p hpc | writeFailed p hpc => exact absurd hpc (hwriting p)
  | clear =>
    refine ⟨(StreamSession.kinds_clear s).1, fun hst => ?_⟩
    cases hst
  | wait =>
    refine ⟨(written_record s .sleeping _).trans (List.append_nil _), fun hst => ?_⟩
    cases hst
  | ignore | stop => exact ⟨rfl, id⟩
  | exit | connect | leave | reset | recover | wake =>
    refine ⟨rfl, fun hst => ?_⟩
    cases hst

/-! ### The TCP connections -/

/-- What has been written to a TCP connection: a part of the request, or the request, which
    has been accepted, the messages `ps`, and what there is of one more. -/
def Carries (request : Bytes) (w : Wire) (ps : List Payload) : Prop :=
  (ps = [] ∧ w.written <+: request) ∨
    AcceptedResponse w.read ∧ ∃ tail, CutOff Chunk.text tail ∧
      w.written = request ++ ((chunksOf ps).flatMap Chunk.text ++ tail)

/-- The TCP connection of a worker that is connected, which has written the messages `ps`. -/
def Live (request : Bytes) (c : SourceConnection) (ps : List Payload) : Prop :=
  ∃ r closed, AcceptedResponse r ∧ c.On (request ++ (chunksOf ps).flatMap Chunk.text) r closed

/-- The TCP connections carry the messages written, those of `groups`, the newest first. -/
structure Inv (request : Bytes) (u : Uploading) (groups : List (List Payload)) : Prop where
  written : groups.reverse.flatten = u.session.written
  carries : List.Forall₂ (Carries request) u.connection.wires groups
  live : u.session.pc.streams = true → ∃ ps gs, groups = ps :: gs ∧ Live request u.connection ps

variable {request : Bytes} {groups : List (List Payload)} {peer : Peer}

theorem Inv.quiet (h : Inv request u groups) (hq : Quiet u.session s') :
    Inv request { u with session := s' } groups :=
  ⟨h.written.trans hq.1.symm, h.carries, fun hst => h.live (hq.2 hst)⟩

/-- A step of the worker calls the source, and takes its status. -/
theorem step_worker {status : NtripStatus} {connection : SourceConnection}
    (hcall : u.call source evpEncodeBlock peer = (status, connection)) :
    u.step options source evpEncodeBlock (.worker peer) =
      (u.session.step options (.worker (status = .ok))).map fun session =>
        { session, connection } := by
  rw [step, hcall]

theorem wires_of_on {c : SourceConnection} {written read : Bytes} {closed : List Wire}
    (h : c.On written read closed) : c.wires = ⟨written, read⟩ :: closed := by
  rw [SourceConnection.wires, h.socket, h.closed]
  rfl

/-- In `ntripConnection_Source`: the next TCP connection begins. -/
theorem inv_source (h : Inv (SourceConnection.sourceRequest source evpEncodeBlock) u groups)
    (hpc : u.session.pc = .source)
    (hstep : u.step options source evpEncodeBlock (.worker peer) = some u') :
    ∃ groups', Inv (SourceConnection.sourceRequest source evpEncodeBlock) u' groups' := by
  have hcall : u.call source evpEncodeBlock peer =
      u.connection.ntripConnectionSource source evpEncodeBlock peer := by rw [call, hpc]
  rcases SourceConnection.ntripConnectionSource_cases source evpEncodeBlock peer u.connection with
    ⟨-, r, c', hr, hon, heq⟩ | ⟨-, c', hc', heq⟩
  · -- A new connection, which carries the request so far.
    rw [step_worker (hcall.trans heq)] at hstep
    simp only [StreamSession.step, StreamSession.workerStep, hpc] at hstep
    cases hstep
    refine ⟨[] :: groups, ?_, ?_, fun _ => ⟨[], groups, rfl, r, u.connection.wires, hr, ?_⟩⟩
    · rw [List.reverse_cons, List.flatten_append, h.written]
      exact (written_record u.session .stream .connected).symm
    · rw [wires_of_on hon]
      exact .cons (.inl ⟨rfl, List.prefix_rfl⟩) h.carries
    · simpa [chunksOf] using hon
  · rw [step_worker (hcall.trans heq)] at hstep
    simp only [StreamSession.step, StreamSession.workerStep, hpc] at hstep
    cases hstep
    have hwritten : groups.reverse.flatten =
        ({ u.session with pc := .caught }.record .sourceFailed).written := by
      rw [h.written, written_record]
      exact (List.append_nil _).symm
    -- The call has thrown before the connection was made, or with a part of the request sent.
    rcases hc' with hwires | ⟨sent, r, hsent, hon⟩
    · refine ⟨groups, hwritten, by rw [hwires]; exact h.carries, fun hst => ?_⟩
      cases hst
    · refine ⟨[] :: groups, by simpa using hwritten, ?_, fun hst => ?_⟩
      · rw [wires_of_on hon]
        exact .cons (.inl ⟨rfl, hsent⟩) h.carries
      · cases hst

/-- In `ntripConnection_Write`: there is one more chunk, or the beginning of one. -/
theorem inv_writing (h : Inv request u groups) {p : Payload} (hpc : u.session.pc = .writing p)
    (hne : p.data ≠ []) (hstep : u.step options source evpEncodeBlock (.worker peer) = some u') :
    ∃ groups', Inv request u' groups' := by
  have hcall : u.call source evpEncodeBlock peer =
      u.connection.ntripConnectionWrite peer (some p.data) := by rw [call, hpc]
  obtain ⟨ps, gs, rfl, r, closed, hr, hon⟩ := h.live (by rw [hpc]; rfl)
  obtain ⟨c', hon', heq⟩ := SourceConnection.ntripConnectionWrite_cases peer hon hne
  have hcarries := h.carries
  rw [wires_of_on hon, List.forall₂_cons] at hcarries
  rw [step_worker (hcall.trans heq)] at hstep
  simp only [StreamSession.step, StreamSession.workerStep, hpc] at hstep
  by_cases htakes : peer.takes < (encodeChunk p.data).length
  · -- The write fails: part of the chunk has been taken, and the connection is given up.
    simp only [htakes, if_true] at hstep
    cases hstep
    refine ⟨ps :: gs, ?_, ?_, fun hst => ?_⟩
    · rw [h.written, written_record]
      exact (List.append_nil _).symm
    · have hcut : CutOff Chunk.text ((encodeChunk p.data).take peer.takes) :=
        .inr ⟨Chunk.of p.data, (encodeChunk p.data).drop peer.takes, by simpa using htakes,
          (List.take_append_drop ..).symm⟩
      rw [wires_of_on hon']
      exact .cons (.inr ⟨hr, _, hcut, List.append_assoc ..⟩) hcarries.2
    · cases hst
  · -- The whole chunk is on the connection.
    simp only [htakes, if_false] at hstep
    cases hstep
    rw [List.take_of_length_le (Nat.le_of_not_lt htakes), List.append_assoc] at hon'
    have hchunks : (chunksOf (ps ++ [p])).flatMap Chunk.text =
        (chunksOf ps).flatMap Chunk.text ++ encodeChunk p.data := by
      simp [chunksOf, List.flatMap_append, Chunk.text_of]
    rw [← hchunks] at hon'
    refine ⟨(ps ++ [p]) :: gs, ?_, ?_, fun _ => ⟨ps ++ [p], gs, rfl, r, closed, hr, hon'⟩⟩
    · rw [List.reverse_cons, List.flatten_append, List.flatten_singleton, ← List.append_assoc]
      refine (congrArg (· ++ [p]) ?_).trans (written_record u.session .stream (.wrote p)).symm
      rw [← h.written, List.reverse_cons, List.flatten_append, List.flatten_singleton]
    · rw [wires_of_on hon']
      exact .cons (.inr ⟨hr, [], .inl rfl, by rw [List.append_nil]⟩) hcarries.2

/-- A step keeps every connection with the messages written to it. -/
theorem inv_step (hr : (StreamSession.automaton options hash).Reachable u.session)
    (h : Inv (SourceConnection.sourceRequest source evpEncodeBlock) u groups) {e : Event}
    (hstep : u.step options source evpEncodeBlock e = some u') :
    ∃ groups', Inv (SourceConnection.sourceRequest source evpEncodeBlock) u' groups' := by
  cases e with
  | arrive data =>
    obtain ⟨session, hs, rfl⟩ := Option.map_eq_some_iff.1 hstep
    simp only [StreamSession.step, StreamSession.onNatsMsg] at hs
    split_ifs at hs
    · cases hs
      exact ⟨groups, h.quiet (quiet_enqueue options u.session data)⟩
    · cases hs
      exact ⟨groups, h⟩
  | stop | signal =>
    cases hstep
    exact ⟨groups, h.quiet ⟨rfl, id⟩⟩
  | worker peer =>
    -- Elsewhere, the worker does not use the connection.
    have hquiet (hsource : u.session.pc ≠ .source) (hwriting : ∀ p, u.session.pc ≠ .writing p)
        (hcall : u.call source evpEncodeBlock peer = (.ok, u.connection)) :
        ∃ groups', Inv (SourceConnection.sourceRequest source evpEncodeBlock) u' groups' := by
      rw [step_worker hcall] at hstep
      obtain ⟨session, hs, rfl⟩ := Option.map_eq_some_iff.1 hstep
      exact ⟨groups, h.quiet (quiet_of_move (StreamSession.move_of_workerStep hs) hsource hwriting)⟩
    cases hpc : u.session.pc with
    | source => exact inv_source h hpc hstep
    | writing p =>
      -- What is written has arrived as a message, so it is not empty.
      have hp : p ∈ u.session.inFlight := by
        rw [StreamSession.inFlight, hpc]
        exact List.mem_singleton_self p
      have hsize := StreamSession.sized_of_reachable hr p (List.mem_append_right _ hp)
      exact inv_writing h hpc (List.ne_nil_of_length_pos hsize.1) hstep
    | _ => exact hquiet (by simp [hpc]) (by simp [hpc]) (by rw [call, hpc])

/-- So there are such groups in every reachable state. -/
theorem exists_inv (h : (automaton options source evpEncodeBlock hash).Reachable u) :
    ∃ groups, Inv (SourceConnection.sourceRequest source evpEncodeBlock) u groups := by
  suffices hinv : (StreamSession.automaton options hash).Reachable u.session ∧
      ∃ groups, Inv (SourceConnection.sourceRequest source evpEncodeBlock) u groups from hinv.2
  refine h.invariant (P := fun u => (StreamSession.automaton options hash).Reachable u.session ∧
    ∃ groups, Inv (SourceConnection.sourceRequest source evpEncodeBlock) u groups)
    ⟨⟨[], .init⟩, [], rfl, .nil, fun hst => ?_⟩ fun u e u' ⟨hr, groups, hinv⟩ hstep => ?_
  · cases hst
  · obtain ⟨d, hd⟩ := session_step hstep
    exact ⟨hr.next hd, inv_step hr hinv hstep⟩

/-! ### The caster -/

/-- Whatever part of what was written to a TCP connection gets to the caster, it is a part of
    the request, or the request and a body, which is read in one way only: as the first of
    the messages `ps`, and the beginning of a chunk. All that was written is read as all of them. -/
def Receives (request : Bytes) (w : Wire) (ps : List Payload) : Prop :=
  ∀ received, received <+: w.written →
    (received <+: request ∧ (received = w.written → ps = [])) ∨
    AcceptedResponse w.read ∧ ∃ (body : Bytes) (k : ℕ) (cs : List Chunk) (tail : Bytes),
      received = request ++ body ∧ k ≤ ps.length ∧ (received = w.written → k = ps.length) ∧
      cs.map Chunk.data = (ps.map Payload.data).take k ∧
      ∀ cs' tail', Parses Chunk.text body cs' tail' ↔ cs' = cs ∧ tail' = tail

/-- A body is read in one way only. -/
theorem exists_unique_parses {ps : List Payload} {body tail : Bytes}
    (htail : CutOff Chunk.text tail) (hbody : body <+: (chunksOf ps).flatMap Chunk.text ++ tail) :
    ∃ (k : ℕ) (cs : List Chunk) (tail' : Bytes), k ≤ ps.length ∧
      (body = (chunksOf ps).flatMap Chunk.text ++ tail → k = ps.length) ∧
      cs.map Chunk.data = (ps.map Payload.data).take k ∧
      ∀ cs' tail'', Parses Chunk.text body cs' tail'' ↔ cs' = cs ∧ tail'' = tail' := by
  have hdata (k : ℕ) : ((chunksOf ps).take k).map Chunk.data = (ps.map Payload.data).take k := by
    rw [List.map_take, chunksOf, List.map_map]
    rfl
  have hunique {cs : List Chunk} {tail : Bytes} (hp : Parses Chunk.text body cs tail)
      (cs' : List Chunk) (tail' : Bytes) :
      Parses Chunk.text body cs' tail' ↔ cs' = cs ∧ tail' = tail := by
    refine ⟨Chunk.prefixFree_text.unique hp, ?_⟩
    rintro ⟨rfl, rfl⟩
    exact hp
  have hlength : (chunksOf ps).length = ps.length := List.length_map _
  by_cases hfull : (chunksOf ps).flatMap Chunk.text <+: body
  -- All the messages are there.
  · obtain ⟨t, rfl⟩ := hfull
    have hcut := htail.of_prefix ((List.prefix_append_right_inj _).1 hbody)
    refine ⟨ps.length, _, t, le_rfl, fun _ => rfl, hdata ps.length, hunique ⟨?_, hcut⟩⟩
    rw [List.take_of_length_le hlength.le]
  -- One of them, or more, has not been written in full.
  · have hor := List.prefix_or_prefix_of_prefix hbody (List.prefix_append ..)
    obtain ⟨k, hk, t, hparses, -⟩ := exists_parses (hor.resolve_right hfull)
    refine ⟨k, _, t, hlength ▸ hk, fun hall => ?_, hdata k, hunique hparses⟩
    exact absurd ⟨tail, hall.symm⟩ hfull

/-- What a connection carries, its caster receives. -/
theorem receives_of_carries {w : Wire} {ps : List Payload} (h : Carries request w ps) :
    Receives request w ps := by
  intro received hreceived
  rcases h with ⟨rfl, hw⟩ | ⟨hr, tail, htail, hw⟩
  · exact .inl ⟨hreceived.trans hw, fun _ => rfl⟩
  rw [hw] at hreceived ⊢
  by_cases hrequest : request <+: received
  · obtain ⟨body, rfl⟩ := hrequest
    obtain ⟨k, cs, tail', hk, hall, hdata, hunique⟩ :=
      exists_unique_parses htail ((List.prefix_append_right_inj _).1 hreceived)
    exact .inr ⟨hr, body, k, cs, tail', rfl, hk, fun heq => hall (List.append_cancel_left heq),
      hdata, hunique⟩
  · refine .inl ⟨(List.prefix_or_prefix_of_prefix hreceived
      (List.prefix_append ..)).resolve_right hrequest, fun hall => ?_⟩
    exact absurd (hall ▸ List.prefix_append ..) hrequest

/-- **What the casters read.** On the TCP connections of a session, in their order, exactly
    the messages that it has written are read, each of them once and in the order of their
    arrival, whatever has been cut off, and wherever. On a connection that has not been
    accepted there is at most the request. -/
theorem casters_receive (h : (automaton options source evpEncodeBlock hash).Reachable u) :
    ∃ groups : List (List Payload), groups.flatten = u.session.written ∧
      (u.session.written.map Payload.number).Pairwise (· < ·) ∧
      List.Forall₂ (Receives (SourceConnection.sourceRequest source evpEncodeBlock))
        u.connection.wires.reverse groups := by
  obtain ⟨groups, hinv⟩ := exists_inv h
  obtain ⟨gone, hordered⟩ := StreamSession.ordered_of_reachable (session_reachable h)
  refine ⟨groups.reverse, hinv.written, hordered.increasing, ?_⟩
  exact (List.forall₂_reverse_iff.2 hinv.carries).imp fun _ _ => receives_of_carries

/-- A caster that takes everything, and sends its response in two pieces. -/
def accepting : Peer := { takes := 1000, sends := [ascii "ICY 200 OK\r\n\r", [10]] }

/-- The second of three messages breaks off, and the third one is written on a second
    connection. -/
def brokenRun : List Event :=
  [.worker {}, .worker accepting, .worker {}, .arrive [0xD3], .worker {}, .worker accepting,
    .arrive [1, 2], .worker {}, .worker {}, .worker { takes := 3 }] ++
  List.replicate 5 (.worker {}) ++
  [.worker accepting, .worker {}, .arrive [0], .worker {}, .worker accepting]

theorem casters_receive_brokenRun : ∃ u groups,
    (automaton {} {} encodeBlock 0).exec brokenRun = some u ∧
      u.session.written = [⟨0, [0xD3]⟩, ⟨2, [0]⟩] ∧ u.connection.wires.length = 2 ∧
      groups.flatten = u.session.written ∧
      List.Forall₂ (Receives (SourceConnection.sourceRequest {} encodeBlock))
        u.connection.wires.reverse groups := by
  have hrun : ((automaton {} {} encodeBlock 0).exec brokenRun).map
      (fun u => (u.session.written, u.connection.wires.length)) =
        some ([⟨0, [0xD3]⟩, ⟨2, [0]⟩], 2) := by decide +kernel
  obtain ⟨u, hu, heq⟩ := Option.map_eq_some_iff.1 hrun
  obtain ⟨hwritten, hwires⟩ := Prod.mk.inj heq
  obtain ⟨groups, hgroups, -, hreceives⟩ := casters_receive (Automaton.reachable_of_exec hu)
  exact ⟨u, groups, hu, hwritten, hwires, hgroups, hreceives⟩

end Uploading

end Nats2Ntrip

end RtcmBridge

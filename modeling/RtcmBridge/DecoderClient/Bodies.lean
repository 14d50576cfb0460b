import RtcmBridge.DecoderClient.Connections

/-!
# What `rtcm_decoder_ntrip` has received

In a run without a rejected response, the framer has received the bodies of all connections,
one after the other (`framer_eq_bodies`), whatever is decoded of them.
-/

namespace RtcmBridge.NtripDecoderClient

open Asio RtcmStreamFramer

/-- The invariant of the client while no response is rejected. -/
structure Receives (s : NtripDecoderClient × List Connection) : Prop where
  single : Single s.1
  framer : s.1.framer = framed (bodies s.2).flatten
  newest : ∀ op ∈ s.1.io.pending, op.kind = .write ∨ op.kind = .read →
    ∃ k ks, s.2 = k :: ks ∧ Fed (bodies ks).flatten s.1 k.received ∧ Accepted k.received

variable {target : NtripDecoderTarget} {loads : Option ℕ} {c c' : NtripDecoderClient}
  {ks : List Connection} {k : Connection} {e : Completion} {data : Bytes}

/-- Nothing is received. -/
theorem Receives.away (h : Receives (c, ks)) (hsingle : Single c') (hf : c'.framer = c.framer)
    (haway : Away c') : Receives (c', ks) :=
  ⟨hsingle, hf.trans h.framer, fun op hop hk => absurd hk (haway op hop)⟩

/-- The newest connection has received what the client has been fed with. -/
theorem receives_of_fed (hsingle : Single c) (h : Fed (bodies ks).flatten c k.received)
    (ha : Accepted k.received) : Receives (c, k :: ks) := by
  refine ⟨hsingle, ?_, fun _ _ _ => ⟨k, ks, rfl, h, ha⟩⟩
  rw [bodies_cons, List.flatten_append, List.flatten_singleton]
  exact framer_of_fed h

theorem receives_init : Receives (connectionsAutomaton target loads).init := by
  obtain ⟨hf, haway⟩ := away_connect (c := { loads }) rfl
  exact ⟨single_connect ⟨rfl, by simp⟩, hf.trans framed_nil.symm,
    fun op hop hk => absurd hk (haway op hop)⟩

/-- A step that accepts what it reads feeds the framer the next part of the body. -/
theorem receives_step {s s' : NtripDecoderClient × List Connection} (h : Receives s)
    (ha : Accepts s.1 e) (hs : (connectionsAutomaton target loads).step s e = some s') :
    Receives s' := by
  obtain ⟨c, ks⟩ := s
  obtain ⟨c', ks'⟩ := s'
  obtain ⟨hstep, rfl⟩ := Automaton.step_track.1 hs
  have hsingle := single_step h.single (not_rejects_of_accepts ha) hstep
  obtain ⟨op, -, hi, -, io, hio, rfl⟩ := step_cases h.single hstep
  dsimp only at hi hsingle ⊢
  have hmem := List.mem_of_getElem? hi
  by_cases hk : e.ec = .ok → op.kind = .resolve ∨ op.kind = .wait
  · -- Nothing is read, and no connection is made or used.
    rw [recordConnections_of_away hi fun hec => (hk hec).imp_right .inr]
    obtain ⟨hf, haway⟩ := away_handler (c := { c with io }) hio hk
    exact h.away hsingle hf haway
  · push Not at hk
    obtain ⟨hec, hresolve, hwait⟩ := hk
    cases hkind : op.kind with
    | resolve => exact absurd hkind hresolve
    | wait => exact absurd hkind hwait
    | connect =>
      rw [hkind] at hsingle
      rw [recordConnections_of_connect hi hkind hec]
      rw [hec] at hsingle ⊢
      -- A new connection has received nothing, so it has no body yet.
      have hnone : find headersEndMark [] = none := rfl
      exact receives_of_fed hsingle (.inl ⟨hnone, rfl, rfl, h.framer⟩)
        fun k hk => absurd hk (by simp [hnone])
    | write =>
      rw [hkind] at hsingle
      rw [recordConnections_of_away hi fun _ => .inr (.inl hkind)]
      obtain ⟨k, ks, rfl, hfed, hacc⟩ := h.newest op hmem (.inl hkind)
      rw [hec] at hsingle ⊢
      exact receives_of_fed hsingle (fed_readLoop (c := { c with io }) hfed) hacc
    | read =>
      rw [hkind] at hsingle
      obtain ⟨k, ks, rfl, hfed, hacc⟩ := h.newest op hmem (.inr hkind)
      rw [recordConnections_of_read hi hkind hec]
      rw [hec] at hsingle ⊢
      have hacc : Accepted (k.received ++ e.data) :=
        accepted_read hfed hacc (ha op hi hkind hec)
      exact receives_of_fed hsingle (fed_readLoop (fed_onBytes (c := { c with io }) hfed hacc)) hacc

/-- The framer has received the bodies of all connections. -/
theorem framer_eq_bodies {es : List Completion} {s : NtripDecoderClient × List Connection}
    (h : (connectionsAutomaton target loads).Run (fun s e => Accepts s.1 e) es s) :
    s.1.framer = framed (bodies s.2).flatten :=
  (h.invariant receives_init fun _ _ _ hr ha hs => receives_step hr ha hs).framer

end RtcmBridge.NtripDecoderClient

import RtcmBridge.DecoderNats
import RtcmBridge.NtripConnection.Transfer
import RtcmBridge.Relay

/-!
# What `ntrip2nats` publishes

A connection whose reads fit into its buffer (`reader`) publishes what it forwards, piece by
piece (`messages_of_reader`): messages that are not empty, and whose length is an `int`
(`pieces_of_reader`). Together they are the bodies of the responses (`flatten_pieces`).
-/

namespace RtcmBridge

open Asio Ntrip2Nats

namespace NtripConnection

/-- A read is no longer than the buffer. -/
def Fits (options : Options) (_ : NtripConnection) (e : Completion) : Prop :=
  (e.data.length : ℤ) ≤ options.readBufferBytes.toInt

instance (options : Options) (c : NtripConnection) (e : Completion) :
    Decidable (Fits options c e) :=
  inferInstanceAs (Decidable (_ ≤ _))

/-- The connection, with reads into its buffer. -/
def reader (options : Options) (source : NtripSource) (evpEncodeBlock : Bytes → Option Bytes) :
    Automaton NtripConnection Completion :=
  (automaton options source evpEncodeBlock).restrict (Fits options)

/-- What has been published. -/
def messages (c : NtripConnection) : List Bytes := c.session.published.map fun p => p.msg.data

/-- What has been forwarded, on all connections, the oldest first. -/
def pieces (c : NtripConnection) : List Bytes := c.transfers.reverse.flatMap Transfer.forwarded

/-- The bodies of the responses, on all connections. -/
def body (c : NtripConnection) : Bytes := c.transfers.reverse.flatMap fun t => bodyOf t.received

variable {options : Options} {source : NtripSource} {evpEncodeBlock : Bytes → Option Bytes}
  {c c' : NtripConnection} {e : Completion}

theorem publish_injective : Function.Injective Ntrip2Nats.StreamSession.publish :=
  fun _ _ h => (Publish.mk.inj h).1

/-- Nothing is forwarded but by a read. -/
theorem session_handler {kind : Kind} {ec : Ec} (h : kind = .read → ec ≠ .ok) (data : Bytes) :
    (handler options source evpEncodeBlock c kind ec data).session = c.session := by
  cases ec with
  | operationAborted => rw [handler_aborted]
  | failed => cases kind <;> rfl
  | ok =>
    cases kind with
    | read => exact absurd rfl (h rfl)
    | connect =>
      change (c.establish.sendRequest options source evpEncodeBlock).session = c.session
      rw [sendRequest]
      split_ifs <;> rfl
    | _ => rfl

/-- What a read forwards is not empty. -/
theorem published_handleStreamBytes (options : Options) (c : NtripConnection) (data : Bytes) :
    ∃ pieces : List Bytes, (∀ piece ∈ pieces, piece ≠ []) ∧
      (c.handleStreamBytes options data).session.published =
        c.session.published ++ pieces.map Ntrip2Nats.StreamSession.publish := by
  have hnone : ∃ pieces : List Bytes, (∀ piece ∈ pieces, piece ≠ []) ∧ c.session.published =
      c.session.published ++ pieces.map Ntrip2Nats.StreamSession.publish :=
    ⟨[], by simp, (List.append_nil _).symm⟩
  rw [handleStreamBytes]
  split_ifs with hlen hcomplete
  · exact hnone
  · refine ⟨[data], fun piece hp hnil => hlen ?_,
      Ntrip2Nats.StreamSession.published_handleStream ..⟩
    rw [← List.mem_singleton.1 hp, hnil, List.length_nil]
  · cases hfind : find headersEndMark (c.responseBuffer ++ data) with
    | none => simpa only [hfind] using hnone
    | some k =>
      simp only [hfind]
      split_ifs with hok hrest
      · exact hnone
      · refine ⟨[(c.responseBuffer ++ data).drop (k + 4)], fun piece hp hnil => ?_,
          Ntrip2Nats.StreamSession.published_handleStream ..⟩
        rw [List.mem_singleton.1 hp, List.drop_eq_nil_iff] at hnil
        omega
      · exact hnone

/-- What a step forwards is not empty, and no longer than what it has read. -/
theorem published_step (hinv : Inv c)
    (h : (automaton options source evpEncodeBlock).step c e = some c') :
    ∃ pieces : List Bytes, (∀ piece ∈ pieces, piece ≠ [] ∧ piece.length ≤ e.data.length) ∧
      c'.session.published =
        c.session.published ++ pieces.map Ntrip2Nats.StreamSession.publish := by
  obtain ⟨⟨op, io⟩, hcomp, rfl⟩ := Option.map_eq_some_iff.1 h
  dsimp only
  by_cases hread : op.kind = .read ∧ e.ec = .ok
  · -- A read publishes what it forwards of its bytes, and nothing else does.
    obtain ⟨hkind, hec⟩ := hread
    obtain ⟨-, hadm, -⟩ := Io.complete_eq_some_iff.1 hcomp
    obtain ⟨as, bs, hbefore, -⟩ := Io.liveOps_complete hcomp
    rw [hec] at hadm
    rw [if_pos (Op.live_of_admits_ok hadm)] at hbefore
    have hready := hinv.ready op (by rw [hbefore]; simp)
    rw [hkind] at hready
    obtain ⟨t, ts, ht, hr⟩ := hready
    obtain ⟨pieces, hread⟩ := read_cases options (c := { c with io }) hr ht e.data
    obtain ⟨pieces', hne, hpub⟩ := published_handleStreamBytes options
      (NtripConnection.receive { c with io } e.data) e.data
    have heq : pieces'.map Ntrip2Nats.StreamSession.publish =
        pieces.map Ntrip2Nats.StreamSession.publish := by
      rw [hread.session, Ntrip2Nats.StreamSession.published_foldl] at hpub
      exact (List.append_cancel_left hpub).symm
    rw [List.map_injective_iff.2 publish_injective heq] at hne hpub
    refine ⟨pieces, fun piece hp => ⟨hne piece hp, hread.length_le piece hp⟩, ?_⟩
    rw [hkind, hec]
    exact hpub
  · refine ⟨[], by simp, ?_⟩
    rw [session_handler fun hkind hec => hread ⟨hkind, hec⟩]
    exact (List.append_nil _).symm

/-- A reader is a connection whose reads fit its buffer. -/
theorem reachable_of_reader (h : (reader options source evpEncodeBlock).Reachable c) :
    (automaton options source evpEncodeBlock).Reachable c :=
  let ⟨_, hrun⟩ := h
  (Automaton.run_of_restrict hrun).reachable

theorem step_of_reader (h : (reader options source evpEncodeBlock).step c e = some c') :
    Fits options c e ∧ (automaton options source evpEncodeBlock).step c e = some c' :=
  Option.ite_none_right_eq_some.1 h

/-- All that is forwarded is published, in messages that are not empty, and whose length is
    an `int`. -/
theorem pieces_of_reader (h : (reader options source evpEncodeBlock).Reachable c) :
    c.session.published = c.pieces.map Ntrip2Nats.StreamSession.publish ∧
      ∀ piece ∈ c.pieces, piece ≠ [] ∧ piece.length < 2 ^ 31 := by
  have hpub := (inv_of_reachable options (reachable_of_reader h)).recorded.published
  suffices hsized : ∃ pieces : List Bytes, (∀ piece ∈ pieces, piece ≠ [] ∧ piece.length < 2 ^ 31) ∧
      c.session.published = pieces.map Ntrip2Nats.StreamSession.publish by
    obtain ⟨ps, hps, heq⟩ := hsized
    refine ⟨hpub, ?_⟩
    rw [pieces, List.map_injective_iff.2 publish_injective (hpub.symm.trans heq)]
    exact hps
  obtain ⟨es, hrun⟩ := h
  induction hrun with
  | init => exact ⟨[], by simp, rfl⟩
  | @step es c c' e hrun _ hstep ih =>
    have hr := reachable_of_reader hrun.reachable
    obtain ⟨ps, hps, heq⟩ := ih (inv_of_reachable options hr).recorded.published
    obtain ⟨hfits, hstep⟩ := step_of_reader hstep
    obtain ⟨more, hmore, heq'⟩ := published_step (inv_of_reachable options hr) hstep
    refine ⟨ps ++ more, fun piece hp => ?_, by rw [heq', heq, List.map_append]⟩
    rcases List.mem_append.1 hp with hp | hp
    · exact hps piece hp
    · have h₁ : (e.data.length : ℤ) ≤ options.readBufferBytes.toInt := hfits
      have h₂ := Int32.toInt_lt options.readBufferBytes
      have h₃ := (hmore piece hp).2
      exact ⟨(hmore piece hp).1, by omega⟩

/-- The messages are what is forwarded. -/
theorem messages_of_reader (h : (reader options source evpEncodeBlock).Reachable c) :
    c.messages = c.pieces := by
  obtain ⟨hpub, hsized⟩ := pieces_of_reader h
  rw [messages, hpub, List.map_map, List.map_congr_left fun piece hp => ?_, List.map_id]
  rw [Function.comp_apply, msg_publish (hsized piece hp).2]
  rfl

/-- What has been forwarded is only ever added to. -/
theorem grows_messages : Relay.Grows (reader options source evpEncodeBlock) messages where
  init := rfl
  step {c e c'} hr h := by
    obtain ⟨more, -, heq⟩ := published_step (inv_of_reachable options (reachable_of_reader hr))
      (step_of_reader h).2
    rw [messages, messages, heq, List.map_append]
    exact List.prefix_append ..

/-- What is forwarded are the bodies. -/
theorem flatten_pieces (h : (reader options source evpEncodeBlock).Reachable c) :
    c.pieces.flatten = c.body := by
  have hsound := (inv_of_reachable options (reachable_of_reader h)).recorded.sound
  rw [pieces, List.flatMap_def, List.flatten_flatten, List.map_map, body, List.flatMap_def]
  exact congrArg List.flatten (List.map_congr_left fun t ht => hsound t (List.mem_reverse.1 ht))

end NtripConnection

end RtcmBridge

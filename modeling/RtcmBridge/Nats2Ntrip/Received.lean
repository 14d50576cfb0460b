import RtcmBridge.Nats2Ntrip.Wires

/-!
# What `nats2ntrip` uploads of what it receives

What a session has written, is writing and has queued is a part of what it has received, in
its order (`uploads_sublist`), and all of it if nothing has been lost on the way
(`uploads_eq`). It has received what has been delivered to it and is not empty
(`received_arrive`, `received_own`).
-/

namespace RtcmBridge

namespace Nats2Ntrip

namespace StreamSession

variable {options : Options} {hash : UInt64} {s s' : StreamSession}

/-- A message that is enqueued is received, whatever is dropped. -/
theorem received_enqueue (s : StreamSession) (data : Bytes) :
    (s.enqueue options data).received = s.received ++ [s.payload data] := by
  obtain ⟨k, qb, db, wrapped, total, lastLog, heq⟩ := enqueue_eq options s data
  rw [heq, received, List.filterMap_append, List.filterMap_append, filterMap_map_none fun _ => rfl]
  exact List.append_nil _

/-- The worker receives nothing. -/
theorem received_workerStep {ok : Bool} (h : s.workerStep options ok = some s') :
    s'.received = s.received := by
  -- What the worker logs is never an arrival.
  have hrecord (s : StreamSession) (pc : Pc) {act : Act} (hact : act.asEnqueued = none) :
      ({ s with pc }.record act).received = s.received := by
    rw [received, record, List.filterMap_append]
    simp [hact, received]
  rw [workerStep] at h
  cases hpc : s.pc with
  | source | writing p =>
    cases ok <;> simp only [hpc] at h <;> cases h <;> exact hrecord s _ rfl
  | waiting =>
    cases hst : s.stopping <;> simp only [hpc, hst] at h
    · cases hq : s.queue <;> simp only [hq] at h <;> cases h
      rfl
    · cases h
      rfl
  | clearing =>
    simp only [hpc] at h
    cases h
    rw [hrecord _ _ rfl]
    obtain ⟨queuedBytes, droppedBytes, heq⟩ := clearQueueLocked_eq s
    rw [heq, received, List.filterMap_append, filterMap_map_none fun _ => rfl]
    exact List.append_nil _
  | backoff =>
    simp only [hpc] at h
    cases h
    exact hrecord s _ rfl
  | exited => simp [hpc] at h
  | _ =>
    simp only [hpc] at h
    cases h
    rfl

/-- The messages in the order of their arrival. -/
def Before (p q : Payload) : Prop := p.number < q.number

instance : Std.Antisymm Before where
  antisymm _ _ h₁ h₂ := absurd (Nat.lt_trans h₁ h₂) (Nat.lt_irrefl _)

theorem Ordered.pairwise_gone {gone : List Payload} (h : Ordered s gone) :
    gone.Pairwise Before := by
  have hlt : (s.received.map Payload.number).Pairwise (· < ·) := h.numbers ▸ List.pairwise_lt_range
  rw [h.split, List.map_append] at hlt
  have hgone := List.pairwise_map.1 (List.pairwise_append.1 hlt).1
  exact hgone

/-- What has been taken off the queue is in the order of arrival. -/
theorem Ordered.pairwise_popped {gone : List Payload} (h : Ordered s gone) :
    (s.written ++ s.inFlight).Pairwise Before := by
  have hwritten := List.pairwise_map.1 h.increasing
  refine List.pairwise_append.2 ⟨hwritten, ?_, fun w hw p hp => h.below p hp w hw⟩
  rw [inFlight]
  cases s.pc <;> simp [Pc.inFlight]

/-- What is written, being written and queued is a part of what has been received. -/
theorem uploads_sublist (h : (automaton options hash).Reachable s) :
    (s.written ++ s.inFlight ++ s.queue).Sublist s.received := by
  obtain ⟨gone, ho⟩ := ordered_of_reachable h
  rw [ho.split]
  refine List.Sublist.append ?_ (List.Sublist.refl s.queue)
  refine List.sublist_of_subperm_of_pairwise ?_ ho.pairwise_popped ho.pairwise_gone
  refine ho.gone.subperm_left.2 (List.Sublist.subperm ?_)
  simp only [List.append_assoc]
  refine List.Sublist.append (List.Sublist.refl s.written) ?_
  simp only [← List.append_assoc]
  exact List.sublist_append_right ..

/-- It is all of it, if nothing has been trimmed or discarded, and no write has failed. -/
theorem uploads_eq (h : (automaton options hash).Reachable s) (htrimmed : s.trimmed = [])
    (hdiscarded : s.discarded = []) (hfailed : s.failed = []) :
    s.written ++ s.inFlight ++ s.queue = s.received := by
  obtain ⟨gone, ho⟩ := ordered_of_reachable h
  have hperm := ho.gone
  rw [htrimmed, hdiscarded, hfailed] at hperm
  simp only [List.append_nil] at hperm
  rw [ho.split, hperm.eq_of_pairwise' ho.pairwise_gone ho.pairwise_popped]

end StreamSession

namespace Uploading

variable {options : Options} {source : NtripSource} {evpEncodeBlock : Bytes → Option Bytes}
  {u u' : Uploading}

/-- The steps of the process, which are no arrivals. -/
def own : Event → Bool
  | .arrive _ => false
  | _ => true

/-- An arrival adds its message, if that is not empty. -/
theorem received_arrive {data : Bytes}
    (h : u.step options source evpEncodeBlock (.arrive data) = some u') :
    u'.session.received.map Payload.data =
      u.session.received.map Payload.data ++ [data].filter (· ≠ []) := by
  obtain ⟨session, hs, rfl⟩ := Option.map_eq_some_iff.1 h
  simp only [StreamSession.step, StreamSession.onNatsMsg] at hs
  split_ifs at hs with hlen hpos
  · cases hs
    rw [StreamSession.received_enqueue, List.map_append, List.filter_singleton]
    simp [List.ne_nil_of_length_pos hpos, StreamSession.payload]
  · cases hs
    simp [List.length_eq_zero_iff.1 (Nat.eq_zero_of_not_pos hpos)]

/-- No other step receives anything. -/
theorem received_own {d : Event} (hd : own d = true)
    (h : u.step options source evpEncodeBlock d = some u') :
    u'.session.received = u.session.received := by
  cases d with
  | arrive data => cases hd
  | stop | signal =>
    cases h
    rfl
  | worker peer =>
    obtain ⟨session, hs, rfl⟩ := Option.map_eq_some_iff.1 h
    exact StreamSession.received_workerStep hs

end Uploading

end Nats2Ntrip

end RtcmBridge

import RtcmBridge.Nats2Ntrip.Queue
import RtcmBridge.Trace

/-!
# Order and freshness of the uploads

The messages received are split by the queue: those gone from it, and those in
it, which are the latest. Whatever is written comes from the front of the queue,
so that the numbers written increase (`Ordered`).

After a failure the queue is cleared before the next connection, so that what is
in the queue, or on its way to the caster, was enqueued after the last clear
(`Renewed`).
-/

namespace RtcmBridge.Nats2Ntrip

open Trace

namespace Act

/-! The message of an entry of some kind. -/

/-- The message that has been enqueued. -/
def asEnqueued : Act → Option Payload
  | enqueued p => some p
  | _ => none

/-- The message that has been written. -/
def asWrote : Act → Option Payload
  | wrote p => some p
  | _ => none

/-- The message that has been trimmed. -/
def asTrimmed : Act → Option Payload
  | trimmed p => some p
  | _ => none

/-- The message that has been discarded. -/
def asDiscarded : Act → Option Payload
  | discarded p => some p
  | _ => none

/-- The message whose write has failed. -/
def asWriteFailed : Act → Option Payload
  | writeFailed p => some p
  | _ => none

/-- A connection or a write fails. -/
def isFailure : Act → Bool
  | sourceFailed | writeFailed _ => true
  | _ => false

/-- No message is concerned. -/
def isMark : Act → Bool
  | cleared | connected | sourceFailed | wait _ => true
  | _ => false

end Act

/-- The message that the worker has popped. -/
def Pc.inFlight : Pc → List Payload
  | writing p => [p]
  | _ => []

/-- `connect_and_stream` has failed, and the queue has not been cleared since. -/
def Pc.failing : Pc → Bool
  | .caught | .clearing | .exited => true
  | _ => false

namespace StreamSession

variable {options : Options} {s s' : StreamSession}

/-! ### What has become of the messages -/

/-- The messages enqueued so far. -/
def received (s : StreamSession) : List Payload := s.log.filterMap Act.asEnqueued

/-- The messages written to the caster. -/
def written (s : StreamSession) : List Payload := s.log.filterMap Act.asWrote

/-- The messages removed by a trim. -/
def trimmed (s : StreamSession) : List Payload := s.log.filterMap Act.asTrimmed

/-- The messages in the queue at a clear. -/
def discarded (s : StreamSession) : List Payload := s.log.filterMap Act.asDiscarded

/-- The messages whose write failed. -/
def failed (s : StreamSession) : List Payload := s.log.filterMap Act.asWriteFailed

/-- The message being written. -/
def inFlight (s : StreamSession) : List Payload := s.pc.inFlight

/-- What an arrival does to the queue and the log. -/
theorem enqueue_eq (options : Options) (s : StreamSession) (data : Bytes) :
    ∃ k queuedBytes droppedBytes underflow total lastLog, s.enqueue options data =
      { s with
        arrivals := s.arrivals + 1
        queue := (s.queue ++ [s.payload data]).drop k
        log := s.log ++ [.enqueued (s.payload data)] ++
          ((s.queue ++ [s.payload data]).take k).map .trimmed
        queuedBytes, droppedBytes, underflow, total, lastLog } := by
  obtain ⟨k, qb, db, u, -, h⟩ :=
    trim_eq options (s.queue ++ [s.payload data]) (s.push data)
  change (s.push data).trimQueueLocked options = _ at h
  rw [enqueue]
  rw [h]
  split_ifs <;> exact ⟨k, qb, db, u, _, _, rfl⟩

/-- What a clear does to the queue and the log. -/
theorem clearQueueLocked_eq (s : StreamSession) :
    ∃ queuedBytes droppedBytes, s.clearQueueLocked =
      { s with
        queue := [], log := s.log ++ s.queue.map .discarded, queuedBytes, droppedBytes } := by
  rw [clearQueueLocked]
  split_ifs with h
  · refine ⟨s.queuedBytes, s.droppedBytes, ?_⟩
    cases s
    cases h
    simp
  · exact ⟨_, _, rfl⟩

/-! ### Order -/

/-- The messages received are those gone from the queue, and those in it; the
    former have been written or lost, or are being written. -/
structure Ordered (s : StreamSession) (gone : List Payload) : Prop where
  numbers : s.received.map Payload.number = List.range s.arrivals
  split : s.received = gone ++ s.queue
  gone : gone.Perm (s.written ++ s.trimmed ++ s.discarded ++ s.failed ++ s.inFlight)
  increasing : (s.written.map Payload.number).Pairwise (· < ·)
  below : ∀ p ∈ s.inFlight, ∀ w ∈ s.written, w.number < p.number

/-- What is written or in flight has left the queue. -/
theorem Ordered.mem_gone {gone : List Payload} (h : Ordered s gone) {p : Payload}
    (hp : p ∈ s.written ∨ p ∈ s.inFlight) : p ∈ gone := by
  rw [h.gone.mem_iff]
  simp only [List.mem_append]
  tauto

/-- The messages gone from the queue came before those in it. -/
theorem Ordered.lt_of_gone {gone : List Payload} (h : Ordered s gone) {w p : Payload}
    (hw : w ∈ gone) (hp : p ∈ s.queue) : w.number < p.number := by
  have hlt : (s.received.map Payload.number).Pairwise (· < ·) := h.numbers ▸ List.pairwise_lt_range
  rw [h.split, List.map_append] at hlt
  exact (List.pairwise_append.1 hlt).2.2 _ (List.mem_map_of_mem hw) _ (List.mem_map_of_mem hp)

/-- The entries `acts` are made, and `more` messages leave the queue. What had
    been popped and what leaves the queue is written or lost, or is popped now. -/
theorem Ordered.extend {gone : List Payload} (h : Ordered s gone) (acts : List Act)
    {more : List Payload} (hlog : s'.log = s.log ++ acts)
    (hnum : List.range s.arrivals ++ (acts.filterMap Act.asEnqueued).map Payload.number =
      List.range s'.arrivals)
    (hqueue : s.queue ++ acts.filterMap Act.asEnqueued = more ++ s'.queue)
    (hgone : (s.inFlight ++ more).Perm (acts.filterMap Act.asWrote ++
      acts.filterMap Act.asTrimmed ++ acts.filterMap Act.asDiscarded ++
      acts.filterMap Act.asWriteFailed ++ s'.inFlight))
    (hwrote : acts.filterMap Act.asWrote = [] ∨
      ∃ p ∈ s.inFlight, acts.filterMap Act.asWrote = [p])
    (hpopped : ∀ p ∈ s'.inFlight, p ∈ s.queue ∨
      (p ∈ s.inFlight ∧ acts.filterMap Act.asWrote = [])) : Ordered s' (gone ++ more) := by
  have hkind (f : Act → Option Payload) :
      s'.log.filterMap f = s.log.filterMap f ++ acts.filterMap f := by
    rw [hlog, List.filterMap_append]
  have hwritten : s'.written = s.written ++ acts.filterMap Act.asWrote := hkind _
  refine ⟨?_, ?_, ?_, ?_, ?_⟩
  · rw [received, hkind, List.map_append, ← hnum]
    exact congrArg (· ++ _) h.numbers
  · rw [received, hkind, List.append_assoc, ← hqueue, ← List.append_assoc]
    exact congrArg (· ++ _) h.split
  -- A message leaves the queue for exactly one of the lists: the counts add up.
  · rw [hwritten, trimmed, discarded, failed, hkind, hkind, hkind]
    refine List.perm_iff_count.2 fun a => ?_
    have h₁ := h.gone.count_eq a
    have h₂ := hgone.count_eq a
    simp only [List.count_append, trimmed, discarded, failed] at h₁ h₂ ⊢
    omega
  · rw [hwritten, List.map_append, List.pairwise_append]
    refine ⟨h.increasing, ?_, ?_⟩
    · rcases hwrote with hw | ⟨p, -, hw⟩ <;> simp [hw]
    · rcases hwrote with hw | ⟨p, hp, hw⟩
      · simp [hw]
      · simpa [hw] using h.below p hp
  -- What is popped now was in the queue, and so came after all that had gone.
  · intro p hp w hw
    rw [hwritten, List.mem_append] at hw
    rcases hpopped p hp with hq | ⟨hp', hnone⟩
    · refine h.lt_of_gone (h.mem_gone ?_) hq
      rcases hw with hw | hw
      · exact .inl hw
      · rcases hwrote with hnone | ⟨p', hp', hone⟩
        · simp [hnone] at hw
        · rw [hone, List.mem_singleton] at hw
          exact .inr (hw ▸ hp')
    · rcases hw with hw | hw
      · exact h.below p hp' w hw
      · simp [hnone] at hw

/-- Nothing changes about the messages. -/
theorem Ordered.mark {gone : List Payload} (h : Ordered s gone) (hq : s'.queue = s.queue)
    (ha : s'.arrivals = s.arrivals)
    (hlog : s'.log = s.log ∨ ∃ a : Act, a.isMark = true ∧ s'.log = s.log ++ [a])
    (hfl : s'.inFlight = s.inFlight) : Ordered s' gone := by
  obtain ⟨acts, hacts, hlog⟩ : ∃ acts : List Act, (∀ a ∈ acts, a.isMark = true) ∧
      s'.log = s.log ++ acts := by
    rcases hlog with hlog | ⟨a, hmark, hlog⟩
    · exact ⟨[], by simp, by simpa using hlog⟩
    · exact ⟨[a], by simpa using hmark, hlog⟩
  have hnone (f : Act → Option Payload) (hf : ∀ a : Act, a.isMark = true → f a = none) :
      acts.filterMap f = [] := List.filterMap_eq_nil_iff.2 fun a ha => hf a (hacts a ha)
  have h₁ := hnone Act.asEnqueued (by rintro (_ | _ | _) <;> simp [Act.isMark, Act.asEnqueued])
  have h₂ := hnone Act.asWrote (by rintro (_ | _ | _) <;> simp [Act.isMark, Act.asWrote])
  have h₃ := hnone Act.asTrimmed (by rintro (_ | _ | _) <;> simp [Act.isMark, Act.asTrimmed])
  have h₄ := hnone Act.asDiscarded (by rintro (_ | _ | _) <;> simp [Act.isMark, Act.asDiscarded])
  have h₅ := hnone Act.asWriteFailed
    (by rintro (_ | _ | _) <;> simp [Act.isMark, Act.asWriteFailed])
  rw [← List.append_nil gone]
  refine h.extend acts hlog ?_ ?_ ?_ (.inl h₂) ?_
  · rw [h₁, ha]; simp
  · rw [h₁, hq]; simp
  · rw [h₂, h₃, h₄, h₅, hfl]; simp
  · rw [hfl]
    exact fun p hp => .inr ⟨hp, h₂⟩

/-- The entries made of messages hold these, or none, of a kind. -/
theorem filterMap_map_some {f : Act → Option Payload} {mk : Payload → Act}
    (hf : ∀ p, f (mk p) = some p) (ps : List Payload) : (ps.map mk).filterMap f = ps := by
  induction ps with
  | nil => rfl
  | cons p ps ih => rw [List.map_cons, List.filterMap_cons_some (hf p), ih]

theorem filterMap_map_none {f : Act → Option Payload} {mk : Payload → Act}
    (hf : ∀ p, f (mk p) = none) (ps : List Payload) : (ps.map mk).filterMap f = [] := by
  induction ps with
  | nil => rfl
  | cons p ps ih => rw [List.map_cons, List.filterMap_cons_none (hf p), ih]

/-- A message arrives, and the front of the queue is trimmed. -/
theorem Ordered.arrive {gone : List Payload} (h : Ordered s gone) (data : Bytes) :
    ∃ gone', Ordered (s.enqueue options data) gone' := by
  obtain ⟨k, qb, db, u, t, l, heq⟩ := enqueue_eq options s data
  rw [heq]
  set p := s.payload data
  set ps := (s.queue ++ [p]).take k with hps
  have hcons (f : Act → Option Payload) : (Act.enqueued p :: ps.map .trimmed).filterMap f =
      [Act.enqueued p].filterMap f ++ (ps.map Act.trimmed).filterMap f := by
    rw [← List.filterMap_append, List.singleton_append]
  -- What the log of the arrival has of each kind.
  have h₁ : (Act.enqueued p :: ps.map .trimmed).filterMap Act.asEnqueued = [p] := by
    rw [hcons, filterMap_map_none fun _ => rfl]
    rfl
  have h₂ : (Act.enqueued p :: ps.map .trimmed).filterMap Act.asWrote = [] := by
    rw [hcons, filterMap_map_none fun _ => rfl]
    rfl
  have h₃ : (Act.enqueued p :: ps.map .trimmed).filterMap Act.asTrimmed = ps := by
    rw [hcons, filterMap_map_some fun _ => rfl]
    rfl
  have h₄ : (Act.enqueued p :: ps.map .trimmed).filterMap Act.asDiscarded = [] := by
    rw [hcons, filterMap_map_none fun _ => rfl]
    rfl
  have h₅ : (Act.enqueued p :: ps.map .trimmed).filterMap Act.asWriteFailed = [] := by
    rw [hcons, filterMap_map_none fun _ => rfl]
    rfl
  -- The message is behind the queue, and what is trimmed has been before it.
  refine ⟨gone ++ ps, h.extend (.enqueued p :: ps.map .trimmed) ?_ ?_ ?_ ?_ (.inl h₂) ?_⟩
  · change s.log ++ [.enqueued p] ++ _ = _
    rw [List.append_assoc, List.singleton_append]
  · rw [h₁]
    exact List.range_succ.symm
  · rw [h₁, hps, List.take_append_drop]
  · rw [h₂, h₃, h₄, h₅]
    refine List.perm_iff_count.2 fun a => ?_
    simp only [List.count_append, List.count_nil]
    change List.count a s.inFlight + _ = _ + List.count a s.inFlight
    omega
  · exact fun p hp => .inr ⟨hp, h₂⟩

/-- A step leaves the messages in order, with what it has taken off the queue. -/
theorem ordered_move {gone : List Payload} (h : Ordered s gone) (hm : Move options s s') :
    ∃ gone', Ordered s' gone' := by
  cases hm with
  | arrive data hlen => exact h.arrive data
  | ignore => exact ⟨_, h⟩
  | stop stop gStop hst => exact ⟨_, h.mark rfl rfl (.inl rfl) rfl⟩
  | exit hpc hst | leave hpc hst =>
    refine ⟨_, h.mark rfl rfl (.inl rfl) ?_⟩
    rcases hpc with hpc | hpc <;> rw [inFlight, inFlight, hpc] <;> rfl
  | connected hpc | sourceFailed hpc | wait hpc =>
    exact ⟨_, h.mark rfl rfl (.inr ⟨_, rfl, rfl⟩) (by rw [inFlight, inFlight, hpc]; rfl)⟩
  | connect hpc | stream hpc | reset hpc | recover hpc | wake hpc =>
    exact ⟨_, h.mark rfl rfl (.inl rfl) (by rw [inFlight, inFlight, hpc]; rfl)⟩
  | pop hpc p ps hq =>
    -- The first message leaves the queue, and is in flight.
    have hfl : s.inFlight = [] := by rw [inFlight, hpc]; rfl
    refine ⟨gone ++ [p], h.extend [] (List.append_nil _).symm (List.append_nil _) ?_ ?_
      (.inl rfl) ?_⟩
    · rw [hq]
      exact List.append_nil _
    · rw [hfl]
      exact List.Perm.refl _
    · intro p' hp'
      obtain rfl := List.mem_singleton.1 hp'
      exact .inl (by simp [hq])
  | wrote p hpc =>
    -- What was in flight is written.
    have hfl : s.inFlight = [p] := by rw [inFlight, hpc]; rfl
    refine ⟨gone ++ [], h.extend [.wrote p] rfl (List.append_nil _) (List.append_nil _) ?_
      (.inr ⟨p, by simp [hfl], rfl⟩) ?_⟩
    · rw [hfl]
      exact List.Perm.refl _
    · exact fun p' hp' => absurd hp' List.not_mem_nil
  | writeFailed p hpc =>
    -- What was in flight has failed.
    have hfl : s.inFlight = [p] := by rw [inFlight, hpc]; rfl
    refine ⟨gone ++ [], h.extend [.writeFailed p] rfl (List.append_nil _)
      (List.append_nil _) ?_ (.inl rfl) ?_⟩
    · rw [hfl]
      exact List.Perm.refl _
    · exact fun p' hp' => absurd hp' List.not_mem_nil
  | clear hpc =>
    -- The whole queue is discarded, in its order.
    have hfl : s.inFlight = [] := by rw [inFlight, hpc]; rfl
    obtain ⟨qb, db, heq⟩ := clearQueueLocked_eq s
    have hsplit (f : Act → Option Payload) :
        (s.queue.map Act.discarded ++ [Act.cleared]).filterMap f =
          (s.queue.map Act.discarded).filterMap f ++ [Act.cleared].filterMap f :=
      List.filterMap_append
    rw [heq]
    refine ⟨gone ++ s.queue, h.extend (s.queue.map .discarded ++ [.cleared]) ?_ ?_ ?_ ?_ (.inl ?_)
      fun p' hp' => absurd hp' List.not_mem_nil⟩
    · exact List.append_assoc ..
    · rw [hsplit, filterMap_map_none fun _ => rfl]
      exact List.append_nil _
    · rw [hsplit, filterMap_map_none fun _ => rfl]
      rfl
    · rw [hfl, hsplit, hsplit, hsplit, hsplit, filterMap_map_none fun _ => rfl,
        filterMap_map_none fun _ => rfl, filterMap_map_some fun _ => rfl,
        filterMap_map_none fun _ => rfl]
      refine List.perm_iff_count.2 fun a => ?_
      simp [List.filterMap_cons, Act.asWrote, Act.asTrimmed, Act.asDiscarded, Act.asWriteFailed,
        inFlight, Pc.inFlight, record]
    · rw [hsplit, filterMap_map_none fun _ => rfl]
      rfl

/-! ### Freshness -/

/-- The trace `l` has a clear, and `p` is enqueued after the first one. -/
def Fresh (p : Payload) (l : List Act) : Prop :=
  ∃ l₁ l₂, l = l₁ ++ .cleared :: l₂ ∧ .cleared ∉ l₁ ∧ .enqueued p ∈ l₂

/-- Whatever is written after a failure was enqueued after the next clear. -/
def FreshWrites (l : List Act) : Prop :=
  Each (fun _ x l' => x.isFailure = true →
    Each (fun l₁ y _ => ∀ p, y = .wrote p → Fresh p l₁) l') l

/-- What is in the queue or popped was enqueued after the last clear, and there
    was one after each failure that the worker has gone on from. -/
structure Renewed (s : StreamSession) : Prop where
  sinceClear : Each (fun _ x l => x = .cleared →
    ∀ p ∈ s.queue ++ s.inFlight, Act.enqueued p ∈ l) s.log
  clearedAgain : s.pc.failing = false →
    Each (fun _ x l => x.isFailure = true → Act.cleared ∈ l) s.log
  fresh : FreshWrites s.log

/-- Entries that are no writes do not matter to what has been written. -/
theorem FreshWrites.append {l acts : List Act} (h : FreshWrites l)
    (hacts : ∀ a ∈ acts, ∀ p, a ≠ .wrote p) : FreshWrites (l ++ acts) := by
  have hnone (l' : List Act) :
      Each (fun l₁ y _ => ∀ p, y = .wrote p → Fresh p (l' ++ l₁)) acts := by
    rintro l₁ y l₂ rfl p hy
    exact absurd hy (hacts y (by simp) p)
  refine each_append.2 ⟨h.imp fun l₁ x l₂ hx hf => each_append.2 ⟨hx hf, hnone l₂⟩, ?_⟩
  rintro l₁ x l₂ rfl -
  rintro l₁' y l₂' rfl p hy
  exact absurd hy (hacts y (by simp) p)

/-- Entries are made that are neither clears nor failures nor writes, and what
    comes into the queue is enqueued by them. -/
theorem Renewed.extend (h : Renewed s) (acts : List Act) (hlog : s'.log = s.log ++ acts)
    (hacts : ∀ a ∈ acts, a ≠ .cleared ∧ a.isFailure = false ∧ ∀ p, a ≠ .wrote p)
    (hqueue : ∀ p ∈ s'.queue ++ s'.inFlight, p ∈ s.queue ++ s.inFlight ∨ Act.enqueued p ∈ acts)
    (hpc : s'.pc.failing = false → s.pc.failing = false) : Renewed s' := by
  refine ⟨?_, fun hf => ?_, ?_⟩
  · rw [hlog, each_append]
    refine ⟨h.sinceClear.imp fun l₁ x l₂ hx hc p hp => ?_,
      each_of_forall_not fun a ha => (hacts a ha).1⟩
    rcases hqueue p hp with hp | hp
    · exact List.mem_append_left _ (hx hc p hp)
    · exact List.mem_append_right _ hp
  · rw [hlog, each_append]
    refine ⟨(h.clearedAgain (hpc hf)).imp fun l₁ x l₂ hx hc => List.mem_append_left _ (hx hc),
      each_of_forall_not fun a ha => ?_⟩
    rw [(hacts a ha).2.1]
    exact Bool.false_ne_true
  · rw [hlog]
    exact h.fresh.append fun a ha => (hacts a ha).2.2

/-- A failure is recorded, and the worker is about to handle it. -/
theorem Renewed.fail (h : Renewed s) {a : Act} (hlog : s'.log = s.log ++ [a])
    (ha : a ≠ .cleared ∧ ∀ p, a ≠ .wrote p)
    (hqueue : ∀ p ∈ s'.queue ++ s'.inFlight, p ∈ s.queue ++ s.inFlight)
    (hpc : s'.pc.failing = true) : Renewed s' := by
  refine ⟨?_, fun hf => absurd (hpc.symm.trans hf) (by decide), ?_⟩
  · rw [hlog, each_concat]
    refine ⟨h.sinceClear.imp fun l₁ x l₂ hx hc p hp => ?_, fun hc => absurd hc ha.1⟩
    exact List.mem_append_left _ (hx hc p (hqueue p hp))
  · rw [hlog]
    exact h.fresh.append fun b hb => List.mem_singleton.1 hb ▸ ha.2

/-- The message that is being written was enqueued after the clear that followed
    a failure. -/
theorem Renewed.fresh_of_writing (h : Renewed s) {p : Payload} (hpc : s.pc = .writing p) :
    Each (fun _ x l => x.isFailure = true → Fresh p l) s.log := by
  intro l₁ x l₂ hlog hx
  have hmem := h.clearedAgain (by rw [hpc]; rfl) l₁ x l₂ hlog hx
  -- `Fresh` asks for the first clear after the failure, `sinceClear` holds of any.
  obtain ⟨l₃, l₄, rfl, hnot⟩ := List.eq_append_cons_of_mem hmem
  have hsince := h.sinceClear (l₁ ++ x :: l₃) .cleared l₄ (by rw [hlog]; simp) rfl p
  exact ⟨l₃, l₄, rfl, hnot, hsince (by simp [inFlight, hpc, Pc.inFlight])⟩

/-- The worker goes on without taking a message, or recording anything but a mark. -/
theorem Renewed.quiet (h : Renewed s)
    (hlog : s'.log = s.log ∨ ∃ a : Act, (a ≠ .cleared ∧ a.isFailure = false ∧
      ∀ p, a ≠ .wrote p) ∧ s'.log = s.log ++ [a])
    (hq : s'.queue = s.queue) (hfl : s'.inFlight = [])
    (hpc : s'.pc.failing = false → s.pc.failing = false) : Renewed s' := by
  obtain ⟨acts, hacts, hlog⟩ : ∃ acts : List Act, (∀ a ∈ acts, a ≠ .cleared ∧
      a.isFailure = false ∧ ∀ p, a ≠ .wrote p) ∧ s'.log = s.log ++ acts := by
    rcases hlog with hlog | ⟨a, ha, hlog⟩
    · exact ⟨[], by simp, by simpa using hlog⟩
    · exact ⟨[a], by simpa using ha, hlog⟩
  refine h.extend acts hlog hacts (fun p hp => .inl ?_) hpc
  rw [hq, hfl, List.append_nil] at hp
  exact List.mem_append_left _ hp

/-- A step keeps to fresh connections after a failed write. -/
theorem renewed_move (h : Renewed s) (hm : Move options s s') : Renewed s' := by
  cases hm with
  | arrive data hlen =>
    obtain ⟨k, qb, db, u, t, l, heq⟩ := enqueue_eq options s data
    rw [heq]
    set p := s.payload data
    refine h.extend (.enqueued p :: ((s.queue ++ [p]).take k).map .trimmed) ?_ ?_ ?_ id
    · exact List.append_assoc ..
    · intro a ha
      rcases List.mem_cons.1 ha with rfl | ha
      · exact ⟨by simp, rfl, by simp⟩
      · obtain ⟨q, -, rfl⟩ := List.mem_map.1 ha
        exact ⟨by simp, rfl, by simp⟩
    · intro q hq
      rcases List.mem_append.1 hq with hq | hq
      · rcases List.mem_append.1 (List.mem_of_mem_drop hq) with hq | hq
        · exact .inl (List.mem_append_left _ hq)
        · rw [List.mem_singleton.1 hq]
          exact .inr (List.mem_cons_self ..)
      · exact .inl (List.mem_append_right _ hq)
  | ignore => exact h
  | stop stop gStop hst => exact ⟨h.sinceClear, h.clearedAgain, h.fresh⟩
  | exit hpc hst | recover hpc hst =>
    exact h.quiet (.inl rfl) rfl rfl fun hf => absurd hf (by simp [Pc.failing])
  | leave hpc hst =>
    refine h.quiet (.inl rfl) rfl rfl fun _ => ?_
    rcases hpc with hpc | hpc <;> rw [hpc] <;> rfl
  | connect hpc | stream hpc | reset hpc | wake hpc =>
    exact h.quiet (.inl rfl) rfl rfl fun _ => by rw [hpc]; rfl
  | connected hpc | wait hpc =>
    refine h.quiet (.inr ⟨_, ?_, rfl⟩) rfl rfl fun _ => by rw [hpc]; rfl
    exact ⟨by simp, rfl, by simp⟩
  | sourceFailed hpc =>
    refine h.fail rfl ⟨by simp, by simp⟩ (fun p hp => ?_) rfl
    simpa [record, inFlight, Pc.inFlight, hpc] using hp
  | pop hpc p ps hq =>
    refine h.extend [] (List.append_nil _).symm (by simp) (fun q hmem => .inl ?_)
      fun _ => by rw [hpc]; rfl
    rw [hq, List.cons_append, List.mem_cons]
    rcases List.mem_append.1 hmem with hmem | hmem
    · exact .inr (List.mem_append_left _ hmem)
    · exact .inl (List.mem_singleton.1 hmem)
  | wrote p hpc =>
    -- The one step that writes: the message was popped after the last clear.
    refine ⟨each_concat.2 ⟨?_, by simp⟩, fun _ => each_concat.2 ⟨?_, ?_⟩,
      each_concat.2 ⟨?_, by simp⟩⟩
    · refine h.sinceClear.imp fun l₁ x l₂ hx hc q hq => List.mem_append_left _ (hx hc q ?_)
      exact List.mem_append_left _ (by simpa [inFlight, Pc.inFlight, record] using hq)
    · exact (h.clearedAgain (by rw [hpc]; rfl)).imp fun l₁ x l₂ hx hf =>
        List.mem_append_left _ (hx hf)
    · intro hf
      exact absurd hf Bool.false_ne_true
    · intro l₁ x l₂ hlog hx
      refine each_concat.2 ⟨h.fresh l₁ x l₂ hlog hx, fun q hq => ?_⟩
      obtain rfl := Act.wrote.inj hq
      exact h.fresh_of_writing hpc l₁ x l₂ hlog hx
  | writeFailed p hpc =>
    refine h.fail rfl ⟨by simp, by simp⟩ (fun q hq => ?_) rfl
    exact List.mem_append_left _ (by simpa [inFlight, Pc.inFlight, record] using hq)
  | clear hpc =>
    obtain ⟨qb, db, heq⟩ := clearQueueLocked_eq s
    rw [heq]
    have hdisc : ∀ a ∈ s.queue.map Act.discarded, ∀ p, a ≠ .wrote p := by
      intro a ha p
      obtain ⟨q, -, rfl⟩ := List.mem_map.1 ha
      simp
    -- Nothing is left that could be written before it is enqueued.
    refine ⟨fun l₁ x l₂ _ _ p hp => absurd hp List.not_mem_nil, fun _ => ?_, ?_⟩
    · refine each_concat.2 ⟨fun l₁ x l₂ _ _ => by simp, fun hf => absurd hf (by decide)⟩
    · exact (h.fresh.append hdisc).append fun a ha => by rw [List.mem_singleton.1 ha]; simp

/-! ### Runs -/

variable {hash : UInt64}

theorem ordered_of_reachable (h : (automaton options hash).Reachable s) :
    ∃ gone, Ordered s gone := by
  refine invariant (P := fun s => ∃ gone, Ordered s gone) h ⟨[], rfl, rfl, List.Perm.refl _,
    List.Pairwise.nil, ?_⟩ fun _ _ ⟨_, hs⟩ hm => ordered_move hs hm
  exact fun p hp => absurd hp List.not_mem_nil

theorem renewed_of_reachable (h : (automaton options hash).Reachable s) : Renewed s :=
  invariant h ⟨each_nil, fun _ => each_nil, each_nil⟩ fun _ _ hs hm => renewed_move hs hm

/-- **Order and freshness of the uploads.** In every reachable state, with the
    messages numbered in the order of their arrival: the queue holds the latest
    of them; the numbers written increase; each message is written, trimmed, in
    the queue at a clear, the one of a failed write, being written or in the
    queue, and only one of these; and what is written after a failure was
    enqueued after the clear that followed this failure. -/
theorem uploads_in_order (h : (automaton options hash).Reachable s) :
    s.received.map Payload.number = List.range s.received.length ∧ s.queue <:+ s.received ∧
      (s.written.map Payload.number).Pairwise (· < ·) ∧
      s.received.Perm
        (s.written ++ s.trimmed ++ s.discarded ++ s.failed ++ s.inFlight ++ s.queue) ∧
      FreshWrites s.log := by
  obtain ⟨gone, ho⟩ := ordered_of_reachable h
  have hlen : s.received.length = s.arrivals := by
    have := congrArg List.length ho.numbers
    rwa [List.length_map, List.length_range] at this
  refine ⟨hlen ▸ ho.numbers, ⟨gone, ho.split.symm⟩, ho.increasing, ?_,
    (renewed_of_reachable h).fresh⟩
  rw [ho.split]
  exact ho.gone.append_right _

/-- A write fails while the next message arrives, and the queue is cleared; the
    message after these is written. -/
def brokenRun : List Event :=
  [.worker true, .worker true, .arrive [1], .worker true, .worker true, .arrive [2],
    .worker false, .worker true, .worker true, .arrive [3], .worker true, .worker true,
    .worker true, .worker true, .worker true, .worker true, .worker true]

theorem uploads_in_order_brokenRun : ∃ s, (automaton {} 0).exec brokenRun = some s ∧
    s.failed = [⟨0, [1]⟩] ∧ s.discarded = [⟨1, [2]⟩] ∧ s.written = [⟨2, [3]⟩] ∧
    (s.written.map Payload.number).Pairwise (· < ·) ∧
    s.received.Perm
      (s.written ++ s.trimmed ++ s.discarded ++ s.failed ++ s.inFlight ++ s.queue) ∧
    FreshWrites s.log :=
  have h := Automaton.reachable_of_exec (show (automaton {} 0).exec brokenRun = some _ from rfl)
  ⟨_, rfl, rfl, rfl, rfl, (uploads_in_order h).2.2⟩

end StreamSession

end RtcmBridge.Nats2Ntrip

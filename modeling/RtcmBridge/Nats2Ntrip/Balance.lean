import RtcmBridge.Nats2Ntrip.Order

/-!
# The balance of the bytes

The bytes received are those written, those dropped, those queued and those of
the message being written, and the bytes of the messages whose write failed:
these are credited to no counter (`Credited`). A trim and a clear credit
what they take away to `droppedBytes`. So the counters balance as long as no
write fails, and no longer (`balanced_iff`).
-/

namespace RtcmBridge.Nats2Ntrip.StreamSession

variable {options : Options} {s s' : StreamSession} {e : Event}

/-- The bytes received are those written, dropped, queued, and popped and being
    written, in the arithmetic of the counters. -/
def Balanced (s : StreamSession) : Prop :=
  s.total = .ofNat (bytesOf s.written) + s.droppedBytes + s.queuedBytes +
    .ofNat (bytesOf s.inFlight)

/-- The write of the message popped fails. -/
def FailsWrite (s : StreamSession) (e : Event) : Prop :=
  (∃ p, s.pc = .writing p) ∧ e = .worker false

/-! ### What is credited -/

/-- The balance, with the messages whose write failed. -/
def Credited (s : StreamSession) : Prop :=
  s.total = .ofNat (bytesOf s.written) + s.droppedBytes + s.queuedBytes +
    .ofNat (bytesOf s.inFlight) + .ofNat (bytesOf s.failed)

/-- A trim moves bytes from one counter to the other. -/
theorem trim_sum (options : Options) (ps : List Payload) (s : StreamSession) :
    (trim options ps s).droppedBytes + (trim options ps s).queuedBytes =
      s.droppedBytes + s.queuedBytes := by
  induction ps generalizing s with
  | nil => rfl
  | cons p ps ih =>
    rw [trim]
    split_ifs
    · rw [ih]
      change s.droppedBytes + p.size + (s.queuedBytes - p.size) = _
      grind
    · rfl

/-- A clear counts the bytes it takes away. -/
theorem foldl_size (ps : List Payload) (n : UInt64) :
    ps.foldl (fun n p => n + p.size) n = n + .ofNat (bytesOf ps) := by
  induction ps generalizing n with
  | nil => simp
  | cons p ps ih =>
    rw [List.foldl_cons, ih, bytesOf_cons, UInt64.ofNat_add, Payload.size, UInt64.add_assoc]

/-- An arrival adds its bytes once, and what it drops goes from the queue to the dropped ones. -/
theorem enqueue_sum (options : Options) (s : StreamSession) (data : Bytes) :
    (s.enqueue options data).total = s.total + (s.payload data).size ∧
      (s.enqueue options data).droppedBytes + (s.enqueue options data).queuedBytes =
        s.droppedBytes + s.queuedBytes + (s.payload data).size := by
  obtain ⟨k, qb, db, u, -, h⟩ := trim_eq options (s.push data).queue (s.push data)
  have hsum := trim_sum options (s.push data).queue (s.push data)
  have htotal : ((s.push data).trimQueueLocked options).total =
      s.total + (s.payload data).size := by
    rw [trimQueueLocked, h]
    rfl
  have hcount : ((s.push data).trimQueueLocked options).droppedBytes +
      ((s.push data).trimQueueLocked options).queuedBytes =
        s.droppedBytes + s.queuedBytes + (s.payload data).size := by
    rw [trimQueueLocked, hsum, UInt64.add_assoc]
    rfl
  rw [enqueue]
  split_ifs <;> exact ⟨htotal, hcount⟩

/-- An arrival neither writes nor fails. -/
theorem kinds_enqueue (options : Options) (s : StreamSession) (data : Bytes) :
    (s.enqueue options data).written = s.written ∧
      (s.enqueue options data).failed = s.failed := by
  obtain ⟨k, qb, db, u, t, l, heq⟩ := enqueue_eq options s data
  have hkind (f : Act → Option Payload) (ht : ∀ p, f (.trimmed p) = none)
      (he : ∀ p, f (.enqueued p) = none) :
      (s.enqueue options data).log.filterMap f = s.log.filterMap f := by
    rw [heq, List.filterMap_append, List.filterMap_append, filterMap_map_none ht]
    simp [he]
  exact ⟨hkind Act.asWrote (fun _ => rfl) fun _ => rfl,
    hkind Act.asWriteFailed (fun _ => rfl) fun _ => rfl⟩

/-- A clear moves the bytes of the queue to the other counter. -/
theorem clearQueueLocked_sum (h : Accounted options s) : s.clearQueueLocked.total = s.total ∧
    s.clearQueueLocked.droppedBytes + s.clearQueueLocked.queuedBytes =
      s.droppedBytes + s.queuedBytes := by
  have hqueued : s.queuedBytes = .ofNat (bytesOf s.queue) := by
    rw [← h.counted.bytes, UInt64.ofNat_toNat]
  rw [clearQueueLocked]
  split_ifs
  · exact ⟨rfl, rfl⟩
  · refine ⟨rfl, ?_⟩
    change s.droppedBytes + s.queue.foldl (fun n p => n + p.size) 0 + 0 = _
    rw [foldl_size, hqueued, UInt64.zero_add, UInt64.add_zero]

/-- Clearing the queue neither writes nor fails. -/
theorem kinds_clear (s : StreamSession) :
    ({ s.clearQueueLocked with pc := .backoff }.record .cleared).written = s.written ∧
      ({ s.clearQueueLocked with pc := .backoff }.record .cleared).failed = s.failed := by
  obtain ⟨qb, db, heq⟩ := clearQueueLocked_eq s
  have hkind (f : Act → Option Payload) (hd : ∀ p, f (.discarded p) = none)
      (hc : f .cleared = none) :
      (s.log ++ s.queue.map Act.discarded ++ [Act.cleared]).filterMap f = s.log.filterMap f := by
    rw [List.filterMap_append, List.filterMap_append, filterMap_map_none hd]
    simp [hc]
  rw [heq]
  exact ⟨hkind Act.asWrote (fun _ => rfl) rfl, hkind Act.asWriteFailed (fun _ => rfl) rfl⟩

/-- Nothing is received, and nothing leaves the queue or the worker. -/
theorem Credited.congr (h : Credited s) (ht : s'.total = s.total)
    (hd : s'.droppedBytes = s.droppedBytes) (hq : s'.queuedBytes = s.queuedBytes)
    (hlog : s'.log = s.log ∨ ∃ a : Act, a.isMark = true ∧ s'.log = s.log ++ [a])
    (hfl : s'.inFlight = s.inFlight) : Credited s' := by
  have hkind : s'.written = s.written ∧ s'.failed = s.failed := by
    rcases hlog with hlog | ⟨a, hmark, hlog⟩
    · rw [written, failed, hlog]
      exact ⟨rfl, rfl⟩
    · rw [written, failed, hlog]
      cases a <;> simp [Act.isMark, Act.asWrote, Act.asWriteFailed, written, failed] at hmark ⊢
  rw [Credited, ht, hd, hq, hkind.1, hkind.2, hfl]
  exact h

/-- A step keeps the counters in step with the log. -/
theorem credited_move (h : Credited s) (hacc : Accounted options s) (hm : Move options s s') :
    Credited s' := by
  cases hm with
  | arrive data hlen =>
    -- What arrives is added to the total, and is in the queue or has been dropped.
    obtain ⟨htotal, hcount⟩ := enqueue_sum options s data
    obtain ⟨k, qb, db, u, t, l, heq⟩ := enqueue_eq options s data
    have hfl : (s.enqueue options data).inFlight = s.inFlight := by rw [heq, inFlight, inFlight]
    rw [Credited] at h ⊢
    rw [(kinds_enqueue options s data).1, (kinds_enqueue options s data).2, hfl, htotal, h]
    grind
  | ignore => exact h
  | stop stop gStop hst => exact h
  | exit hpc hst | leave hpc hst =>
    refine h.congr rfl rfl rfl (.inl rfl) ?_
    rcases hpc with hpc | hpc <;> rw [inFlight, inFlight, hpc] <;> rfl
  | connected hpc | sourceFailed hpc | wait hpc =>
    exact h.congr rfl rfl rfl (.inr ⟨_, rfl, rfl⟩) (by rw [inFlight, inFlight, hpc]; rfl)
  | connect hpc | stream hpc | reset hpc | recover hpc | wake hpc =>
    exact h.congr rfl rfl rfl (.inl rfl) (by rw [inFlight, inFlight, hpc]; rfl)
  | pop hpc p ps hq =>
    -- From the queue to what is in flight.
    have hfl : s.inFlight = [] := by rw [inFlight, hpc]; rfl
    have hsize : UInt64.ofNat (bytesOf [p]) = p.size := rfl
    rw [Credited, hfl] at h
    change s.total = .ofNat (bytesOf s.written) + s.droppedBytes + (s.queuedBytes - p.size) +
      .ofNat (bytesOf [p]) + .ofNat (bytesOf s.failed)
    rw [h, hsize, bytesOf_nil]
    grind
  | wrote p hpc =>
    -- From what is in flight to what is written.
    have hfl : s.inFlight = [p] := by rw [inFlight, hpc]; rfl
    have hwritten : ({ s with pc := .stream }.record (.wrote p)).written = s.written ++ [p] :=
      List.filterMap_append
    have hfailed : ({ s with pc := .stream }.record (.wrote p)).failed = s.failed ++ [] :=
      List.filterMap_append
    rw [Credited, hfl] at h
    rw [Credited, hwritten, hfailed, List.append_nil, bytesOf_append, UInt64.ofNat_add]
    change s.total = _ + .ofNat (bytesOf [p]) + s.droppedBytes + s.queuedBytes +
      .ofNat (bytesOf []) + _
    rw [h, bytesOf_nil]
    grind
  | writeFailed p hpc =>
    -- From what is in flight to what has failed, which no counter has.
    have hfl : s.inFlight = [p] := by rw [inFlight, hpc]; rfl
    have hwritten : ({ s with pc := .caught }.record (.writeFailed p)).written = s.written ++ [] :=
      List.filterMap_append
    have hfailed : ({ s with pc := .caught }.record (.writeFailed p)).failed = s.failed ++ [p] :=
      List.filterMap_append
    rw [Credited, hfl] at h
    rw [Credited, hwritten, hfailed, List.append_nil, bytesOf_append, UInt64.ofNat_add]
    change s.total = _ + s.droppedBytes + s.queuedBytes + .ofNat (bytesOf []) +
      (_ + .ofNat (bytesOf [p]))
    rw [h, bytesOf_nil]
    grind
  | clear hpc =>
    -- From the queue to the dropped bytes.
    have hfl : s.inFlight = [] := by rw [inFlight, hpc]; rfl
    obtain ⟨htotal, hsum⟩ := clearQueueLocked_sum hacc
    rw [Credited, hfl] at h
    rw [Credited, (kinds_clear s).1, (kinds_clear s).2]
    change s.clearQueueLocked.total = _ + s.clearQueueLocked.droppedBytes +
      s.clearQueueLocked.queuedBytes + .ofNat (bytesOf []) + _
    rw [htotal, h]
    grind

/-! ### The messages held -/

/-- The messages queued or popped are not empty, and their length is an `int`. -/
def Sized (s : StreamSession) : Prop :=
  ∀ p ∈ s.queue ++ s.inFlight, 0 < p.data.length ∧ p.data.length < 2 ^ 31

/-- The worker only pops messages of the queue. -/
theorem held_of_workerStep {ok : Bool} (h : s.workerStep options ok = some s') :
    s'.queue ++ s'.inFlight ⊆ s.queue ++ s.inFlight := by
  -- Only a pop puts anything in flight.
  have hkeep (hq : s'.queue ⊆ s.queue) (hfl : s'.inFlight = []) :
      s'.queue ++ s'.inFlight ⊆ s.queue ++ s.inFlight := by
    rw [hfl, List.append_nil]
    exact fun p hp => List.mem_append_left _ (hq hp)
  rw [workerStep] at h
  cases hpc : s.pc with
  | run | stream | caught =>
    cases hst : s.stopping <;> simp only [hpc, hst] at h <;> cases h <;>
      exact hkeep (List.Subset.refl _) rfl
  | source | writing p =>
    cases ok <;> simp only [hpc] at h <;> cases h <;> exact hkeep (List.Subset.refl _) rfl
  | returned | backoff | sleeping =>
    simp only [hpc] at h
    cases h
    exact hkeep (List.Subset.refl _) rfl
  | waiting =>
    cases hst : s.stopping <;> simp only [hpc, hst] at h
    · cases hq : s.queue with
      | nil => simp [hq] at h
      | cons p ps =>
        simp only [hq] at h
        cases h
        intro q hq'
        change q ∈ ps ++ [p] at hq'
        simp only [List.mem_append, List.mem_cons, List.not_mem_nil, or_false] at hq' ⊢
        tauto
    · cases h
      exact hkeep (List.Subset.refl _) rfl
  | clearing =>
    obtain ⟨qb, db, heq⟩ := clearQueueLocked_eq s
    simp only [hpc, heq] at h
    cases h
    exact hkeep (List.nil_subset _) rfl
  | exited => simp [hpc] at h

theorem sized_step (h : Sized s) (hs : s.step options e = some s') : Sized s' := by
  cases e with
  | arrive data =>
    simp only [step, onNatsMsg] at hs
    split_ifs at hs with hlen hpos
    · cases hs
      obtain ⟨k, qb, db, u, t, l, heq⟩ := enqueue_eq options s data
      rw [heq]
      intro p hp
      rcases List.mem_append.1 hp with hp | hp
      · rcases List.mem_append.1 (List.mem_of_mem_drop hp) with hp | hp
        · exact h p (List.mem_append_left _ hp)
        · obtain rfl := List.mem_singleton.1 hp
          exact ⟨hpos, hlen⟩
      · exact h p (List.mem_append_right _ hp)
    · cases hs
      exact h
  | stop | signal =>
    cases hs
    exact h
  | worker ok => exact fun p hp => h p (held_of_workerStep hs hp)

theorem sized_init {hash : UInt64} : Sized (automaton options hash).init := by
  simp [Sized, automaton, inFlight, Pc.inFlight]

theorem sized_of_reachable {hash : UInt64} (h : (automaton options hash).Reachable s) :
    Sized s :=
  h.invariant sized_init fun _ _ _ => sized_step

/-! ### The balance -/

/-- Only a failed write makes messages fail. -/
theorem failed_step (hs : s.step options e = some s') (hf : ¬FailsWrite s e) :
    s'.failed = s.failed := by
  cases e with
  | arrive data =>
    simp only [step, onNatsMsg] at hs
    split_ifs at hs <;> cases hs
    exacts [(kinds_enqueue options s data).2, rfl]
  | stop | signal =>
    cases hs
    rfl
  | worker ok =>
    have hlog {a : Act} (ha : a.asWriteFailed = none) :
        (s.log ++ [a]).filterMap Act.asWriteFailed = s.failed := by
      rw [List.filterMap_append, List.filterMap_cons_none ha]
      exact List.append_nil _
    cases move_of_workerStep hs with
    | arrive data hlen => exact (kinds_enqueue options s data).2
    | wrote p hpc => exact hlog rfl
    | writeFailed p hpc =>
      -- The write has not failed: the worker would go on with its loop.
      cases ok
      · exact absurd ⟨⟨p, hpc⟩, rfl⟩ hf
      · rw [step, workerStep, hpc] at hs
        exact absurd (congrArg (Option.map pc) hs) (by simp [record])
    | clear hpc => exact (kinds_clear s).2
    | connected hpc | sourceFailed hpc | wait hpc => exact hlog rfl
    | _ => rfl

/-- What holds while no write fails. -/
structure Unfailed (options : Options) (s : StreamSession) : Prop where
  credited : Credited s
  accounted : Accounted options s
  sized : Sized s
  failed : s.failed = []

theorem Unfailed.balanced (h : Unfailed options s) : Balanced s := by
  have := h.credited
  rw [Credited, h.failed] at this
  exact this.trans (UInt64.add_zero _)

/-- A step that fails no write keeps every byte on the balance. -/
theorem unfailed_step (h : Unfailed options s) (hf : ¬FailsWrite s e)
    (hs : s.step options e = some s') : Unfailed options s' :=
  have hm := move_of_step hs
  ⟨credited_move h.credited h.accounted hm, accounted_move h.accounted hm,
    sized_step h.sized hs, (failed_step hs hf).trans h.failed⟩

/-- The first failed write upsets the balance: its message is not empty, and is
    credited nowhere. -/
theorem not_balanced_of_failsWrite (h : Unfailed options s) (hf : FailsWrite s e)
    (hs : s.step options e = some s') : ¬Balanced s' := by
  obtain ⟨⟨p, hpc⟩, rfl⟩ := hf
  have hcredited := credited_move h.credited h.accounted (move_of_step hs)
  have hsize := h.sized p (List.mem_append_right _ (by rw [inFlight, hpc]; exact .head _))
  simp only [step, workerStep, hpc, Bool.false_eq_true, if_false, Option.some.injEq] at hs
  have hfailed : s'.failed = [p] := by
    rw [← hs]
    exact List.filterMap_append.trans (congrArg (· ++ [p]) h.failed)
  intro hb
  rw [Credited, ← hb, hfailed] at hcredited
  have hzero : UInt64.ofNat (bytesOf [p]) = 0 := by grind
  have := congrArg UInt64.toNat hzero
  rw [bytesOf_cons, bytesOf_nil, UInt64.toNat_ofNat'] at this
  rw [UInt64.toNat_zero] at this
  omega

/-- The caster closes the connection, and the write of a message of two bytes
    fails: they are received, and neither written, dropped, queued nor popped. -/
theorem failedWrite_unbalanced : ∃ s, (automaton {} 0).exec
      [.arrive [1, 2], .worker true, .worker true, .worker true, .worker true, .worker false] =
        some s ∧
    s.total = 2 ∧ s.written = [] ∧ s.droppedBytes = 0 ∧ s.queuedBytes = 0 ∧ s.inFlight = [] ∧
    ¬Balanced s :=
  ⟨_, rfl, rfl, rfl, rfl, rfl, rfl, by simp [Balanced]; decide⟩

/-- **The bytes balance as long as no write fails.** The balance holds throughout a
    run if and only if no write of the run fails. -/
theorem balanced_iff (options : Options) (hash : UInt64) (es : List Event) (s : StreamSession) :
    ((automaton options hash).Run (fun s _ => Balanced s) es s ∧ Balanced s) ↔
      (automaton options hash).Run (fun s e => ¬FailsWrite s e) es s := by
  refine Automaton.run_iff (J := Unfailed options) ?_ (fun _ h => h.balanced)
    (fun _ _ _ h hf hs => unfailed_step h hf hs)
    (fun _ _ _ h hf hs => not_balanced_of_failsWrite h (not_not.1 hf) hs)
  exact
    { credited := rfl
      accounted := ⟨⟨rfl, by simp [automaton], rfl⟩, Nat.zero_le _⟩
      sized := sized_init
      failed := rfl }

end RtcmBridge.Nats2Ntrip.StreamSession

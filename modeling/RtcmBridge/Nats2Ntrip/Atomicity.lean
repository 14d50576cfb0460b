import RtcmBridge.Nats2Ntrip.Balance
import RtcmBridge.Nats2Ntrip.ProcessSteps
import RtcmBridge.Refinement

/-!
# The sections under `mtx_` are atomic

In the model of one session (`StreamSession.automaton`) an arrival, a pop and a clear are
single steps. In the process they are sections of several statements, between which the
other threads go on. Since they have `mtx_` throughout, the sessions of the process still
behave like the model (`sections_atomic`): a section counts as done as soon as it has changed
anything, and what is left of it is added in thought (`Worker.finish`, `Delivery.finish`).

So what holds of all reachable states of the model holds of each session of the process,
as soon as its mutex is free (`session_atomic`).
-/

namespace RtcmBridge.Nats2Ntrip

namespace StreamSession

/-! ### Sessions without a record -/

/-- The session without what is only recorded. -/
def erase (s : StreamSession) : StreamSession := { s with log := [], underflow := false }

variable (options : Options) (s : StreamSession)

/-- A round of the loop of a trim. -/
def trimFront (p : Payload) : StreamSession :=
  ({ s with droppedBytes := s.droppedBytes + p.size }.subQueuedBytes p.size).record (.trimmed p)

/-- A round of the trim drops the first message while there are too many bytes. -/
theorem trim_cons (p : Payload) (ps : List Payload) : trim options (p :: ps) s =
    if s.queuedBytes > maxQueueBytes options then trim options ps (s.trimFront p)
    else { s with queue := p :: ps } := rfl

/-- What is recorded does not matter. -/
theorem erase_trim (ps : List Payload) :
    (trim options ps s).erase = (trim options ps s.erase).erase := by
  induction ps generalizing s with
  | nil => rfl
  | cons p ps ih =>
    rw [trim_cons, trim_cons, apply_ite erase, apply_ite erase]
    exact if_congr Iff.rfl ((ih (s.trimFront p)).trans (ih (s.erase.trimFront p)).symm) rfl

/-- The session at another place, with other flags. -/
def relocate (pc : Pc) (reconnectDelay : Int32) (stop gStop : Bool) : StreamSession :=
  { s with pc, reconnectDelay, stop, gStop }

/-- The trim does not depend on where the worker is. -/
theorem trim_relocate (ps : List Payload) (pc : Pc) (reconnectDelay : Int32) (stop gStop : Bool) :
    trim options ps (s.relocate pc reconnectDelay stop gStop) =
      (trim options ps s).relocate pc reconnectDelay stop gStop := by
  induction ps generalizing s with
  | nil => rfl
  | cons p ps ih =>
    rw [trim_cons, trim_cons,
      apply_ite fun s : StreamSession => s.relocate pc reconnectDelay stop gStop]
    exact if_congr Iff.rfl (ih (s.trimFront p)) rfl

/-- What the queue of the session is does not matter to a trim, which is given it. -/
theorem trim_queue (ps queue : List Payload) :
    trim options ps { s with queue } = trim options ps s := by
  induction ps generalizing s with
  | nil => rfl
  | cons p ps ih =>
    rw [trim_cons, trim_cons]
    exact if_congr Iff.rfl (ih (s.trimFront p)) rfl

/-- The update of `last_log_`. -/
def logThroughput : StreamSession :=
  if s.total - s.lastLog ≥ options.throughputLogEveryBytes.toInt64.toUInt64 then
    { s with lastLog := s.total }
  else s

/-- The end of an arrival, from the trim on. -/
def afterPush : StreamSession := (s.trimQueueLocked options).logThroughput options

theorem erase_logThroughput :
    (s.logThroughput options).erase = (s.erase.logThroughput options).erase := by
  rw [logThroughput, logThroughput, apply_ite erase, apply_ite erase]
  rfl

/-- What follows a push does not depend on what is erased. -/
theorem erase_afterPush_congr {s s' : StreamSession} (h : s.erase = s'.erase) :
    (s.afterPush options).erase = (s'.afterPush options).erase := by
  have hqueue : s.queue = s'.queue := (congrArg queue h : _)
  rw [afterPush, afterPush, erase_logThroughput, trimQueueLocked, erase_trim, h, hqueue,
    ← erase_trim, ← trimQueueLocked, ← erase_logThroughput]

/-- Nor on where the worker is. -/
theorem afterPush_relocate (pc : Pc) (reconnectDelay : Int32) (stop gStop : Bool) :
    (s.relocate pc reconnectDelay stop gStop).afterPush options =
      (s.afterPush options).relocate pc reconnectDelay stop gStop := by
  have htrim : (s.relocate pc reconnectDelay stop gStop).trimQueueLocked options =
      (s.trimQueueLocked options).relocate pc reconnectDelay stop gStop := trim_relocate ..
  rw [afterPush, afterPush, htrim, logThroughput, logThroughput,
    apply_ite fun s : StreamSession => s.relocate pc reconnectDelay stop gStop]
  rfl

/-- One round of the loop of the trim. -/
theorem afterPush_cons {p : Payload} {ps : List Payload} (hq : s.queue = p :: ps)
    (h : s.queuedBytes > maxQueueBytes options) : (s.afterPush options).erase =
      (afterPush options { s with
        queue := ps
        queuedBytes := s.queuedBytes - p.size
        droppedBytes := s.droppedBytes + p.size }).erase := by
  obtain ⟨s', hs'⟩ : ∃ s' : StreamSession, s' = { s with
    queue := ps
    queuedBytes := s.queuedBytes - p.size
    droppedBytes := s.droppedBytes + p.size } := ⟨_, rfl⟩
  have hfront : { (s.trimFront p).erase with queue := ps } = s'.erase := hs' ▸ rfl
  have hqueue : s'.queue = ps := hs' ▸ rfl
  have htrim : (s.trimQueueLocked options).erase = (s'.trimQueueLocked options).erase := by
    rw [trimQueueLocked, hq, trim_cons, if_pos h, erase_trim,
      ← trim_queue options (s.trimFront p).erase ps ps, hfront, ← erase_trim, trimQueueLocked,
      hqueue]
  rw [← hs', afterPush, afterPush, erase_logThroughput, htrim, ← erase_logThroughput]

/-- The loop of the trim ends. -/
theorem afterPush_of_not (h : ¬(s.queuedBytes > maxQueueBytes options ∧ s.queue ≠ [])) :
    s.afterPush options = s.logThroughput options := by
  have htrim : s.trimQueueLocked options = s := by
    rw [trimQueueLocked]
    rcases hq : s.queue with _ | ⟨p, ps⟩
    · rw [trim, ← hq]
    · rw [trim, if_neg fun hb => h ⟨hb, by simp [hq]⟩, ← hq]
  rw [afterPush, htrim]

end StreamSession

namespace Process

open Monitor

/-! ### Sessions of the process -/

/-- The session of the model with these members. -/
def Members.toSession (m : Members) (gStop : Bool) (pc : Pc) : StreamSession where
  reconnectDelay := m.reconnectDelay
  reconnectJitterMs := m.reconnectJitterMs
  queue := m.queue
  stop := m.stop
  gStop
  total := m.total
  lastLog := m.lastLog
  queuedBytes := m.queuedBytes
  droppedBytes := m.droppedBytes
  pc
  arrivals := m.arrivals

/-- The place in the model. A message is popped when it is decided that it is. -/
def Worker.pc (queue : List Payload) : Worker → Pc
  | .unborn | .run | .awakeUnlock => .run
  | .source => .source
  | .stream => .stream
  | .lock | .test | .sleep | .asleep | .tested => .waiting
  | .pop => (queue.head?.map Pc.writing).getD .waiting
  | .popped p | .popUnlock p | .writing p => .writing p
  | .leave | .returned => .returned
  | .caught => .caught
  | .clearLock | .clear => .clearing
  | .clearing _ | .cleared _ | .discarded _ | .clearUnlock | .backoff => .backoff
  | .backoffLock | .backoffTest | .backoffSleep | .sleeping | .expired | .awake => .sleeping
  | .exiting | .exited => .exited

/-- What the worker has still to do in its section. -/
def Worker.finish (s : StreamSession) : Worker → StreamSession
  | .pop => { s with
      queue := s.queue.tail
      queuedBytes := s.queuedBytes - (s.queue.head?.map Payload.size).getD 0 }
  | .popped p => { s with queuedBytes := s.queuedBytes - p.size }
  | .clearing n => { s with
      queue := []
      queuedBytes := 0
      droppedBytes := s.droppedBytes + s.queue.foldl (fun n p => n + p.size) n }
  | .cleared n => { s with queuedBytes := 0, droppedBytes := s.droppedBytes + n }
  | .discarded n => { s with droppedBytes := s.droppedBytes + n }
  | _ => s

/-- What a delivery has still to do in its section. -/
def Delivery.finish (options : Options) (s : StreamSession) : Delivery → StreamSession
  | .queuedBytes p => StreamSession.afterPush options
      { s with queuedBytes := s.queuedBytes + p.size, total := s.total + p.size }
  | .total p => StreamSession.afterPush options { s with total := s.total + p.size }
  | .trim => s.afterPush options
  | .trimDropped => StreamSession.afterPush options { s with
      queue := s.queue.tail
      queuedBytes := s.queuedBytes - (s.queue.head?.map Payload.size).getD 0
      droppedBytes := s.droppedBytes + (s.queue.head?.map Payload.size).getD 0 }
  | .trimQueued => StreamSession.afterPush options { s with
      queue := s.queue.tail
      queuedBytes := s.queuedBytes - (s.queue.head?.map Payload.size).getD 0 }
  | .trimPop => StreamSession.afterPush options { s with queue := s.queue.tail }
  | .log => s.logThroughput options
  | _ => s

/-! ### Moving on -/

section Moves

variable {n : ℕ} {options : Options} {i : Fin n} {d d' : Shared n} {k k' : Worker}
  {l l' : Delivery} {t t' : StreamSession}

/-- Finishing a critical section does not depend on where the worker is. -/
theorem Worker.finish_relocate (s : StreamSession) (k : Worker) (pc : Pc) (reconnectDelay : Int32)
    (stop gStop : Bool) : finish (s.relocate pc reconnectDelay stop gStop) k =
      (finish s k).relocate pc reconnectDelay stop gStop := by
  cases k <;> rfl

/-- The same for one of the delivery. -/
theorem Delivery.finish_relocate (options : Options) (s : StreamSession) (l : Delivery) (pc : Pc)
    (reconnectDelay : Int32) (stop gStop : Bool) :
    finish options (s.relocate pc reconnectDelay stop gStop) l =
      (finish options s l).relocate pc reconnectDelay stop gStop := by
  have hlog : (s.relocate pc reconnectDelay stop gStop).logThroughput options =
      (s.logThroughput options).relocate pc reconnectDelay stop gStop := by
    rw [StreamSession.logThroughput, StreamSession.logThroughput,
      apply_ite fun s : StreamSession => s.relocate pc reconnectDelay stop gStop]
    rfl
  cases l with
  | idle | lock | push | unlock | notify => rfl
  | log => exact hlog
  | queuedBytes p =>
    exact StreamSession.afterPush_relocate options
      { s with queuedBytes := s.queuedBytes + p.size, total := s.total + p.size } ..
  | total p =>
    exact StreamSession.afterPush_relocate options { s with total := s.total + p.size } ..
  | trim => exact StreamSession.afterPush_relocate options s ..
  | trimDropped =>
    exact StreamSession.afterPush_relocate options { s with
      queue := s.queue.tail
      queuedBytes := s.queuedBytes - (s.queue.head?.map Payload.size).getD 0
      droppedBytes := s.droppedBytes + (s.queue.head?.map Payload.size).getD 0 } ..
  | trimQueued =>
    exact StreamSession.afterPush_relocate options { s with
      queue := s.queue.tail
      queuedBytes := s.queuedBytes - (s.queue.head?.map Payload.size).getD 0 } ..
  | trimPop => exact StreamSession.afterPush_relocate options { s with queue := s.queue.tail } ..

/-- The session of the model at these places. -/
def abstract (options : Options) (i : Fin n) (d : Shared n) (k : Worker) (l : Delivery) :
    StreamSession :=
  (Delivery.finish options
    (Worker.finish ((d.session i).toSession d.gStop (Worker.pc (d.session i).queue k)) k) l).erase

/-- The session `t` of the model does what the session `i` of the process does. -/
structure Follows (options : Options) (i : Fin n) (d : Shared n) (k : Worker) (l : Delivery)
    (t : StreamSession) : Prop where
  state : t.erase = abstract options i d k l
  written : t.written = (d.session i).written

/-- What does not concern the queue moves the session of the model to another place. -/
theorem abstract_relocate (options : Options) (l : Delivery)
    (hfinish : ∀ s, Worker.finish s k' = Worker.finish s k) {reconnectDelay : Int32}
    {stop gStop : Bool} (hd : ∀ pc pc', (d'.session i).toSession d'.gStop pc' =
      ((d.session i).toSession d.gStop pc).relocate pc' reconnectDelay stop gStop) :
    abstract options i d' k' l = (abstract options i d k l).relocate
      (Worker.pc (d'.session i).queue k') reconnectDelay stop gStop := by
  rw [abstract, hd (Worker.pc (d.session i).queue k), hfinish, Worker.finish_relocate,
    Delivery.finish_relocate]
  rfl

/-- What the session of the model knows of the place and the flags. -/
theorem abstract_self (options : Options) (i : Fin n) (d : Shared n) (k : Worker) (l : Delivery) :
    abstract options i d k l = (abstract options i d k l).relocate
      (Worker.pc (d.session i).queue k) (d.session i).reconnectDelay (d.session i).stop d.gStop :=
  abstract_relocate options l (fun _ => rfl) fun _ _ => rfl

theorem Follows.pc (h : Follows options i d k l t) : t.pc = Worker.pc (d.session i).queue k :=
  (congrArg StreamSession.pc (h.state.trans (abstract_self options i d k l)) : _)

theorem Follows.reconnectDelay (h : Follows options i d k l t) :
    t.reconnectDelay = (d.session i).reconnectDelay :=
  (congrArg StreamSession.reconnectDelay (h.state.trans (abstract_self options i d k l)) : _)

theorem Follows.stop (h : Follows options i d k l t) : t.stop = (d.session i).stop :=
  (congrArg StreamSession.stop (h.state.trans (abstract_self options i d k l)) : _)

theorem Follows.gStop (h : Follows options i d k l t) : t.gStop = d.gStop :=
  (congrArg StreamSession.gStop (h.state.trans (abstract_self options i d k l)) : _)

theorem Follows.stopping (h : Follows options i d k l t) : t.stopping = d.stopping i := by
  rw [StreamSession.stopping, h.stop, h.gStop, Shared.stopping]

/-- The model need not move. -/
theorem Follows.stutter (h : Follows options i d k l t)
    (hpc : Worker.pc (d.session i).queue k' = Worker.pc (d.session i).queue k)
    (hfinish : ∀ s, Worker.finish s k' = Worker.finish s k) : Follows options i d k' l t :=
  ⟨h.state.trans (by rw [abstract, abstract, hpc, hfinish]), h.written⟩

/-- The model moves to another place. -/
theorem Follows.move (h : Follows options i d k l t)
    (hfinish : ∀ s, Worker.finish s k' = Worker.finish s k) (reconnectDelay : Int32)
    (stop gStop : Bool) (hd : ∀ pc pc', (d'.session i).toSession d'.gStop pc' =
      ((d.session i).toSession d.gStop pc).relocate pc' reconnectDelay stop gStop)
    (ht : t'.erase = t.erase.relocate (Worker.pc (d'.session i).queue k') reconnectDelay stop gStop)
    (hw : t'.written = (d'.session i).written) : Follows options i d' k' l t' :=
  ⟨by rw [ht, h.state, abstract_relocate options l hfinish hd], hw⟩

/-- A step of the worker outside of its critical sections is one of the model. -/
theorem Follows.goto (h : Follows options i d k l t)
    (hfinish : ∀ s, Worker.finish s k' = Worker.finish s k)
    (ht : t'.erase = { t.erase with pc := Worker.pc (d.session i).queue k' })
    (hw : t'.written = t.written) : Follows options i d k' l t' := by
  refine h.move hfinish _ _ _ (fun _ _ => rfl) (ht.trans ?_) (hw.trans h.written)
  rw [← h.reconnectDelay, ← h.stop, ← h.gStop]
  rfl

/-- The model moves to another place, with another delay before the next attempt. -/
theorem Follows.delay (h : Follows options i d k l t) {f : Members → Members}
    {reconnectDelay : Int32} (hf : f (d.session i) = { d.session i with reconnectDelay })
    (hfinish : ∀ s, Worker.finish s k' = Worker.finish s k)
    (ht : t'.erase = { t.erase with pc := Worker.pc (d.session i).queue k', reconnectDelay })
    (hw : t'.written = t.written) : Follows options i (d.modify i f) k' l t' := by
  refine h.move hfinish reconnectDelay (d.session i).stop d.gStop (fun _ _ => ?_) (ht.trans ?_) ?_
  · rw [Shared.session_modify_self, hf]
    rfl
  · rw [Shared.session_modify_self, hf, ← h.stop, ← h.gStop]
    rfl
  · rw [hw, h.written, Shared.session_modify_self, hf]

/-- What the process records in members that the model does not have. -/
theorem Follows.keep (h : Follows options i d k l t)
    (hfinish : ∀ s, Worker.finish s k' = Worker.finish s k)
    (hpc : Worker.pc (d.session i).queue k' = Worker.pc (d.session i).queue k)
    {f : Members → Members} (hf : ∀ m gStop pc, (f m).toSession gStop pc = m.toSession gStop pc)
    (hw : ∀ m, (f m).written = m.written) : Follows options i (d.modify i f) k' l t := by
  have hqueue : (f (d.session i)).queue = (d.session i).queue :=
    congrArg StreamSession.queue (hf (d.session i) d.gStop .run)
  refine h.move hfinish t.reconnectDelay t.stop t.gStop (fun _ _ => ?_) ?_ ?_
  · rw [Shared.session_modify_self, hf, h.reconnectDelay, h.stop, h.gStop]
    rfl
  · rw [Shared.session_modify_self, hqueue, hpc, ← h.pc]
    rfl
  · rw [h.written, Shared.session_modify_self, hw]

/-- Outside of a critical section, there is nothing to finish. -/
theorem Delivery.finish_of_unlocked (s : StreamSession) (hl : l.locked = false) :
    Delivery.finish options s l = s := by
  cases l <;> first | rfl | cases hl

theorem Worker.finish_of_unlocked (s : StreamSession) (hk : k.locked = false) :
    Worker.finish s k = s := by
  cases k <;> first | rfl | cases hk

/-- A worker in its section has the session for itself. -/
theorem Follows.state_of_unlocked (h : Follows options i d k l t) (hl : l.locked = false) :
    t.erase = (Worker.finish
      ((d.session i).toSession d.gStop (Worker.pc (d.session i).queue k)) k).erase := by
  rw [h.state, abstract, Delivery.finish_of_unlocked _ hl]

/-- Where the delivery holds no lock, only the worker has to be followed. -/
theorem follows_of_unlocked (hl : l.locked = false)
    (ht : t.erase = (Worker.finish
      ((d.session i).toSession d.gStop (Worker.pc (d.session i).queue k)) k).erase)
    (hw : t.written = (d.session i).written) : Follows options i d k l t :=
  ⟨by rw [ht, abstract, Delivery.finish_of_unlocked _ hl], hw⟩

/-- What a worker does in its section leaves the session of the model as it is. -/
theorem Follows.inside (h : Follows options i d k l t) (hl : l.locked = false)
    {f : Members → Members} (hw : ∀ m, (f m).written = m.written)
    (hf : (Worker.finish
        ((f (d.session i)).toSession d.gStop (Worker.pc (f (d.session i)).queue k')) k').erase =
      (Worker.finish
        ((d.session i).toSession d.gStop (Worker.pc (d.session i).queue k)) k).erase) :
    Follows options i (d.modify i f) k' l t := by
  refine follows_of_unlocked hl ?_ ?_
  · rw [Shared.session_modify_self, Shared.gStop_modify, hf, h.state_of_unlocked hl]
  · rw [Shared.session_modify_self, hw, h.written]

/-! ### The worker -/

theorem written_record (s : StreamSession) {a : Act} (h : a.asWrote = none) :
    (s.record a).written = s.written := by
  rw [StreamSession.written, StreamSession.record, List.filterMap_append,
    List.filterMap_cons_none h]
  exact List.append_nil _

/-- The message that a worker is about to pop is popped. -/
theorem Follows.take (h : Follows options i d .tested l t) (hl : l.locked = false) {p : Payload}
    {ps : List Payload} (hq : (d.session i).queue = p :: ps) : Follows options i d .pop l
      ({ t with queue := ps, pc := .writing p }.subQueuedBytes p.size) := by
  have hstate := h.state_of_unlocked hl
  refine follows_of_unlocked hl ?_ h.written
  rw [Members.toSession, hq] at hstate ⊢
  exact congrArg (fun s : StreamSession => { s with
    queue := ps
    queuedBytes := s.queuedBytes - p.size
    pc := .writing p }) hstate

/-- The queue that a worker is about to clear is cleared. -/
theorem Follows.clear (h : Follows options i d .clear l t) (hl : l.locked = false)
    (hk : k' = if (d.session i).queue = [] then .clearUnlock else .clearing 0) :
    Follows options i d k' l ({ t.clearQueueLocked with pc := .backoff }.record .cleared) := by
  have hstate := h.state_of_unlocked hl
  have hqueue : t.queue = (d.session i).queue := congrArg StreamSession.queue hstate
  have hkinds := (StreamSession.kinds_clear t).1
  split_ifs at hk with hq
  · subst hk
    refine h.goto (fun _ => rfl) ?_ hkinds
    rw [StreamSession.clearQueueLocked, if_pos (hqueue.trans hq)]
    rfl
  · subst hk
    refine follows_of_unlocked hl ?_ (hkinds.trans h.written)
    rw [StreamSession.clearQueueLocked, if_neg (hqueue ▸ hq)]
    exact congrArg (fun s : StreamSession => { s with
      queue := []
      queuedBytes := 0
      droppedBytes := s.droppedBytes + s.queue.foldl (fun n (p : Payload) => n + p.size) 0
      pc := .backoff }) hstate

/-- The model follows a worker. A message that it takes is popped at once, and a clear that
    finds the queue not empty is done at once. -/
theorem follows_worker (h : Follows options i d k l t) (hg : Worker.Goes options i d k d' k')
    (hlock : k.locked = true → l.locked = false)
    (htested : k = .tested → d.stopping i = false → (d.session i).queue ≠ []) :
    Follows options i d' k' l t ∨
      ∃ e t', t.step options e = some t' ∧ Follows options i d' k' l t' := by
  have hpc := h.pc
  have hst := h.stopping
  have hstep {b : Bool} {t' : StreamSession} (ht : t.workerStep options b = some t')
      (ht' : Follows options i d' k' l t') : ∃ e t', t.step options e = some t' ∧
        Follows options i d' k' l t' := ⟨.worker b, t', ht, ht'⟩
  cases hg with
  | start | lock | found | sleep | asleep | woken | popUnlock | leave | clearLock | clearUnlock
  | backoffLock | backoffStop | backoffSleep | sleeping | sleepWoken | sleepExpired | expired
  | awakeUnlock =>
    -- What takes or leaves a mutex, or falls asleep, is no step of the model.
    exact .inl (h.stutter rfl fun _ => rfl)
  | connect hno | stream hno | recover hno =>
    rw [hno] at hst
    refine .inr (hstep (b := true) (by rw [StreamSession.workerStep, hpc]; rfl) ?_)
    refine h.goto (fun _ => rfl) ?_ rfl
    rw [hst]
    rfl
  | exit hyes | streamLeft hyes | giveUp hyes =>
    rw [hyes] at hst
    refine .inr (hstep (b := true) (by rw [StreamSession.workerStep, hpc]; rfl) ?_)
    refine h.goto (fun _ => rfl) ?_ rfl
    rw [hst]
    rfl
  | tell hyes =>
    rw [hyes] at hst
    refine .inr (hstep (b := true) (by rw [StreamSession.workerStep, hpc]; exact if_pos hst) ?_)
    exact h.goto (fun _ => rfl) rfl rfl
  | connected =>
    refine .inr (hstep (b := true) (by rw [StreamSession.workerStep, hpc]; rfl) ?_)
    exact h.goto (fun _ => rfl) rfl (written_record _ rfl)
  | sourceFailed =>
    refine .inr (hstep (b := false) (by rw [StreamSession.workerStep, hpc]; rfl) ?_)
    exact h.goto (fun _ => rfl) rfl (written_record _ rfl)
  | take hno =>
    -- The model takes the message as soon as the wait is over, while the process still has to.
    obtain ⟨p, ps, hq⟩ := List.exists_cons_of_ne_nil (htested rfl hno)
    have htq : t.queue = p :: ps :=
      (congrArg StreamSession.queue (h.state_of_unlocked (hlock rfl)) : _).trans hq
    rw [hno] at hst
    refine .inr (hstep (b := true) ?_ (h.take (hlock rfl) hq))
    simp only [StreamSession.workerStep, hpc, Worker.pc, hst, htq]
    rfl
  | pop p queue hq =>
    -- Within the critical section, of which the model has made one step.
    refine .inl (h.inside (hlock rfl) (fun _ => rfl) ?_)
    rw [Members.toSession, Members.toSession, hq]
    rfl
  | popped p => exact .inl (h.inside (hlock rfl) (fun _ => rfl) rfl)
  | wrote p =>
    refine .inr (hstep (b := true) (by rw [StreamSession.workerStep, hpc]; rfl) ?_)
    refine h.move (fun _ => rfl) t.reconnectDelay t.stop t.gStop (fun _ _ => ?_) ?_ ?_
    · rw [Shared.session_modify_self, h.reconnectDelay, h.stop, h.gStop]
      rfl
    · rfl
    · rw [Shared.session_modify_self, ← h.written]
      exact List.filterMap_append
  | writeFailed p =>
    refine .inr (hstep (b := false) (by rw [StreamSession.workerStep, hpc]; rfl) ?_)
    exact h.goto (fun _ => rfl) rfl (written_record _ rfl)
  | reset =>
    refine .inr (hstep (b := true) (by rw [StreamSession.workerStep, hpc]; rfl) ?_)
    exact h.delay rfl (fun _ => rfl) rfl rfl
  | clearNothing hq =>
    -- The model clears the whole queue when the loop begins, also one that is empty.
    refine .inr (hstep (b := true) ?_ (h.clear (hlock rfl) (by rw [if_pos hq])))
    rw [StreamSession.workerStep, hpc]
    rfl
  | clear hq =>
    refine .inr (hstep (b := true) ?_ (h.clear (hlock rfl) (by rw [if_neg hq])))
    rw [StreamSession.workerStep, hpc]
    rfl
  | clearing c p queue hq =>
    -- A pass of the loop: the rest is still to be discarded when the section is finished.
    refine .inl (h.inside (hlock rfl) (fun _ => rfl) ?_)
    rw [Members.toSession, Members.toSession, hq]
    rfl
  | cleared c hq =>
    refine .inl (follows_of_unlocked (hlock rfl) ((h.state_of_unlocked (hlock rfl)).trans ?_)
      h.written)
    rw [Members.toSession, Members.toSession, hq]
    rfl
  | discard c => exact .inl (h.inside (hlock rfl) (fun _ => rfl) rfl)
  | discarded c => exact .inl (h.inside (hlock rfl) (fun _ => rfl) rfl)
  | backoff =>
    refine .inr (hstep (b := true) (by rw [StreamSession.workerStep, hpc]; rfl) ?_)
    exact h.goto (fun _ => rfl) rfl (written_record _ rfl)
  | awake =>
    refine .inr (hstep (b := true) (by rw [StreamSession.workerStep, hpc]; rfl) ?_)
    refine h.delay rfl (fun _ => rfl) ?_ rfl
    rw [← h.reconnectDelay]
    rfl
  | ended =>
    refine .inl (h.keep ?_ ?_ ?_ ?_)
    · exact fun _ => rfl
    · rfl
    · exact fun _ _ _ => rfl
    · exact fun _ => rfl

/-! ### The deliveries -/

theorem Worker.pc_of_unlocked (hk : k.locked = false) (queue queue' : List Payload) :
    Worker.pc queue k = Worker.pc queue' k := by
  cases k <;> first | rfl | cases hk

/-- A delivery in its section has the session for itself. -/
theorem Follows.state_of_unlocked_worker (h : Follows options i d k l t) (hk : k.locked = false) :
    t.erase = (Delivery.finish options
      ((d.session i).toSession d.gStop (Worker.pc (d.session i).queue k)) l).erase := by
  rw [h.state, abstract, Worker.finish_of_unlocked _ hk]

/-- What a delivery does, seen from the model, if the worker is not in its section. -/
theorem follows_of_unlocked_worker (hk : k.locked = false) {f : Members → Members}
    (ht : t.erase = (Delivery.finish options
      ((f (d.session i)).toSession d.gStop (Worker.pc (d.session i).queue k)) l').erase)
    (hw : t.written = (f (d.session i)).written) : Follows options i (d.modify i f) k l' t := by
  refine ⟨?_, ?_⟩
  · rw [ht, abstract, Worker.finish_of_unlocked _ hk, Shared.session_modify_self,
      Worker.pc_of_unlocked hk (f (d.session i)).queue (d.session i).queue]
    rfl
  · rw [hw, Shared.session_modify_self]

/-- What a delivery does in its section leaves the session of the model as it is. -/
theorem Follows.inside_delivery (h : Follows options i d k l t) (hk : k.locked = false)
    {f : Members → Members} (hw : (f (d.session i)).written = (d.session i).written)
    (hf : ∀ pc, (Delivery.finish options ((f (d.session i)).toSession d.gStop pc) l').erase =
      (Delivery.finish options ((d.session i).toSession d.gStop pc) l).erase) :
    Follows options i (d.modify i f) k l' t := by
  refine follows_of_unlocked_worker hk ?_ (h.written.trans hw.symm)
  rw [hf, h.state_of_unlocked_worker hk]

/-- A step within a critical section of the delivery is none of the model. -/
theorem Follows.stutter_delivery (h : Follows options i d k l t)
    (hf : ∀ pc, (Delivery.finish options
        (Worker.finish ((d.session i).toSession d.gStop pc) k) l').erase =
      (Delivery.finish options (Worker.finish ((d.session i).toSession d.gStop pc) k) l).erase) :
    Follows options i d k l' t :=
  ⟨h.state.trans (by rw [abstract, abstract, hf]), h.written⟩

/-- The model follows a delivery: the message arrives when it is pushed, and the queue is
    trimmed at once. -/
theorem follows_delivery (h : Follows options i d k l t) (hg : Delivery.Goes options i d l d' l')
    (hlock : l.locked = true → k.locked = false)
    (hsize : ∀ data, l = .push data → 0 < data.length ∧ data.length < 2 ^ 31) :
    Follows options i d' k l' t ∨
      ∃ e t', t.step options e = some t' ∧ Follows options i d' k l' t' := by
  cases hg with
  | arrive | ignore | lock | unlock | notify => exact .inl (h.stutter_delivery fun _ => rfl)
  | push data =>
    -- The step of the model: the push, with all that follows of it in the critical section.
    obtain ⟨hpos, hlen⟩ := hsize data rfl
    have hk := hlock rfl
    refine .inr ⟨.arrive data, t.enqueue options data, ?_, follows_of_unlocked_worker hk ?_ ?_⟩
    · rw [StreamSession.step, if_pos hlen, StreamSession.onNatsMsg, if_pos hpos]
    · have hpush : (t.push data).erase = (t.erase.push data).erase := rfl
      rw [h.state_of_unlocked_worker hk] at hpush
      exact StreamSession.erase_afterPush_congr options hpush
    · exact (StreamSession.kinds_enqueue options t data).1.trans h.written
  | queuedBytes p | total p => exact .inl (h.inside_delivery (hlock rfl) rfl fun _ => rfl)
  | trim hgt hq =>
    -- A pass of the loop, which the finished section has as well.
    obtain ⟨p, ps, hq⟩ := List.exists_cons_of_ne_nil hq
    refine .inl (h.stutter_delivery fun pc => ?_)
    rw [Worker.finish_of_unlocked _ (hlock rfl)]
    refine ((StreamSession.afterPush_cons options ((d.session i).toSession d.gStop pc) hq
      hgt).trans ?_).symm
    rw [Members.toSession, hq]
    rfl
  | trimmed hle =>
    refine .inl (h.stutter_delivery fun pc => ?_)
    rw [Worker.finish_of_unlocked _ (hlock rfl)]
    exact congrArg StreamSession.erase (StreamSession.afterPush_of_not options
      ((d.session i).toSession d.gStop pc) hle).symm
  | trimDropped p queue hq | trimQueued p queue hq =>
    refine .inl (h.inside_delivery (hlock rfl) rfl fun _ => ?_)
    rw [Members.toSession, Members.toSession, hq]
    rfl
  | trimPop => exact .inl (h.inside_delivery (hlock rfl) rfl fun _ => rfl)
  | log =>
    refine .inl (h.inside_delivery (hlock rfl) ?_ fun _ => ?_)
    · split_ifs <;> rfl
    · split_ifs with hlog
      · exact congrArg StreamSession.erase (if_pos hlog).symm
      · exact congrArg StreamSession.erase (if_neg hlog).symm

/-! ### The other threads -/

/-- A worker that is woken up stays at its place in the model. -/
theorem Follows.woken (h : Follows options i d k l t) (hk : k' = k ∨
    k = .asleep ∧ k' = .lock ∨ k = .sleeping ∧ k' = .backoffLock) :
    Follows options i d k' l t := by
  rcases hk with rfl | ⟨rfl, rfl⟩ | ⟨rfl, rfl⟩
  · exact h
  · exact h.stutter rfl fun _ => rfl
  · exact h.stutter rfl fun _ => rfl

/-- What does not concern the session does not concern the model. -/
theorem Follows.frame (h : Follows options i d k l t) (hg : d'.gStop = d.gStop)
    (hs : d'.session i = d.session i) : Follows options i d' k l t :=
  ⟨by rw [h.state, abstract, abstract, hg, hs], by rw [h.written, hs]⟩

/-- The model follows `main`, of which it only sees that it stops the session. -/
theorem follows_main {m m' : Main n} (h : Follows options i d k l t) (hg : Main.Goes d m d' m') :
    Follows options i d' k l t ∨
      ∃ e t', t.step options e = some t' ∧ Follows options i d' k l t' := by
  -- Flags that the model does not have.
  have hkeep {j : Fin n} {f : Members → Members}
      (hf : ∀ m gStop pc, (f m).toSession gStop pc = m.toSession gStop pc)
      (hw : ∀ m, (f m).written = m.written) : Follows options i (d.modify j f) k l t := by
    by_cases hj : i = j
    · subst hj
      exact h.keep (fun _ => rfl) rfl hf hw
    · exact h.frame rfl (Shared.session_modify_of_ne d hj f)
  cases hg with
  | started j | spawned j | destroy j | unsubscribe j =>
    exact .inl (hkeep (fun _ _ _ => rfl) fun _ => rfl)
  | set j =>
    by_cases hj : i = j
    · subst hj
      refine .inr ⟨.stop, _, rfl, h.move (fun _ => rfl) t.reconnectDelay true t.gStop
        (fun _ _ => ?_) ?_ ?_⟩
      · rw [Shared.session_modify_self, h.reconnectDelay, h.gStop]
        rfl
      · rw [Shared.session_modify_self, ← h.pc]
        rfl
      · rw [Shared.session_modify_self]
        exact h.written
    · exact .inl (h.frame rfl (Shared.session_modify_of_ne d hj _))
  | _ => exact .inl h

/-- A signal of the process is one of the model. -/
theorem follows_signal (h : Follows options i d k l t) :
    ∃ e t', t.step options e = some t' ∧ Follows options i { d with gStop := true } k l t' := by
  refine ⟨.signal, _, rfl, h.move (fun _ => rfl) t.reconnectDelay t.stop true (fun _ _ => ?_) ?_
    h.written⟩
  · rw [h.reconnectDelay, h.stop]
    rfl
  · rw [← h.pc]
    rfl

end Moves

/-! ### The simulation -/

section Simulation

variable {n : ℕ} {options : Options} {hash : Fin n → UInt64} {i : Fin n} {t : Thread n}
  {s s' : State (Mutex n) (Shared n) (Place n)}

/-- What the threads of a session have seen before they go on. -/
structure Poised (i : Fin n) (s : State (Mutex n) (Shared n) (Place n)) : Prop where
  tested : s.place (.worker i) = Worker.tested → s.data.stopping i = false →
    (s.data.session i).queue ≠ []
  pushed : ∀ data : Bytes, s.place (.delivery i) = Delivery.lock data ∨
    s.place (.delivery i) = Delivery.push data → 0 < data.length ∧ data.length < 2 ^ 31

/-- The worker leaves its wait only if there is a message, or it is to stop. -/
theorem Worker.Goes.tested {k : Worker} {d d' : Shared n}
    (h : Worker.Goes options i d k d' .tested) :
    d'.stopping i = true ∨ (d'.session i).queue ≠ [] := by
  cases h with
  | found h => exact h

/-- A delivery goes on only with a message of a positive length, which fits an `int`. -/
theorem Delivery.Goes.sized {l l' : Delivery} {d d' : Shared n} {data : Bytes}
    (h : Delivery.Goes options i d l d' l') (hl : l' = .lock data ∨ l' = .push data) :
    l = .lock data ∨ 0 < data.length ∧ data.length < 2 ^ 31 := by
  rcases hl with rfl | rfl
  · cases h with
    | arrive _ _ hlen hpos => exact .inr ⟨hpos, hlen⟩
  · cases h with
    | lock => exact .inl rfl

/-- What they have seen stays so, whichever thread steps. -/
theorem poised_move (howned : Owned holds s) (h : Poised i s)
    (hm : (monitor options hash).Move s t s') : Poised i s' := by
  refine ⟨fun hk hst => ?_, fun data hl => ?_⟩
  · by_cases ht : .worker i = t
    · subst ht
      have hgoes : Worker.Goes options i s.data (s.place (.worker i)) s'.data
        (s'.place (.worker i)) := worker_goes hm.leads
      rw [hk] at hgoes
      exact hgoes.tested.resolve_left (by simp [hst])
    -- The worker has the mutex.
    · obtain ⟨hsame, hqueue⟩ := worker_section_kept howned hm ht (by rw [hk]; rfl)
      rw [hqueue]
      refine h.tested (hsame ▸ hk) (Bool.eq_false_iff.2 fun hst' => ?_)
      rw [stopping_mono hm.leads hst'] at hst
      cases hst
  · by_cases ht : .delivery i = t
    · subst ht
      have hgoes : Delivery.Goes options i s.data (s.place (.delivery i)) s'.data
        (s'.place (.delivery i)) := delivery_goes hm.leads
      rcases hgoes.sized hl with hl | hsize
      · exact h.pushed data (.inl hl)
      · exact hsize
    · rw [delivery_place hm ht] at hl
      exact h.pushed data hl

/-- So it holds in every reachable state. -/
theorem poised (h : (monitor options hash).automaton.Reachable s) (i : Fin n) : Poised i s := by
  suffices hinv : Owned holds s ∧ Poised i s from hinv.2
  refine h.invariant (P := fun s => Owned holds s ∧ Poised i s)
    ⟨disciplined.owner_iff ⟨[], .init⟩, fun hk => ?_, fun data hl => ?_⟩ ?_
  · cases hk
  · rcases hl with hl | hl <;> cases hl
  · intro s e s' ⟨howned, hp⟩ hstep
    have hm := move_of_step hstep
    exact ⟨disciplined.owned_move howned hm, poised_move howned hp hm⟩

/-- The worker and a delivery are not in their sections at the same time. -/
theorem not_both_locked (howned : Owned holds s) :
    ¬(Worker.locked (s.place (.worker i)) = true ∧
      Delivery.locked (s.place (.delivery i)) = true) := by
  rintro ⟨hk, hl⟩
  have hworker : .session i ∈ holds (.worker i) (s.place (.worker i)) := ⟨rfl, hk⟩
  have hdelivery : .session i ∈ holds (.delivery i) (s.place (.delivery i)) := ⟨rfl, hl⟩
  cases howned.unique hworker hdelivery

/-- The model follows any step of the process. -/
theorem follows_move {r : StreamSession} (howned : Owned holds s) (hpoised : Poised i s)
    (h : Follows options i s.data (s.place (.worker i)) (s.place (.delivery i)) r)
    (hm : (monitor options hash).Move s t s') :
    Follows options i s'.data (s'.place (.worker i)) (s'.place (.delivery i)) r ∨
      ∃ e r', r.step options e = some r' ∧
        Follows options i s'.data (s'.place (.worker i)) (s'.place (.delivery i)) r' := by
  have hboth := not_both_locked (i := i) howned
  -- Another thread leaves the delivery where it is, and at most wakes the worker.
  have hother {r' : StreamSession} (hk : .worker i ≠ t) (hl : .delivery i ≠ t)
      (h : Follows options i s'.data (s.place (.worker i)) (s.place (.delivery i)) r') :
      Follows options i s'.data (s'.place (.worker i)) (s'.place (.delivery i)) r' := by
    rw [delivery_place hm hl]
    exact h.woken (worker_place hm hk)
  cases t with
  | main =>
    refine (follows_main h (main_goes hm.leads)).imp (hother (by simp) (by simp)) ?_
    exact fun ⟨e, r', hr, h'⟩ => ⟨e, r', hr, hother (by simp) (by simp) h'⟩
  | signal =>
    rcases signal_goes hm.leads with ⟨-, hd, -⟩ | ⟨-, hd, -⟩
    · obtain ⟨e, r', hr, h'⟩ := follows_signal h
      exact .inr ⟨e, r', hr, hother (by simp) (by simp) (hd ▸ h')⟩
    · exact .inl (hother (by simp) (by simp) (hd ▸ h))
  | worker j =>
    have hgoes := worker_goes hm.leads
    by_cases hj : i = j
    · subst hj
      rw [delivery_place hm (by simp)]
      exact follows_worker h hgoes (fun hk => Bool.eq_false_iff.2 fun hl => hboth ⟨hk, hl⟩)
        hpoised.tested
    · exact .inl (hother (by simpa using hj) (by simp)
        (h.frame hgoes.frame.gStop (hgoes.frame.session i hj)))
  | delivery j =>
    have hgoes := delivery_goes hm.leads
    by_cases hj : i = j
    · subst hj
      refine (follows_delivery h hgoes (fun hl => Bool.eq_false_iff.2 fun hk => hboth ⟨hk, hl⟩)
        fun data hl => hpoised.pushed data (.inr hl)).imp (·.woken (worker_place hm (by simp))) ?_
      exact fun ⟨e, r', hr, h'⟩ => ⟨e, r', hr, h'.woken (worker_place hm (by simp))⟩
    · exact .inl (hother (by simp) (by simpa using hj)
        (h.frame hgoes.frame.gStop (hgoes.frame.session i hj)))

/-- **The sections are atomic.** Each session of the process behaves like the model of one
    session: the model answers every step of any thread by at most one step. -/
theorem sections_atomic (options : Options) (hash : Fin n → UInt64) (i : Fin n) :
    Automaton.Simulation (monitor options hash).automaton
      (StreamSession.automaton options (hash i)) fun s r =>
        Follows options i s.data (s.place (.worker i)) (s.place (.delivery i)) r where
  init := ⟨rfl, rfl⟩
  step hr h hstep :=
    follows_move (disciplined.owner_iff hr) (poised hr i) h (move_of_step hstep)

/-- As long as `mtx_` is free nothing is left of a section. -/
theorem Follows.erase_of_free {r : StreamSession}
    (hf : Follows options i s.data (s.place (.worker i)) (s.place (.delivery i)) r)
    (howned : Owned holds s) (hfree : s.owner (.session i) = none) : r.erase =
      (s.data.session i).toSession s.data.gStop (Worker.pc [] (s.place (.worker i))) := by
  have hfree' {t : Thread n} (hmem : .session i ∈ holds t (s.place t)) : False := by
    have := (howned _ t).2 hmem
    rw [hfree] at this
    cases this
  have hk : Worker.locked (s.place (.worker i)) = false :=
    Bool.eq_false_iff.2 fun hk => hfree' (t := .worker i) ⟨rfl, hk⟩
  have hl : Delivery.locked (s.place (.delivery i)) = false :=
    Bool.eq_false_iff.2 fun hl => hfree' (t := .delivery i) ⟨rfl, hl⟩
  rw [hf.state_of_unlocked hl, Worker.finish_of_unlocked _ hk, Worker.pc_of_unlocked hk _ []]
  rfl

/-- **The sessions are atomic.** For each session of a reachable state there is a reachable
    state of the model of one session, which has written the same messages; and as long as
    `mtx_` is free, it has the same members and its worker is at the same place. -/
theorem session_atomic (h : (monitor options hash).automaton.Reachable s) (i : Fin n) :
    ∃ r, (StreamSession.automaton options (hash i)).Reachable r ∧
      r.written = (s.data.session i).written ∧
      (s.owner (.session i) = none → r.erase =
        (s.data.session i).toSession s.data.gStop (Worker.pc [] (s.place (.worker i)))) := by
  obtain ⟨r, hr, hf⟩ := (sections_atomic options hash i).reachable h
  exact ⟨r, hr, hf.written, hf.erase_of_free (disciplined.owner_iff h)⟩

/-- **The queue of a session whose mutex is free.** Its counter is its size, within the
    bound, and it has the latest messages that have arrived; what has been written, and
    then what is in the queue, is in the order of the arrivals. -/
theorem free_session_consistent (h : (monitor options hash).automaton.Reachable s) (i : Fin n)
    (hfree : s.owner (.session i) = none) :
    (s.data.session i).queuedBytes.toNat = StreamSession.bytesOf (s.data.session i).queue ∧
      (s.data.session i).queuedBytes ≤ StreamSession.maxQueueBytes options ∧
      (s.data.session i).queue.map Payload.number <:+ List.range (s.data.session i).arrivals ∧
      (((s.data.session i).written ++ (s.data.session i).queue).map Payload.number).Pairwise
        (· < ·) := by
  obtain ⟨r, hr, hf⟩ := (sections_atomic options hash i).reachable h
  have hmembers := hf.erase_of_free (disciplined.owner_iff h) hfree
  have hqueue : r.queue = (s.data.session i).queue := congrArg StreamSession.queue hmembers
  have hbytes : r.queuedBytes = (s.data.session i).queuedBytes :=
    congrArg StreamSession.queuedBytes hmembers
  have harrivals : r.arrivals = (s.data.session i).arrivals :=
    congrArg StreamSession.arrivals hmembers
  -- With the mutex free, the session is the model's, of which the invariants are known.
  have hacc := StreamSession.accounted_of_reachable hr
  obtain ⟨gone, ho⟩ := StreamSession.ordered_of_reachable hr
  rw [← hqueue, ← hbytes, ← harrivals, ← hf.written]
  refine ⟨hacc.counted.bytes, ?_, ?_, ?_⟩
  · rw [UInt64.le_iff_toNat_le, hacc.counted.bytes]
    exact hacc.bound
  · rw [← ho.numbers, ho.split, List.map_append]
    exact List.suffix_append _ _
  · have hlt : (r.received.map Payload.number).Pairwise (· < ·) :=
      ho.numbers ▸ List.pairwise_lt_range
    rw [ho.split, List.map_append] at hlt
    rw [List.map_append, List.pairwise_append]
    refine ⟨ho.increasing, (List.pairwise_append.1 hlt).2.1, fun a ha b hb => ?_⟩
    obtain ⟨w, hw, rfl⟩ := List.mem_map.1 ha
    obtain ⟨p, hp, rfl⟩ := List.mem_map.1 hb
    exact ho.lt_of_gone (ho.mem_gone (.inl hw)) hp

/-- A session is started, its worker has fallen asleep, and a message has arrived. -/
def arrivedRun : List (Event (Thread 1) Input) :=
  [.run .main {}, .run .main {}] ++ List.replicate 7 (.run (.worker (.last 0)) {}) ++
    .run (.delivery (.last 0)) { data := [0xD3] } ::
      List.replicate 7 (.run (.delivery (.last 0)) {})

theorem session_atomic_arrivedRun : ∃ s r,
    (monitor {} fun _ : Fin 1 => 0).automaton.exec arrivedRun = some s ∧
      (StreamSession.automaton {} 0).Reachable r ∧ r.erase.queue = [⟨0, [0xD3]⟩] ∧
      r.erase.pc = .waiting := by
  obtain ⟨s, hs⟩ : ∃ s, (monitor {} fun _ : Fin 1 => 0).automaton.exec arrivedRun = some s :=
    ⟨_, rfl⟩
  obtain ⟨r, hr, -, hfree⟩ := session_atomic (Automaton.reachable_of_exec hs) 0
  refine ⟨s, r, hs, hr, ?_⟩
  cases hs
  rw [hfree rfl]
  exact ⟨rfl, rfl⟩

theorem free_session_consistent_arrivedRun : ∃ s,
    (monitor {} fun _ : Fin 1 => 0).automaton.exec arrivedRun = some s ∧
      s.owner (.session 0) = none ∧ (s.data.session 0).queue = [⟨0, [0xD3]⟩] ∧
      (s.data.session 0).queuedBytes.toNat = StreamSession.bytesOf (s.data.session 0).queue :=
  have h := Automaton.reachable_of_exec
    (show (monitor {} fun _ : Fin 1 => 0).automaton.exec arrivedRun = some _ from rfl)
  ⟨_, rfl, rfl, rfl, (free_session_consistent h 0 rfl).1⟩

end Simulation

end Process

end RtcmBridge.Nats2Ntrip

import RtcmBridge.Logger.Basic

/-!
# The logger loses nothing

What was pushed is what has been emitted, what the worker has in its hands and what is
in the queue, in this order (`Queued`). From the last test of the queue on, which found
it empty, the worker keeps the mutex until it returns: what was pushed before `stop_`
was set has been emitted then (`emitted_of_returned`).
-/

namespace RtcmBridge.Logger

variable {ι : Type*}

/-- What has happened to the entries. -/
structure History where
  pushed : List Entry := []
  emitted : List Entry := []
  /-- Those whose `enqueue` has returned. -/
  completed : List Entry := []
  /-- Those whose `enqueue` had returned when `stop_` was set. -/
  beforeStop : List Entry := []

/-- The entry that the next step of the worker emits. -/
@[simp]
def Worker.emits : Worker → List Entry
  | .emitting e => [e]
  | _ => []

/-- The history after the next event. -/
def record (h : History) (l : Logger ι) (e : Event ι) (_ : Logger ι) : History :=
  match e with
  | .run => { h with emitted := h.emitted ++ l.worker.emits }
  | .push i => { h with pushed := h.pushed ++ (l.next i).toList }
  | .notifyOne i => { h with completed := h.completed ++ (l.producers i).notifying.toList }
  | .setStop => { h with beforeStop := h.completed }
  | _ => h

/-- The logger with what has happened to its entries. -/
def recorded [DecidableEq ι] (calls : ι → List Entry) : Automaton (Logger ι × History) (Event ι) :=
  (automaton calls).track {} record

/-! ## Pushes -/

/-- The entry popped and not yet emitted. -/
@[simp]
def Worker.inHand : Worker → List Entry
  | .popped e | .emitting e => [e]
  | _ => []

/-- The entries pushed are different ones, and the others are among them. -/
structure Pushed (l : Logger ι) (h : History) : Prop where
  numbered : h.pushed.map Entry.number = List.range l.pushes
  notifying : ∀ i, ∀ e ∈ (l.producers i).notifying, e ∈ h.pushed
  completed : ∀ e ∈ h.completed, e ∈ h.pushed
  beforeStop : ∀ e ∈ h.beforeStop, e ∈ h.pushed

theorem pushed_init (producers : ι → List Entry) :
    Pushed { producers := fun i => ⟨producers i, none⟩ } {} :=
  ⟨rfl, by simp, by simp, by simp⟩

/-- No entry is pushed twice. -/
theorem Pushed.nodup {l : Logger ι} {h : History} (hp : Pushed l h) : h.pushed.Nodup :=
  List.Nodup.of_map _ (hp.numbered ▸ List.nodup_range)

/-- Where the entries pushed are. -/
structure Queued (l : Logger ι) (h : History) : Prop where
  all : h.emitted ++ l.worker.inHand ++ l.q = h.pushed
  drained : l.worker = .stopTest → l.q = []
  finished : l.worker = .leaving ∨ l.worker = .returned →
    l.stop = true ∧ ∀ e ∈ h.beforeStop, e ∈ h.emitted

theorem queued_init (producers : ι → Producer) : Queued { producers := producers } {} :=
  ⟨rfl, by simp, by simp⟩

section Step

variable {l l' : Logger ι} {h : History} {e : Event ι}

/-- A notification takes nothing out of the worker's hands. -/
theorem Queued.wake (hq : Queued l h) : Queued { l with worker := l.worker.wake } h := by
  by_cases hw : l.worker = .asleep
  · have hall := hq.all
    rw [hw] at hall
    rw [hw]
    exact ⟨hall, by simp [Worker.wake], by simp [Worker.wake]⟩
  · have : l.worker.wake = l.worker := by
      rw [Worker.wake]
      exact hw
    rw [this]
    exact hq

variable [DecidableEq ι]

/-- A step of any thread keeps the record of the pushes. -/
theorem Pushed.step (hp : Pushed l h) (hs : l.step e = some l') :
    Pushed l' (record h l e l') := by
  cases e with
  | run =>
    rw [run_frame hs]
    exact ⟨hp.numbered, hp.notifying, hp.completed, hp.beforeStop⟩
  | push i =>
    -- The entry is pushed, and its producer is about to notify.
    have hnotifying (j : ι) := notifying_push (j := j) hs
    obtain ⟨e, he, -, rfl⟩ := push_cases hs
    rw [record, he]
    refine ⟨?_, fun j e' hj => ?_, fun e' he' => List.mem_append_left _ (hp.completed e' he'),
      fun e' he' => List.mem_append_left _ (hp.beforeStop e' he')⟩
    · rw [Option.toList_some, List.map_append, hp.numbered, List.map_singleton, number_next he,
        List.range_succ]
    · rw [hnotifying, he] at hj
      split_ifs at hj
      · exact List.mem_append_right _ (Option.mem_toList.2 hj)
      · exact List.mem_append_left _ (hp.notifying j e' hj)
  | notifyOne i =>
    -- The call returns, so its entry counts as completed.
    have hnotifying (j : ι) := notifying_notifyOne (j := j) hs
    obtain ⟨e, he, rfl⟩ := notifyOne_cases hs
    rw [record, he]
    refine ⟨hp.numbered, fun j e' hj => ?_, fun e' he' => ?_, hp.beforeStop⟩
    · rw [hnotifying] at hj
      split_ifs at hj
      · cases hj
      · exact hp.notifying j e' hj
    · rcases List.mem_append.1 he' with he' | he'
      · exact hp.completed e' he'
      · rw [List.mem_singleton.1 he']
        exact hp.notifying i e he
  | setStop =>
    obtain ⟨-, rfl⟩ := guard_cases hs
    exact ⟨hp.numbered, hp.notifying, hp.completed, hp.completed⟩
  | _ =>
    obtain ⟨-, rfl⟩ := guard_cases hs
    exact ⟨hp.numbered, hp.notifying, hp.completed, hp.beforeStop⟩

/-- What has been pushed is emitted, or is still in the queue. -/
theorem Queued.step (hp : Pushed l h) (hq : Queued l h) (hset : l.StopSet)
    (hs : l.step e = some l') : Queued l' (record h l e l') := by
  cases e with
  | run =>
    have hall := hq.all
    rw [record]
    change l.run = some l' at hs
    rw [run] at hs
    cases hw : l.worker <;> rw [hw] at hs hall
    case drain =>
      cases hl : l.q <;> rw [hl] at hs hall <;> obtain rfl := Option.some.inj hs
      · exact ⟨by simpa using hall, fun _ => rfl, by simp⟩
      · exact ⟨by simpa using hall, by simp, by simp⟩
    case asleep => cases hs
    case returned => cases hs
    all_goals obtain rfl := Option.some.inj hs
    case test => split_ifs <;> exact ⟨by simpa using hall, by simp, by simp⟩
    case stopTest =>
      split_ifs with hstop
      · -- The queue is empty: all that was pushed has been emitted.
        have hemitted : h.emitted = h.pushed := by simpa [hq.drained hw] using hall
        refine ⟨by simpa using hall, by simp, fun _ => ⟨hstop, fun e he => ?_⟩⟩
        exact List.mem_append_left _ (hemitted ▸ hp.beforeStop e he)
      · exact ⟨by simpa using hall, by simp, by simp⟩
    case leaving =>
      obtain ⟨hstop, hmem⟩ := hq.finished (.inl hw)
      exact ⟨by simpa using hall, by simp,
        fun _ => ⟨hstop, fun e he => List.mem_append_left _ (hmem e he)⟩⟩
    all_goals exact ⟨by simpa using hall, by simp, by simp⟩
  | spurious =>
    obtain ⟨hw, rfl⟩ := guard_cases hs
    have hall := hq.all
    rw [hw] at hall
    exact ⟨hall, by simp, by simp⟩
  | push i =>
    obtain ⟨e, he, hholds, rfl⟩ := push_cases hs
    rw [record, he]
    refine ⟨?_, fun hw => ?_, hq.finished⟩
    · rw [← List.append_assoc, hq.all, Option.toList_some]
    · rw [show l.worker = .stopTest from hw] at hholds
      cases hholds
  | notifyOne i =>
    obtain ⟨e, he, rfl⟩ := notifyOne_cases hs
    exact ⟨hq.wake.all, hq.wake.drained, hq.wake.finished⟩
  | setStop =>
    obtain ⟨hd, rfl⟩ := guard_cases hs
    refine ⟨hq.all, hq.drained, fun hw => ?_⟩
    -- A worker that has left the loop has seen `stop_`.
    exact absurd hd (hset.1 (hq.finished hw).1)
  | notifyAll =>
    obtain ⟨-, rfl⟩ := guard_cases hs
    exact ⟨hq.wake.all, hq.wake.drained, hq.wake.finished⟩
  | join =>
    obtain ⟨-, rfl⟩ := guard_cases hs
    exact ⟨hq.all, hq.drained, hq.finished⟩

end Step

/-! ## Whole runs -/

section Runs

variable [DecidableEq ι] {calls : ι → List Entry} {l : Logger ι} {h : History}

/-- All three hold in every reachable state. -/
theorem inv_of_reachable (hr : (recorded calls).Reachable (l, h)) :
    l.StopSet ∧ Pushed l h ∧ Queued l h := by
  refine hr.invariant (P := fun s => s.1.StopSet ∧ Pushed s.1 s.2 ∧ Queued s.1 s.2) ?_ ?_
  · exact ⟨stopSet_init calls, pushed_init _, queued_init _⟩
  · rintro ⟨l, h⟩ e ⟨l', h'⟩ ⟨hset, hp, hq⟩ hs
    obtain ⟨hstep, rfl⟩ := Automaton.step_track.1 hs
    exact ⟨hset.step hstep, hp.step hstep, hq.step hp hset hstep⟩

/-- The entries are emitted in the order of the pushes. When the worker has returned, each
    whose `enqueue` had returned before `stop_` was set has been emitted, once. -/
theorem emitted_of_returned (hr : (recorded calls).Reachable (l, h)) :
    h.emitted <+: h.pushed ∧
      (l.worker = .returned → ∀ e ∈ h.beforeStop, h.emitted.count e = 1) := by
  obtain ⟨-, hp, hq⟩ := inv_of_reachable hr
  have hpre : h.emitted <+: h.pushed := by
    rw [← hq.all, List.append_assoc]
    exact List.prefix_append _ _
  exact ⟨hpre, fun hw e he => List.count_eq_one_of_mem (hp.nodup.sublist hpre.sublist)
    ((hq.finished (.inr hw)).2 e he)⟩

end Runs

/-- Two producers log an entry each. The second one is pushed while the worker emits the
    first, and `stop_` is set before the push is notified. -/
def shutdownRun : List (Event Bool) :=
  [.push false, .notifyOne false, .run, .run, .run, .run, .push true, .setStop, .notifyAll,
    .run, .run, .run, .run, .notifyOne true, .run, .run, .run, .run, .run]

theorem emitted_of_returned_shutdownRun : ∃ s,
    (recorded fun _ => [⟨.info, [], [], 0⟩]).exec shutdownRun = some s ∧
      s.1.worker = .returned ∧ s.2.beforeStop = [⟨.info, [], [], 0⟩] ∧
      s.2.emitted = [⟨.info, [], [], 0⟩, ⟨.info, [], [], 1⟩] ∧
      ∀ e ∈ s.2.beforeStop, s.2.emitted.count e = 1 :=
  have h := Automaton.reachable_of_exec
    (show (recorded fun _ => [⟨.info, [], [], 0⟩]).exec shutdownRun = some _ from rfl)
  ⟨_, rfl, rfl, rfl, rfl, (emitted_of_returned h).2 rfl⟩

end RtcmBridge.Logger

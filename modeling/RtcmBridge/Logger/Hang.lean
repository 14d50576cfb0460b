import RtcmBridge.Logger.Basic

/-!
# The shutdown of the logger

The destructor sets `stop_` and notifies without the mutex. The worker does not hear a
notification that comes between its test of the predicate and its sleep, and where no
producer has anything left to push, nothing else wakes it: the destructor waits for it
forever (`Hung`).

This is the only way to a hang (`never_hung`), and it always leads there
(`exists_hung`).
-/

namespace RtcmBridge.Logger

variable {ι : Type*}

/-- The destructor is past its `notify_all`. -/
def Notified (l : Logger ι) : Prop := l.destructor = .notified ∨ l.destructor = .joined

/-- The destructor has notified, no producer has a step left, and the worker sleeps. -/
structure Hung (l : Logger ι) : Prop where
  notified : l.Notified
  done : ∀ i, (l.producers i).calls = [] ∧ (l.producers i).notifying = none
  asleep : l.worker = .asleep

/-- The step is not a `notify_all` between the test of the predicate and the sleep, after
    the last push. -/
def Heard (l : Logger ι) (e : Event ι) : Prop :=
  e = .notifyAll → l.worker = .sleep → ∃ i, (l.producers i).calls ≠ []

instance [DecidableEq ι] [Fintype ι] (l : Logger ι) (e : Event ι) : Decidable (Heard l e) :=
  inferInstanceAs (Decidable (e = .notifyAll → l.worker = .sleep →
    ∃ i, (l.producers i).calls ≠ []))

/-- Once notified, a worker that goes to sleep will be woken by a producer. -/
structure Awake (l : Logger ι) : Prop where
  stop : l.StopSet
  sleep : l.Notified → l.worker = .sleep → ∃ i, (l.producers i).calls ≠ []
  asleep : l.Notified → l.worker = .asleep →
    ∃ i, (l.producers i).calls ≠ [] ∨ (l.producers i).notifying ≠ none

section Step

variable {l l' : Logger ι} {e : Event ι} {w : Worker}

/-- A worker that is awake does not hang the destructor. -/
theorem Awake.not_hung (h : l.Awake) : ¬l.Hung := by
  intro hung
  obtain ⟨i, hi | hi⟩ := h.asleep hung.notified hung.asleep
  · exact hi (hung.done i).1
  · exact hi (hung.done i).2

theorem wake_ne_asleep (w : Worker) : w.wake ≠ .asleep := by
  cases w <;> simp [Worker.wake]

theorem wake_eq_sleep (h : w.wake = .sleep) : w = .sleep := by
  cases w <;> first | rfl | cases h

theorem stop_of_notified (h : l.StopSet) (hn : l.Notified) : l.stop = true :=
  h.2 (by rcases hn with hn | hn <;> rw [hn] <;> simp)

theorem awake_of_not_notified (hset : l.StopSet) (h : l.destructor ≠ .notified)
    (h' : l.destructor ≠ .joined) : l.Awake :=
  have hn : ¬l.Notified := not_or.2 ⟨h, h'⟩
  ⟨hset, fun h => absurd h hn, fun h => absurd h hn⟩

/-- Neither asleep nor about to be, a worker is awake. -/
theorem awake_of_place (hset : l.StopSet) (h : l.worker ≠ .sleep) (h' : l.worker ≠ .asleep) :
    l.Awake :=
  ⟨hset, fun _ hw => absurd hw h, fun _ hw => absurd hw h'⟩

/-- A worker that tests the predicate after the notification does not go to sleep. -/
theorem Awake.run (h : l.Awake) (hs : l.run = some l') : l'.Awake := by
  rw [Logger.run] at hs
  cases hw : l.worker <;> rw [hw] at hs
  case test =>
    obtain rfl := Option.some.inj hs
    refine ⟨h.stop, fun hn => ?_, fun _ => ?_⟩
    · have hstop : l.stop = true := stop_of_notified h.stop hn
      simp only [hstop, Bool.true_or, if_true]
      simp
    · split_ifs <;> simp
  case sleep =>
    obtain rfl := Option.some.inj hs
    refine ⟨h.stop, by simp, fun hn _ => ?_⟩
    -- It falls asleep, but a call is to come.
    obtain ⟨i, hi⟩ := h.sleep hn hw
    exact ⟨i, .inl hi⟩
  case drain =>
    cases hl : l.q <;> rw [hl] at hs <;> obtain rfl := Option.some.inj hs
    all_goals exact awake_of_place h.stop (by simp) (by simp)
  case stopTest =>
    obtain rfl := Option.some.inj hs
    refine awake_of_place h.stop ?_ ?_ <;> split_ifs <;> simp
  case asleep => cases hs
  case returned => cases hs
  all_goals
    obtain rfl := Option.some.inj hs
    exact awake_of_place h.stop (by simp) (by simp)

variable [DecidableEq ι]

/-- A step that is heard keeps the worker awake. -/
theorem Awake.step (h : l.Awake) (hheard : l.Heard e) (hs : l.step e = some l') : l'.Awake := by
  have hset := h.stop.step hs
  cases e with
  | run => exact h.run hs
  | spurious =>
    obtain ⟨-, rfl⟩ := guard_cases hs
    exact awake_of_place hset (by simp) (by simp)
  | push i =>
    have hnotifying := notifying_push (j := i) hs
    obtain ⟨e, he, hholds, rfl⟩ := push_cases hs
    -- The worker is not about to sleep, as it would hold the mutex; the producer is to notify.
    refine ⟨hset, fun _ hw => ?_, fun _ _ => ⟨i, .inr ?_⟩⟩
    · rw [show l.worker = .sleep from hw] at hholds
      cases hholds
    · rw [hnotifying, if_pos rfl, he]
      simp
  | notifyOne i =>
    have hcalls (j : ι) := calls_notifyOne (j := j) hs
    obtain ⟨e, -, rfl⟩ := notifyOne_cases hs
    refine ⟨hset, fun hn hw => ?_, fun _ hw => absurd hw (wake_ne_asleep _)⟩
    obtain ⟨j, hj⟩ := h.sleep hn (wake_eq_sleep hw)
    exact ⟨j, by rwa [hcalls]⟩
  | setStop =>
    obtain ⟨-, rfl⟩ := guard_cases hs
    exact awake_of_not_notified hset (by simp) (by simp)
  | notifyAll =>
    obtain ⟨-, rfl⟩ := guard_cases hs
    -- The step is heard: a worker about to sleep has a call to come.
    exact ⟨hset, fun _ hw => hheard rfl (wake_eq_sleep hw),
      fun _ hw => absurd hw (wake_ne_asleep _)⟩
  | join =>
    obtain ⟨⟨-, hw⟩, rfl⟩ := guard_cases hs
    exact awake_of_place hset (by simp [hw]) (by simp [hw])

end Step

/-! ## Whole runs -/

section Runs

variable [DecidableEq ι] {calls : ι → List Entry} {es : List (Event ι)} {l l' : Logger ι}
  {e : Event ι}

/-- So it is awake in a run whose steps are all heard. -/
theorem awake_of_run (hr : (automaton calls).Run Heard es l) : l.Awake :=
  hr.invariant
    (awake_of_not_notified (stopSet_init calls) (by simp [automaton]) (by simp [automaton]))
    fun _ _ _ h hheard hs => h.step hheard hs

/-- While the worker is about to sleep, the notifications of the producers have no effect. -/
theorem exists_notified (hr : (automaton calls).Run (fun _ _ => True) es l)
    (hw : l.worker = .sleep) (is : List ι) :
    ∃ es' l', (automaton calls).Run (fun _ _ => True) (es ++ es') l' ∧ l'.worker = .sleep ∧
      l'.destructor = l.destructor ∧
      (∀ i, (l'.producers i).calls = (l.producers i).calls) ∧
      ∀ i ∈ is, (l'.producers i).notifying = none := by
  induction is with
  | nil => exact ⟨[], l, by rwa [List.append_nil], hw, rfl, fun _ => rfl, by simp⟩
  | cons i is ih =>
    obtain ⟨es', l', hr', hw', hd, hcalls, hnone⟩ := ih
    rcases hi : (l'.producers i).notifying with _ | e
    · exact ⟨es', l', hr', hw', hd, hcalls, List.forall_mem_cons.2 ⟨hi, hnone⟩⟩
    obtain ⟨m, hm⟩ : ∃ m, l'.notifyOne i = some m := by
      rw [notifyOne, hi]
      exact ⟨_, rfl⟩
    have hnext := hr'.step trivial (show (automaton calls).step l' (.notifyOne i) = some m from hm)
    rw [List.append_assoc] at hnext
    refine ⟨es' ++ [.notifyOne i], m, hnext, ?_, ?_,
      fun j => (calls_notifyOne hm).trans (hcalls j), List.forall_mem_cons.2 ⟨?_, fun j hj => ?_⟩⟩
    · obtain ⟨_, -, rfl⟩ := notifyOne_cases hm
      simp only [hw', Worker.wake]
    · obtain ⟨_, -, rfl⟩ := notifyOne_cases hm
      exact hd
    · rw [notifying_notifyOne hm, if_pos rfl]
    · rw [notifying_notifyOne hm, hnone j hj, ite_self]

/-- After a `notify_all` that is not heard, the remaining steps may lead to a hang. -/
theorem exists_hung [Fintype ι] (hr : (automaton calls).Run (fun _ _ => True) es l)
    (hs : (automaton calls).step l e = some l') (h : ¬l.Heard e) :
    ∃ es' l'', (automaton calls).Run (fun _ _ => True) (es ++ e :: es') l'' ∧ l''.Hung := by
  simp only [Heard, Classical.not_imp, not_exists, not_not] at h
  obtain ⟨rfl, hw, hcalls⟩ := h
  have hr' := hr.step trivial hs
  obtain ⟨-, rfl⟩ := guard_cases hs
  obtain ⟨es', l', hr'', hw', hd, hcalls', hnone⟩ :=
    exists_notified hr' (by simp only [hw, Worker.wake]) Finset.univ.toList
  have hsleep : (automaton calls).step l' .run = some { l' with worker := .asleep } := by
    show run l' = _
    rw [run, hw']
  have hnext := hr''.step trivial hsleep
  rw [List.append_assoc, List.append_assoc, List.singleton_append] at hnext
  exact ⟨es' ++ [.run], { l' with worker := .asleep }, hnext, .inl hd,
    fun i => ⟨(hcalls' i).trans (hcalls i), hnone i (Finset.mem_toList.2 (Finset.mem_univ i))⟩, rfl⟩

end Runs

/-- In a run whose steps are all heard, the shutdown never hangs. Every other step may
    be continued to a hang. -/
theorem never_hung [DecidableEq ι] [Fintype ι] (calls : ι → List Entry) :
    (∀ es l, (automaton calls).Run Heard es l → ¬l.Hung) ∧
      ∀ es l e l', (automaton calls).Run (fun _ _ => True) es l →
        (automaton calls).step l e = some l' → ¬l.Heard e →
          ∃ es' l'', (automaton calls).Run (fun _ _ => True) (es ++ e :: es') l'' ∧ l''.Hung :=
  ⟨fun _ _ hr => (awake_of_run hr).not_hung, fun _ _ _ _ hr hs h => exists_hung hr hs h⟩

/-- The worker sleeps before and after an entry, and the destructor notifies it then. -/
def cleanRun : List (Event Unit) :=
  [.run, .run, .run, .push (), .notifyOne (), .run, .run, .run, .run, .run, .run, .run, .run,
    .run, .run, .setStop, .notifyAll, .run, .run, .run, .run, .run, .join]

theorem never_hung_cleanRun :
    ∃ l, (automaton fun _ => [⟨.info, [], [], 0⟩]).exec cleanRun = some l ∧
      l.destructor = .joined ∧ ¬l.Hung :=
  have hexec : ((automaton fun _ => [⟨.info, [], [], 0⟩]).restrict Heard).exec cleanRun = some _ :=
    rfl
  have h := Automaton.run_of_restrict (Automaton.run_of_exec hexec)
  ⟨_, rfl, rfl, (never_hung _).1 _ _ h⟩

/-- A producer has logged an entry, and the worker has emitted it. The destructor notifies
    after the worker has tested the predicate, before it sleeps. -/
def lostRun : List (Event Unit) :=
  [.push (), .notifyOne (), .run, .run, .run, .run, .run, .run, .run, .run, .run, .setStop,
    .notifyAll, .run]

theorem hung_lostRun : ∃ l, (automaton fun _ => [⟨.info, [], [], 0⟩]).exec lostRun = some l ∧
    (automaton fun _ => [⟨.info, [], [], 0⟩]).Reachable l ∧ l.Hung :=
  have h := Automaton.reachable_of_exec
    (show (automaton fun _ => [⟨.info, [], [], 0⟩]).exec lostRun = some _ from rfl)
  ⟨_, rfl, h, .inl rfl, fun _ => ⟨rfl, rfl⟩, rfl⟩

end RtcmBridge.Logger

import RtcmBridge.Automaton
import RtcmBridge.Bytes

/-!
# The logger

The producers `ι` push entries into the queue of a `Logger`, under `mtx_`; a worker
thread takes them out and emits them. A step is one of the worker (`run`), the push of a
producer or its notification (`enqueue`), or one of the destructor, which sets `stop_`
and notifies (`stop`) before it joins the worker.

The worker has the mutex wherever its place `holds` it; a push takes and releases it in
one step. A notification wakes the worker only if it is asleep. A worker that is asleep
may also wake up for no reason.
-/

namespace RtcmBridge

namespace Logger

/-- `Logger::Level`. -/
inductive Level
  | info
  | warn
  | error
  deriving DecidableEq

/-- An entry, with its number in the order of the pushes. -/
structure Entry where
  level : Level
  context : Bytes
  message : Bytes
  number : ℕ := 0
  deriving DecidableEq

/-- Where the worker is. -/
inductive Worker
  /-- About to lock the mutex, before the loop. -/
  | lock
  /-- `wait`: about to test the predicate. -/
  | test
  /-- `wait`: the predicate is false, about to release the mutex and sleep. -/
  | sleep
  | asleep
  /-- `wait`: about to lock the mutex again. -/
  | woken
  /-- The test of the inner loop. -/
  | drain
  /-- About to unlock the mutex, with the entry it has popped. -/
  | popped (e : Entry)
  | emitting (e : Entry)
  /-- About to lock the mutex again, after `emit`. -/
  | relock
  /-- The test of `stop_` after the inner loop. -/
  | stopTest
  /-- Out of the loop, about to release the mutex. -/
  | leaving
  | returned
  deriving DecidableEq

/-- The places where the worker has the mutex. -/
def Worker.holds : Worker → Bool
  | .test | .sleep | .drain | .popped _ | .stopTest | .leaving => true
  | _ => false

/-- What a notification does to the worker. -/
def Worker.wake : Worker → Worker
  | .asleep => .woken
  | w => w

/-- Where the destructor is. -/
inductive Destructor
  | before
  /-- `stop`: `stop_` is set, about to notify. -/
  | stopping
  | notified
  | joined
  deriving DecidableEq

/-- A thread that calls `enqueue`: the entries it has still to log, and the one that it
    has pushed without having notified. -/
structure Producer where
  calls : List Entry
  notifying : Option Entry := none

/-- A step of one of the threads. -/
inductive Event (ι : Type*)
  | run
  | spurious
  | push (i : ι)
  | notifyOne (i : ι)
  | setStop
  | notifyAll
  | join
  deriving DecidableEq

end Logger

open Logger

/-- The state of a `Logger` and of the threads that use it. -/
structure Logger (ι : Type*) where
  q : List Entry := []
  stop : Bool := false
  worker : Worker := .lock
  destructor : Destructor := .before
  producers : ι → Producer
  /-- The number of pushes so far. -/
  pushes : ℕ := 0

namespace Logger

variable {ι : Type*} (l : Logger ι)

/-- The next step of the worker. Nobody else has the mutex between two steps. -/
def run : Option (Logger ι) :=
  match l.worker with
  | .lock | .woken => some { l with worker := .test }
  | .test => some { l with worker := if l.stop || !l.q.isEmpty then .drain else .sleep }
  | .sleep => some { l with worker := .asleep }
  | .drain =>
    match l.q with
    | [] => some { l with worker := .stopTest }
    | e :: q => some { l with q, worker := .popped e }
  | .popped e => some { l with worker := .emitting e }
  | .emitting _ => some { l with worker := .relock }
  | .relock => some { l with worker := .drain }
  | .stopTest => some { l with worker := if l.stop then .leaving else .test }
  | .leaving => some { l with worker := .returned }
  | .asleep | .returned => none

section Producers

variable (i : ι)

/-- The entry that a producer is to push next. -/
def next : Option Entry :=
  (l.producers i).calls.head?.map fun e => { e with number := l.pushes }

variable [DecidableEq ι]

/-- `enqueue`, while it has the mutex. -/
def push : Option (Logger ι) :=
  match l.next i, (l.producers i).notifying with
  | some e, none =>
    if l.worker.holds then none
    else
      some { l with
        q := l.q ++ [e]
        pushes := l.pushes + 1
        producers := Function.update l.producers i ⟨(l.producers i).calls.tail, some e⟩ }
  | _, _ => none

/-- `enqueue`, after it has released the mutex. -/
def notifyOne : Option (Logger ι) :=
  match (l.producers i).notifying with
  | some _ =>
    some { l with
      worker := l.worker.wake
      producers := Function.update l.producers i ⟨(l.producers i).calls, none⟩ }
  | none => none

/-- One step of a thread: the worker, the destructor, or a producer. -/
def step (l : Logger ι) : Event ι → Option (Logger ι)
  | .run => l.run
  | .spurious => if l.worker = .asleep then some { l with worker := .woken } else none
  | .push i => l.push i
  | .notifyOne i => l.notifyOne i
  | .setStop =>
    if l.destructor = .before then some { l with stop := true, destructor := .stopping } else none
  | .notifyAll =>
    if l.destructor = .stopping then
      some { l with worker := l.worker.wake, destructor := .notified }
    else none
  | .join =>
    if l.destructor = .notified ∧ l.worker = .returned then some { l with destructor := .joined }
    else none

/-- A logger from its constructor on, with the entries that each producer is to log. -/
def automaton (calls : ι → List Entry) : Automaton (Logger ι) (Event ι) where
  init := { producers := fun i => ⟨calls i, none⟩ }
  step := step

end Producers

/-! ### Steps -/

section Steps

variable {l l' : Logger ι}

theorem guard_cases {p : Prop} [Decidable p] {m : Logger ι}
    (h : (if p then some m else none) = some l') : p ∧ l' = m :=
  (Option.ite_none_right_eq_some.1 h).imp_right fun h => (Option.some.inj h).symm

/-- The worker changes its place, and the queue at most. -/
theorem run_frame (h : l.run = some l') : l' = { l with q := l'.q, worker := l'.worker } := by
  rw [run] at h
  cases hw : l.worker <;> rw [hw] at h
  case drain =>
    cases hq : l.q <;> rw [hq] at h
    all_goals
      obtain rfl := Option.some.inj h
      rfl
  case asleep => cases h
  case returned => cases h
  all_goals
    obtain rfl := Option.some.inj h
    rfl

/-- A call that is pushed is the next one of its producer, while the worker is not in the lock. -/
theorem push_cases [DecidableEq ι] {i : ι} (h : l.push i = some l') : ∃ e,
    l.next i = some e ∧ l.worker.holds = false ∧
      l' = { l with
        q := l.q ++ [e]
        pushes := l.pushes + 1
        producers := Function.update l.producers i ⟨(l.producers i).calls.tail, some e⟩ } := by
  rw [push] at h
  split at h
  · next e hn _ =>
    split_ifs at h with hholds
    exact ⟨e, hn, Bool.eq_false_iff.2 hholds, (Option.some.inj h).symm⟩
  · cases h

/-- A producer notifies once for each call that it has pushed. -/
theorem notifyOne_cases [DecidableEq ι] {i : ι} (h : l.notifyOne i = some l') : ∃ e,
    (l.producers i).notifying = some e ∧
      l' = { l with
        worker := l.worker.wake
        producers := Function.update l.producers i ⟨(l.producers i).calls, none⟩ } := by
  rw [notifyOne] at h
  split at h
  · next e he => exact ⟨e, he, (Option.some.inj h).symm⟩
  · cases h

/-- The number of a call is that of the pushes before it. -/
theorem number_next {i : ι} {e : Entry} (h : l.next i = some e) : e.number = l.pushes := by
  obtain ⟨_, -, rfl⟩ := Option.map_eq_some_iff.1 h
  rfl

section Producers

variable [DecidableEq ι] {i j : ι}

theorem notifying_push (h : l.push i = some l') :
    (l'.producers j).notifying = if j = i then l.next i else (l.producers j).notifying := by
  obtain ⟨e, he, -, rfl⟩ := push_cases h
  simp only [Function.update_apply, apply_ite Producer.notifying, he]

theorem notifying_notifyOne (h : l.notifyOne i = some l') :
    (l'.producers j).notifying = if j = i then none else (l.producers j).notifying := by
  obtain ⟨_, -, rfl⟩ := notifyOne_cases h
  simp only [Function.update_apply, apply_ite Producer.notifying]

/-- To notify does not take a call. -/
theorem calls_notifyOne (h : l.notifyOne i = some l') :
    (l'.producers j).calls = (l.producers j).calls := by
  obtain ⟨_, -, rfl⟩ := notifyOne_cases h
  by_cases hj : j = i
  · simp only [hj, Function.update_self]
  · simp only [Function.update_of_ne hj]

end Producers

/-- `stop_` tells whether the destructor has begun. -/
def StopSet (l : Logger ι) : Prop := l.stop = true ↔ l.destructor ≠ .before

theorem stopSet_init [DecidableEq ι] (calls : ι → List Entry) : (automaton calls).init.StopSet :=
  iff_of_false Bool.false_ne_true fun h => h rfl

/-- A step of any thread keeps the flag in step with the destructor. -/
theorem StopSet.step [DecidableEq ι] {e : Event ι} (h : l.StopSet) (hs : l.step e = some l') :
    l'.StopSet := by
  cases e with
  | run =>
    rw [run_frame hs]
    exact h
  | spurious =>
    obtain ⟨-, rfl⟩ := guard_cases hs
    exact h
  | push i =>
    obtain ⟨_, -, -, rfl⟩ := push_cases hs
    exact h
  | notifyOne i =>
    obtain ⟨_, -, rfl⟩ := notifyOne_cases hs
    exact h
  | setStop =>
    obtain ⟨-, rfl⟩ := guard_cases hs
    exact iff_of_true rfl (by simp)
  | notifyAll =>
    obtain ⟨hd, rfl⟩ := guard_cases hs
    exact iff_of_true (h.2 (by rw [hd]; simp)) (by simp)
  | join =>
    obtain ⟨hd, rfl⟩ := guard_cases hs
    exact iff_of_true (h.2 (by rw [hd.1]; simp)) (by simp)

end Steps

end Logger

end RtcmBridge

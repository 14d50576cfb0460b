import RtcmBridge.Nats2Ntrip.ProcessSteps

/-!
# No wakeup of a worker is lost

A worker waits on `cv_` for a message (`Worker.asleep`), and before its next attempt to
connect (`Worker.sleeping`). What it waits for, a message in the queue or `stop_`, only
comes about under `mtx_`, and whoever brings it about notifies afterwards: so a worker that
sleeps although it need not is about to be notified (`no_wakeup_lost`).

This says nothing of `g_stop`, which the handler of the signals sets without the mutex, and
without notifying the workers.
-/

namespace RtcmBridge.Nats2Ntrip.Process

open Monitor

variable {n : ℕ} {options : Options} {hash : Fin n → UInt64}

/-- The places of a delivery from the push to the notification. -/
def Delivery.owes : Delivery → Bool
  | .idle | .lock _ | .push _ => false
  | _ => true

/-- The places of `stop` between `stop_ = true` and the notification. -/
def Stop.owes : Stop → Bool
  | .unlock | .notify => true
  | _ => false

/-- `main` is to notify the worker of a session. -/
def Main.owes (i : Fin n) : Main n → Bool
  | .stop pc j _ _ _ => pc.owes && i = j
  | _ => false

/-- The two waits of a worker: for a message, and before the next attempt to connect. -/
inductive Wait
  | message
  | backoff

/-- The place where the worker sleeps. -/
def Wait.place : Wait → Worker
  | message => .asleep
  | backoff => .sleeping

variable {w : Wait} {i : Fin n} {t : Thread n} {k k' : Place n t} {d d' : Shared n}

/-- The place where the worker of a session waits. -/
def awaiting (w : Wait) (i : Fin n) : (t : Thread n) → Set (Place n t)
  | .worker j => {k | j = i ∧ k = w.place}
  | _ => ∅

/-- The session is stopped, or there is a message for who waits for one. -/
def Due (w : Wait) (i : Fin n) (d : Shared n) : Prop :=
  (d.session i).stop = true ∨ w = .message ∧ (d.session i).queue ≠ []

/-- The places of those that are to notify a worker. -/
def owes (i : Fin n) : (t : Thread n) → Set (Place n t)
  | .main => {k | Main.owes i k = true}
  | .delivery j => {k | j = i ∧ Delivery.owes k = true}
  | _ => ∅

/-- Who goes to sleep has seen that there is nothing to do. -/
theorem due_tested (h : ((monitor options hash).program t k).Leads d d' k')
    (hw : (monitor options hash).Entering (.session i) (awaiting w i) t k') : ¬Due w i d' := by
  obtain ⟨next, hnext, hp⟩ := hw
  cases t with
  | worker j =>
    obtain ⟨rfl, rfl⟩ := hnext
    cases w <;> cases worker_goes h <;> cases hp
    · next hst hq =>
      have hstop : (d.session j).stop = false := (Bool.or_eq_false_iff.1 hst).1
      simp [Due, hstop, hq]
    · next hst =>
      have hstop : (d.session j).stop = false := (Bool.or_eq_false_iff.1 hst).1
      simp [Due, hstop]
  | _ => exact absurd hnext (Set.notMem_empty _)

/-- What makes something due is a push or a stop. -/
theorem due_owed (h : ((monitor options hash).program t k).Leads d d' k') (hd : ¬Due w i d)
    (hd' : Due w i d') : k' ∈ owes i t := by
  have hsame (heq : d'.session i = d.session i) : k' ∈ owes i t := by
    rw [Due, heq] at hd'
    exact absurd hd' hd
  cases t with
  | main =>
    have hgoes := main_goes h
    cases hgoes with
    | set j code locked ts =>
      by_cases hj : i = j
      · show Main.owes i (.stop .unlock j code locked ts) = true
        simp [Main.owes, Stop.owes, hj]
      · exact hsame (Shared.session_modify_of_ne d hj _)
    | started j | spawned j | destroy j | unsubscribe j =>
      by_cases hj : i = j
      · subst hj
        rw [Due, Shared.session_modify_self] at hd'
        exact absurd hd' hd
      · exact hsame (Shared.session_modify_of_ne d hj _)
    | _ => exact hsame rfl
  | signal =>
    rcases signal_goes h with ⟨-, rfl, -⟩ | ⟨-, rfl, -⟩ <;> exact hsame rfl
  | worker j =>
    have hframe := (worker_goes h).frame
    by_cases hj : i = j
    -- A worker takes messages out of the queue only.
    · subst hj
      refine absurd ?_ hd
      rcases hd' with hst | hq
      · exact .inl (hframe.stop ▸ hst)
      · exact .inr ⟨hq.1, fun hnil => hq.2 (List.suffix_nil.1 (hnil ▸ hframe.queue))⟩
    · exact hsame (hframe.session i hj)
  | delivery j =>
    have hgoes := delivery_goes h
    by_cases hj : i = j
    · subst hj
      cases hgoes <;> first | exact ⟨rfl, rfl⟩ | exact absurd hd' hd
    · exact hsame (hgoes.frame.session i hj)

/-- Whoever is to notify stays so until then. -/
theorem owes_kept (h : ((monitor options hash).program t k).Leads d d' k') (ho : k ∈ owes i t) :
    k' ∈ owes i t ∨ ∃ next, (monitor options hash).program t k = .notify (.session i) next := by
  cases t with
  | main =>
    have hgoes := main_goes h
    change Main.owes i k = true at ho
    cases hgoes with
    | unlockSession j code locked ts =>
      refine .inl (show Main.owes i (.stop .notify j code locked ts) = true from ?_)
      simpa [Main.owes, Stop.owes] using ho
    | notify j code locked ts =>
      obtain rfl : i = j := by simpa [Main.owes, Stop.owes] using ho
      exact .inr ⟨_, rfl⟩
    | _ => simp [Main.owes, Stop.owes] at ho
  | delivery j =>
    obtain ⟨rfl, ho⟩ := ho
    cases delivery_goes h <;>
      first | exact .inl ⟨rfl, rfl⟩ | exact .inr ⟨_, rfl⟩ | cases ho
  | _ => exact absurd ho (Set.notMem_empty _)

/-- Who makes a wait due still owes a notification, until it has given one. -/
theorem notifying (w : Wait) (i : Fin n) :
    (monitor options hash).Notifying (.session i) (awaiting w i) (Due w i) (owes i) where
  start t := by
    cases t with
    | worker j =>
      refine ⟨?_, ?_⟩
      · rintro ⟨_, -, hp⟩
        cases hp
      · rintro ⟨⟨-, hk⟩, -⟩
        cases w <;> cases hk
    | _ =>
      refine ⟨?_, ?_⟩
      · rintro ⟨_, hk, -⟩
        exact hk
      · rintro ⟨hk, -⟩
        exact hk
  tested := due_tested
  entered {t k d d' k'} h hs := by
    cases t with
    | worker j =>
      obtain ⟨⟨rfl, rfl⟩, -⟩ := hs
      cases w <;> cases worker_goes h <;> exact ⟨_, ⟨rfl, rfl⟩, rfl⟩
    | _ => exact absurd hs.1 (Set.notMem_empty _)
  owed := due_owed
  kept := owes_kept

/-- What is due only becomes so under the mutex of the session. -/
theorem due_guarded (h : ((monitor options hash).program t k).Leads d d' k')
    (hm : .session i ∉ holds t k) (hd : Due w i d') : Due w i d := by
  by_contra hno
  have ho := due_owed h hno hd
  cases t with
  | main =>
    have hgoes := main_goes h
    change Main.owes i k' = true at ho
    cases hgoes with
    | set j code locked ts =>
      have hj : i ≠ j := fun hj => hm (.inr ⟨i, rfl, by simp [Main.locks, Stop.locked, hj]⟩)
      rw [Due, Shared.session_modify_of_ne d hj] at hd
      exact hno hd
    | unlockSession | notify => exact hno hd
    | _ => simp [Main.owes, Stop.owes] at ho
  | delivery j =>
    obtain ⟨rfl, ho⟩ := ho
    cases delivery_goes h <;> first | exact hno hd | exact hm ⟨rfl, rfl⟩
  | _ => exact absurd ho (Set.notMem_empty _)

/-- Whoever sleeps although there is something to do is about to be notified. -/
theorem exists_owes {s : State (Mutex n) (Shared n) (Place n)}
    (h : (monitor options hash).automaton.Reachable s) (w : Wait) (i : Fin n)
    (hw : s.place (.worker i) = w.place) (hd : Due w i s.data) : ∃ t, s.place t ∈ owes i t := by
  have hn := (notified_of_guarded disciplined (notifying w i) due_guarded h).1
  refine hn ⟨.worker i, .inr ⟨⟨rfl, hw⟩, ?_⟩⟩ hd
  rw [hw]
  cases w <;> exact ⟨_, _, rfl⟩

/-- **No wakeup of a worker is lost.** Whenever a worker waits although its session is
    stopped, or waits for a message although there is one, a delivery to the session or
    `main` is on its way to notify it. -/
theorem no_wakeup_lost {s : State (Mutex n) (Shared n) (Place n)}
    (h : (monitor options hash).automaton.Reachable s) (w : Wait) (i : Fin n)
    (hw : s.place (.worker i) = w.place) (hd : Due w i s.data) :
    Delivery.owes (s.place (.delivery i)) = true ∨ Main.owes i (s.place .main) = true := by
  obtain ⟨t, ht⟩ := exists_owes h w i hw hd
  cases t with
  | main => exact .inr ht
  | delivery j =>
    obtain ⟨rfl, ht⟩ := ht
    exact .inl ht
  | _ => exact absurd ht (Set.notMem_empty _)

/-- A session is started, its worker has fallen asleep, and a message is in the queue. -/
def messageRun : List (Event (Thread 1) Input) :=
  [.run .main {}, .run .main {}] ++ List.replicate 7 (.run (.worker 0) {}) ++
    [.run (.delivery 0) { data := [0xD3] }, .run (.delivery 0) {}, .run (.delivery 0) {}]

theorem no_wakeup_lost_messageRun : ∃ s,
    (monitor {} fun _ : Fin 1 => 0).automaton.exec messageRun = some s ∧
      s.place (.worker 0) = Worker.asleep ∧ (s.data.session 0).queue = [⟨0, [0xD3]⟩] ∧
      (Delivery.owes (s.place (.delivery 0)) = true ∨ Main.owes 0 (s.place .main) = true) :=
  have h := Automaton.reachable_of_exec
    (show (monitor {} fun _ : Fin 1 => 0).automaton.exec messageRun = some _ from rfl)
  ⟨_, rfl, rfl, rfl, no_wakeup_lost h .message 0 rfl (.inr ⟨rfl, by decide⟩)⟩

end RtcmBridge.Nats2Ntrip.Process

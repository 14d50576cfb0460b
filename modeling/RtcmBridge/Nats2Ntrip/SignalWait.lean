import RtcmBridge.Nats2Ntrip.Lifetime

/-!
# The signal that nobody hears

`main` waits on `g_stop_cv` for `g_stop`, which the handler of the signals sets without
`g_stop_mtx`. So the handler can come between the test of `main` and its falling asleep: its
notification then finds nobody asleep, and `main` sleeps though the program is to stop
(`Missed`). This is the only way to miss a signal (`never_missed_iff`).

A process that has missed its signal does not end, unless there is another one. Its sessions
do: each writes at most the message that its worker has taken (`missed_forever`).
-/

namespace RtcmBridge.Nats2Ntrip.Process

open Monitor

variable {n : ℕ} {options : Options} {hash : Fin n → UInt64} {t : Thread n}
  {s s' : State (Mutex n) (Shared n) (Place n)}

/-- `main` is asleep or about to be though there has been a signal, and nobody is to notify
    it. -/
def Missed (s : State (Mutex n) (Shared n) (Place n)) : Prop :=
  s.data.gStop = true ∧ (s.place .main = Main.sleep ∨ s.place .main = Main.asleep) ∧
    s.place .signal = Signal.idle

/-- The handler notifies `main` between its test and its falling asleep. -/
def Unheard (s : State (Mutex n) (Shared n) (Place n)) (e : Event (Thread n) Input) : Prop :=
  e.thread = .signal ∧ s.place .signal = Signal.notify ∧ s.place .main = Main.sleep

/-! ### The wait of `main` -/

/-- Where `main` waits. -/
def mainAsleep : (t : Thread n) → Set (Place n t)
  | .main => {k | k = Main.asleep}
  | _ => ∅

/-- The handler is to notify `main`. -/
def signalOwes : (t : Thread n) → Set (Place n t)
  | .signal => {k | k = Signal.notify}
  | _ => ∅

/-- There has been a signal. -/
def Signalled (d : Shared n) : Prop := d.gStop = true

/-- Only the handler notifies `main`. -/
theorem notify_gStop {next : Place n t}
    (h : (monitor options hash).program t (s.place t) = .notify .gStop next) :
    t = .signal ∧ s.place .signal = Signal.notify := by
  cases t with
  | main =>
    change main (s.place .main) = _ at h
    -- `main` notifies the sessions only.
    cases hk : (s.place .main : Main n) with
    | starting k =>
      rw [hk, main] at h
      split_ifs at h
    | tasks code locked ts =>
      rw [hk] at h
      rcases ts with _ | ⟨⟨j⟩ | ⟨j⟩, ts⟩ <;> cases locked <;> cases h
    | stop pc =>
      rw [hk] at h
      cases pc <;> cases h
    | _ =>
      rw [hk] at h
      cases h
  | signal =>
    change signal (s.place .signal) = _ at h
    cases hk : (s.place .signal : Signal) with
    | notify => exact ⟨rfl, rfl⟩
    | idle =>
      rw [hk] at h
      cases h
  | worker j =>
    change worker options j (s.place (.worker j)) = _ at h
    cases hk : (s.place (.worker j) : Worker) <;> rw [hk] at h <;> cases h
  | delivery j =>
    change delivery options j (s.place (.delivery j)) = _ at h
    cases hk : (s.place (.delivery j) : Delivery) <;> rw [hk] at h <;> cases h

theorem notifying_signal :
    (monitor options hash).Notifying (.gStop : Mutex n) mainAsleep Signalled signalOwes where
  start t := by
    cases t with
    | main =>
      refine ⟨?_, ?_⟩
      · rintro ⟨next, -, hp⟩
        cases (sleep_of_wait (k := .starting 0) hp).1
      · rintro ⟨hk, -⟩
        cases hk
    | _ =>
      refine ⟨?_, ?_⟩
      · rintro ⟨_, hk, -⟩
        exact hk
      · rintro ⟨hk, -⟩
        exact hk
  tested {t k d d' k'} h hent := by
    cases t with
    | main =>
      obtain ⟨next, -, hp⟩ := hent
      have hgoes := main_goes h
      rw [(sleep_of_wait hp).1] at hgoes
      cases hgoes with
      | sleep hno => exact fun hd => by rw [Signalled, hno] at hd; cases hd
    | _ =>
      obtain ⟨_, hk, -⟩ := hent
      -- Only `main` waits here.
      exact absurd hk (Set.notMem_empty _)
  entered {t k d d' k'} h hsleep := by
    cases t with
    | main =>
      have hgoes := main_goes h
      obtain ⟨rfl, -⟩ := hsleep
      cases hgoes
      exact ⟨_, rfl, rfl⟩
    | _ => exact absurd hsleep.1 (Set.notMem_empty _)
  owed {t k d d' k'} h hd hd' := by
    cases t with
    -- Only the handler sets the flag, and notifies next.
    | main => exact absurd ((main_goes h).frame.1.symm.trans hd') hd
    | signal =>
      rcases signal_goes h with ⟨-, -, rfl⟩ | ⟨-, rfl, -⟩
      · rfl
      · exact absurd hd' hd
    | worker j => exact absurd ((worker_goes h).frame.gStop.symm.trans hd') hd
    | delivery j => exact absurd ((delivery_goes h).frame.gStop.symm.trans hd') hd
  kept {t k d d' k'} h ho := by
    cases t with
    | signal =>
      obtain rfl := ho
      exact .inr ⟨_, rfl⟩
    | _ => exact absurd ho (Set.notMem_empty _)

/-! ### How a signal is missed -/

/-- What `main` waits for has been notified, or is going to be. -/
structure Awaited (options : Options) (hash : Fin n → UInt64)
    (s : State (Mutex n) (Shared n) (Place n)) : Prop where
  notified : (monitor options hash).Notified .gStop mainAsleep Signalled signalOwes s
  handled : s.place .signal = Signal.notify → s.data.gStop = true

/-- A signal that is awaited is not missed. -/
theorem Awaited.not_missed (h : Awaited options hash s) : ¬Missed s := by
  rintro ⟨hstop, hmain, hidle⟩
  have hwait : (monitor options hash).Entering .gStop mainAsleep .main (s.place .main) ∨
      (monitor options hash).Sleeping .gStop mainAsleep .main (s.place .main) := by
    rcases hmain with hmain | hmain
    · exact .inl ⟨Main.asleep, rfl, by rw [hmain]; rfl⟩
    · exact .inr ⟨hmain, _, _, by rw [hmain]; rfl⟩
  obtain ⟨t, ht⟩ := h.notified ⟨.main, hwait⟩ hstop
  cases t with
  | signal =>
    rw [hidle] at ht
    cases ht
  | _ => exact absurd ht (Set.notMem_empty _)

/-- A step that does not overlook the signal keeps it awaited. -/
theorem awaited_move {e : Event (Thread n) Input} (h : Awaited options hash s)
    (hheard : ¬Unheard s e) (hm : (monitor options hash).Move s e.thread s') :
    Awaited options hash s' := by
  refine ⟨notifying_signal.notified_move h.notified (fun next hp _ t hent => hheard ?_) hm,
    fun hk => ?_⟩
  · obtain ⟨ht, hk⟩ := notify_gStop hp
    cases t with
    | main =>
      obtain ⟨_, -, hp'⟩ := hent
      exact ⟨ht, hk, (sleep_of_wait hp').1⟩
    | _ =>
      obtain ⟨_, hno, -⟩ := hent
      exact absurd hno (Set.notMem_empty _)
  · generalize e.thread = t at hm
    by_cases ht : .signal = t
    · subst ht
      rcases signal_goes hm.leads with ⟨-, hd, -⟩ | ⟨-, -, hk'⟩
      · rw [hd]
      · rw [hk'] at hk
        cases hk
    · exact gStop_mono hm.leads (h.handled ((signal_place hm ht).symm.trans hk))

/-- A notification between the test and the sleep is not heard. -/
theorem missed_of_unheard {e : Event (Thread n) Input} (h : Awaited options hash s)
    (hun : Unheard s e) (hm : (monitor options hash).Move s e.thread s') : Missed s' := by
  obtain ⟨ht, hk, hmain⟩ := hun
  rw [ht] at hm
  rcases signal_goes hm.leads with ⟨hidle, -, -⟩ | ⟨-, hd, hk'⟩
  · rw [hk] at hidle
    cases hidle
  · refine ⟨by rw [hd, h.handled hk], .inl ?_, hk'⟩
    rcases main_place hm (by simp) with heq | ⟨heq, -⟩
    · rw [heq, hmain]
    · rw [hmain] at heq
      cases heq

/-- **How a signal is missed.** In a run no signal is ever missed if and only if the handler
    never notifies `main` between its test and its falling asleep. -/
theorem never_missed_iff (options : Options) (hash : Fin n → UInt64)
    (es : List (Event (Thread n) Input)) (s : State (Mutex n) (Shared n) (Place n)) :
    ((monitor options hash).automaton.Run (fun s _ => ¬Missed s) es s ∧ ¬Missed s) ↔
      (monitor options hash).automaton.Run (fun s e => ¬Unheard s e) es s := by
  refine Automaton.run_iff (J := Awaited options hash) ⟨notifying_signal.notified_init, ?_⟩
    (fun _ h => h.not_missed)
    (fun _ _ _ h hheard hstep => awaited_move h hheard (move_of_step hstep))
    fun _ _ _ h hun hstep hno => hno (missed_of_unheard h (not_not.1 hun) (move_of_step hstep))
  intro hk
  cases hk

/-! ### A missed signal -/

/-- The messages that a worker has taken, or is about to take, and not written yet. -/
def Worker.inHand : Worker → ℕ
  | .pop | .popped _ | .popUnlock _ | .writing _ => 1
  | _ => 0

/-- A worker that is to stop takes no further message. -/
theorem Worker.Goes.written_add_inHand_le {i : Fin n} {k k' : Worker} {d d' : Shared n}
    (h : Worker.Goes options i d k d' k') (hst : d.stopping i = true) :
    (d'.session i).written.length + k'.inHand ≤ (d.session i).written.length + k.inHand := by
  cases h with
  | take hno =>
    rw [hno] at hst
    cases hst
  | wrote p =>
    rw [Shared.session_modify_self]
    simp [Worker.inHand]
  | pop | popped | reset | clearing | discard | discarded | awake | ended =>
    rw [Shared.session_modify_self]
    simp [Worker.inHand]
  | _ => simp [Worker.inHand]

/-- A session whose worker is told to stop writes at most what it has taken. -/
theorem written_add_inHand_le {i : Fin n} (hst : s.data.stopping i = true)
    (hm : (monitor options hash).Move s t s') :
    (s'.data.session i).written.length + Worker.inHand (s'.place (.worker i)) ≤
      (s.data.session i).written.length + Worker.inHand (s.place (.worker i)) := by
  by_cases ht : .worker i = t
  · subst ht
    exact (worker_goes hm.leads).written_add_inHand_le hst
  · -- No other thread writes, and the worker is at most woken.
    have hwritten : (s'.data.session i).written = (s.data.session i).written := by
      cases t with
      | main =>
        obtain ⟨-, hframe⟩ := (main_goes hm.leads).frame
        obtain ⟨stop, subscribed, joinable, connected, heq⟩ := hframe i
        rw [heq]
      | signal => rcases signal_goes hm.leads with ⟨-, hd, -⟩ | ⟨-, hd, -⟩ <;> rw [hd]
      | worker j => rw [(worker_goes hm.leads).frame.session i fun hj => ht (by rw [hj])]
      | delivery j =>
        have hframe := (delivery_goes hm.leads).frame
        by_cases hj : i = j
        · subst hj
          exact hframe.written
        · rw [hframe.session i hj]
    rw [hwritten]
    rcases worker_place hm ht with heq | ⟨heq, heq'⟩ | ⟨heq, heq'⟩
    · rw [heq]
    · rw [heq, heq']
      exact le_rfl
    · rw [heq, heq']
      exact le_rfl

theorem Main.Goes.asleep_of_sleep {m : Main n} {d d' : Shared n} (h : Main.Goes d .sleep d' m) :
    m = .asleep := by
  cases h
  rfl

/-- Without another signal, and as long as `main` does not wake up for no reason, it goes on
    sleeping. -/
theorem missed_step {e : Event (Thread n) Input} (h : Missed s) (hsignal : e.thread ≠ .signal)
    (hmain : e ≠ .spurious .main) (hstep : (monitor options hash).step s e = some s') :
    Missed s' := by
  have hm := move_of_step hstep
  obtain ⟨hstop, hk, hidle⟩ := h
  refine ⟨gStop_mono hm.leads hstop, ?_, (signal_place hm (Ne.symm hsignal)).trans hidle⟩
  by_cases ht : e.thread = .main
  · rcases hk with hk | hk
    · rw [ht] at hm
      have hgoes := main_goes hm.leads
      rw [hk] at hgoes
      exact .inr hgoes.asleep_of_sleep
    · have hp : (monitor options hash).program .main (s.place .main) =
          .asleep .gStop Main.relock none := by rw [hk]; rfl
      exact absurd (eq_spurious_of_asleep hstep ht hp) hmain
  · rcases hm.place_of_ne (Ne.symm ht) with heq | ⟨m, next, expired, k, hnotify, hsleep, -⟩
    · rwa [heq]
    · obtain ⟨-, rfl⟩ := asleep_of_program hsleep
      exact absurd (notify_gStop hnotify).1 hsignal

/-- **A missed signal stays missed.** Without another signal, and as long as `main` does not
    wake up for no reason, it goes on sleeping, and each session writes at most one more
    message. -/
theorem missed_forever (options : Options) (hash : Fin n → UInt64)
    {s₀ : State (Mutex n) (Shared n) (Place n)} (h : Missed s₀)
    {es : List (Event (Thread n) Input)}
    (hrun : ((monitor options hash).automaton.startingAt s₀).Run
      (fun _ e => e.thread ≠ .signal ∧ e ≠ .spurious .main) es s) :
    Missed s ∧ ∀ i, (s.data.session i).written.length ≤
      (s₀.data.session i).written.length + 1 := by
  have hone (k : Worker) : k.inHand ≤ 1 := by cases k <;> simp [Worker.inHand]
  suffices hinv : Missed s ∧ ∀ i,
      (s.data.session i).written.length + Worker.inHand (s.place (.worker i)) ≤
        (s₀.data.session i).written.length + Worker.inHand (s₀.place (.worker i)) by
    refine ⟨hinv.1, fun i => ?_⟩
    have := hinv.2 i
    have := hone (s₀.place (.worker i))
    omega
  refine hrun.invariant (P := fun s => Missed s ∧ ∀ i,
    (s.data.session i).written.length + Worker.inHand (s.place (.worker i)) ≤
      (s₀.data.session i).written.length + Worker.inHand (s₀.place (.worker i)))
    ⟨h, fun _ => le_rfl⟩ ?_
  rintro s e s' ⟨hmissed, hle⟩ ⟨hsignal, hmain⟩ hstep
  refine ⟨missed_step hmissed hsignal hmain hstep, fun i => ?_⟩
  refine (written_add_inHand_le ?_ (move_of_step hstep)).trans (hle i)
  rw [Shared.stopping, hmissed.1, Bool.or_true]

/-- The worker has taken a message and is about to write it, when the signal comes after the test
    of `main`, which is about to fall asleep. -/
def missedRun : List (Event (Thread 1) Input) :=
  [.run .main {}, .run .main {}] ++ List.replicate 7 (.run (.worker (.last 0)) {}) ++
    .run (.delivery (.last 0)) { data := [0xD3] } ::
      List.replicate 8 (.run (.delivery (.last 0)) {}) ++
    List.replicate 6 (.run (.worker (.last 0)) {}) ++
    List.replicate 2 (.run .main {}) ++ List.replicate 2 (.run .signal {})

/-- `main` falls asleep, and the worker writes the message in its hand. -/
theorem missed_forever_missedRun : ∃ s₀ s,
    (monitor {} fun _ : Fin 1 => 0).automaton.exec missedRun = some s₀ ∧
      s₀.place (.worker (.last 0)) = Worker.writing ⟨0, [0xD3]⟩ ∧
      ((monitor {} fun _ : Fin 1 => 0).automaton.startingAt s₀).exec
        [.run .main {}, .run (.worker (.last 0)) {}] = some s ∧
      Missed s ∧ (s.data.session (.last 0)).written = [⟨0, [0xD3]⟩] ∧
      (s.data.session (.last 0)).written.length ≤
        (s₀.data.session (.last 0)).written.length + 1 := by
  obtain ⟨s₀, h₀⟩ : ∃ s₀, (monitor {} fun _ : Fin 1 => 0).automaton.exec missedRun = some s₀ :=
    ⟨_, rfl⟩
  obtain ⟨s, hs⟩ : ∃ s, ((monitor {} fun _ : Fin 1 => 0).automaton.startingAt s₀).exec
      [.run .main {}, .run (.worker (.last 0)) {}] = some s := by
    cases h₀
    exact ⟨_, rfl⟩
  have hmissed : Missed s₀ := by
    cases h₀
    exact ⟨rfl, .inl rfl, rfl⟩
  have hrun : ((monitor {} fun _ : Fin 1 => 0).automaton.startingAt s₀).Run
      (fun _ e => e.thread ≠ .signal ∧ e ≠ .spurious .main)
      [.run .main {}, .run (.worker (.last 0)) {}] s :=
    (Automaton.run_of_exec hs).of_forall (by simp [Event.thread])
  obtain ⟨hmissed', hwritten⟩ := missed_forever {} (fun _ => 0) hmissed hrun
  refine ⟨s₀, s, h₀, ?_, hs, hmissed', ?_, hwritten (.last 0)⟩
  · cases h₀
    rfl
  · cases h₀
    cases hs
    rfl

end RtcmBridge.Nats2Ntrip.Process

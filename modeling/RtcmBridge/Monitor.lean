import RtcmBridge.Automaton

/-!
# Threads, mutexes and condition variables

A `Monitor` is a family of threads that share data, each with a program. What a
thread does next, at its place in the program, is an `Action`: a statement on the
data, or an operation of a mutex or of the condition variable that belongs to it.

* `wait` releases the mutex and falls asleep, in one step; a thread that sleeps
  goes on when it is notified, or for no reason, or, if it waits for some time
  only, when this has passed.
* `notify` wakes whoever sleeps at that moment.

If the places tell who has which mutex (`Disciplined`), then the mutexes agree with
them in every reachable state (`owner_iff`), so that no two threads have the same one
(`exclusive`), and what is only written under a mutex does not change while another
thread has it (`guarded_move`).

A wakeup is lost if a thread falls asleep although what it waits for has come true,
and been notified. This cannot happen if what it waits for is only made true under the
mutex (`notified_of_guarded`), nor in runs where nobody notifies while a thread is
about to sleep (`notified_of_heard`).
-/

namespace RtcmBridge

/-- What a thread does next: `μ` are the mutexes, `σ` the data, `ε` the inputs of
    statements and `κ` the places of the thread. -/
inductive Action (μ σ ε κ : Type*)
  /-- A statement. It waits for an input with which it is possible. -/
  | act (f : ε → σ → Option (σ × κ))
  | lock (m : μ) (next : κ)
  | unlock (m : μ) (next : κ)
  /-- `wait` of the condition variable of `m`: the next place is asleep. -/
  | wait (m : μ) (next : κ)
  /-- Asleep, and going on at `next`, or at `expired` if there is a time limit. -/
  | asleep (m : μ) (next : κ) (expired : Option κ)
  | notify (m : μ) (next : κ)
  | halt

namespace Action

variable {μ σ ε κ : Type*}

/-- The action may change the data from `d` to `d'`, and lead to the place `k'`. -/
def Leads : Action μ σ ε κ → σ → σ → κ → Prop
  | act f, d, d', k' => ∃ e, f e d = some (d', k')
  | lock _ next, d, d', k' | unlock _ next, d, d', k' | wait _ next, d, d', k'
  | notify _ next, d, d', k' => d' = d ∧ k' = next
  | asleep _ next expired, d, d', k' => d' = d ∧ (k' = next ∨ k' ∈ expired)
  | halt, _, _, _ => False

/-- The mutexes a thread has after the action, if it has had those of `H`. -/
def held (H : Set μ) : Action μ σ ε κ → Set μ
  | lock m _ => {m' | m' = m ∨ m' ∈ H}
  | unlock m _ | wait m _ => {m' | m' ≠ m ∧ m' ∈ H}
  | _ => H

/-- The action is possible with the data `d`, if the mutexes with `free` are. A thread that
    sleeps is not counted on to wake up by itself. -/
def Ready (free : μ → Prop) (d : σ) : Action μ σ ε κ → Prop
  | act f => ∃ e d' k', f e d = some (d', k')
  | lock m _ => free m
  | unlock _ _ | wait _ _ | notify _ _ => True
  | asleep _ _ _ | halt => False

/-- The action releases `m`. -/
def releases (m : μ) : Action μ σ ε κ → Prop
  | unlock m' _ | wait m' _ => m' = m
  | _ => False

end Action

/-- Threads `ι` that share data. -/
structure Monitor (ι μ σ ε : Type*) (κ : ι → Type*) where
  data : σ
  start : (t : ι) → κ t
  program : (t : ι) → κ t → Action μ σ ε (κ t)

namespace Monitor

/-- The data, where each thread is, and who has each mutex. -/
structure State {ι : Type*} (μ σ : Type*) (κ : ι → Type*) where
  data : σ
  place : (t : ι) → κ t
  owner : μ → Option ι

/-- A thread takes its next step, or wakes up for no reason, or after its time. -/
inductive Event (ι ε : Type*)
  | run (t : ι) (input : ε)
  | spurious (t : ι)
  | expire (t : ι)
  deriving DecidableEq

/-- The thread that takes the step. -/
def Event.thread {ι ε : Type*} : Event ι ε → ι
  | run t _ | spurious t | expire t => t

variable {ι μ σ ε : Type*} {κ : ι → Type*} (M : Monitor ι μ σ ε κ)

/-- The place of a thread after a notification of the condition variable of `m`. -/
def wake [DecidableEq μ] (m : μ) (t : ι) (k : κ t) : κ t :=
  match M.program t k with
  | .asleep m' next _ => if m' = m then next else k
  | _ => k

theorem wake_cases [DecidableEq μ] (m : μ) (t : ι) (k : κ t) : M.wake m t k = k ∨
    ∃ next expired, M.program t k = .asleep m next expired ∧ M.wake m t k = next := by
  rw [wake]
  cases hp : M.program t k with
  | asleep m' next expired =>
    by_cases hm : m' = m
    · subst hm
      exact .inr ⟨next, expired, rfl, if_pos rfl⟩
    · exact .inl (if_neg hm)
  | _ => exact .inl rfl

namespace State

variable [DecidableEq ι] (s : State μ σ κ) {t t' : ι}

/-- The thread `t` is at `k` now. -/
def goto (t : ι) (k : κ t) : State μ σ κ := { s with place := Function.update s.place t k }

@[simp]
theorem place_goto_self (k : κ t) : (s.goto t k).place t = k := Function.update_self ..

@[simp]
theorem place_goto_of_ne (h : t' ≠ t) (k : κ t) : (s.goto t k).place t' = s.place t' :=
  Function.update_of_ne h ..

/-- The mutex `m` belongs to `o` now. -/
def setOwner [DecidableEq μ] (m : μ) (o : Option ι) : State μ σ κ :=
  { s with owner := Function.update s.owner m o }

end State

/-! ### Notions -/

/-- The places tell which mutexes a thread has: an action changes them as it should,
    and a mutex is only released by a thread that has it. -/
structure Disciplined (holds : (t : ι) → κ t → Set μ) : Prop where
  start : ∀ t, holds t (M.start t) = ∅
  next : ∀ {t k d d' k'}, (M.program t k).Leads d d' k' →
    holds t k' = (M.program t k).held (holds t k)
  released : ∀ {t k m}, (M.program t k).releases m → m ∈ holds t k

section Owned

variable {holds : (t : ι) → κ t → Set μ} {s : State μ σ κ} {t t' : ι} {m : μ}

/-- The mutexes agree with the places. -/
def Owned (holds : (t : ι) → κ t → Set μ) (s : State μ σ κ) : Prop :=
  ∀ m t, s.owner m = some t ↔ m ∈ holds t (s.place t)

/-- Two threads do not hold one mutex. -/
theorem Owned.unique (hs : Owned holds s) (h : m ∈ holds t (s.place t))
    (h' : m ∈ holds t' (s.place t')) : t = t' :=
  Option.some.inj (((hs m t).2 h).symm.trans ((hs m t').2 h'))

end Owned

/-- At its place a thread is about to fall asleep at one of the places `W`, until `m` is
    notified. -/
def Entering (m : μ) (W : (t : ι) → Set (κ t)) (t : ι) (k : κ t) : Prop :=
  ∃ next ∈ W t, M.program t k = .wait m next

/-- The place is one of `W`, and the thread is asleep there until `m` is notified. -/
def Sleeping (m : μ) (W : (t : ι) → Set (κ t)) (t : ι) (k : κ t) : Prop :=
  k ∈ W t ∧ ∃ next expired, M.program t k = .asleep m next expired

/-- Threads wait for `P` at the places `W`: they fall asleep after a test, and those that
    make it true are to notify (`owes`). -/
structure Notifying (m : μ) (W : (t : ι) → Set (κ t)) (P : σ → Prop)
    (owes : (t : ι) → Set (κ t)) : Prop where
  start : ∀ t, ¬M.Entering m W t (M.start t) ∧ ¬M.Sleeping m W t (M.start t)
  tested : ∀ {t k d d' k'}, (M.program t k).Leads d d' k' → M.Entering m W t k' → ¬P d'
  entered : ∀ {t k d d' k'}, (M.program t k).Leads d d' k' → M.Sleeping m W t k' →
    M.Entering m W t k
  owed : ∀ {t k d d' k'}, (M.program t k).Leads d d' k' → ¬P d → P d' → k' ∈ owes t
  kept : ∀ {t k d d' k'}, (M.program t k).Leads d d' k' → k ∈ owes t →
    k' ∈ owes t ∨ ∃ next, M.program t k = .notify m next

/-- If somebody sleeps, or is about to, although `P` holds, somebody is to notify. -/
def Notified (m : μ) (W : (t : ι) → Set (κ t)) (P : σ → Prop) (owes : (t : ι) → Set (κ t))
    (s : State μ σ κ) : Prop :=
  (∃ t, M.Entering m W t (s.place t) ∨ M.Sleeping m W t (s.place t)) → P s.data →
    ∃ t, s.place t ∈ owes t

section Wake

variable {M} {m : μ} {W owes : (t : ι) → Set (κ t)} {P : σ → Prop}

/-- A thread that wakes up does not fall asleep at once. -/
theorem Notifying.not_sleeping_next (h : M.Notifying m W P owes) {t : ι} {m' : μ} {k next : κ t}
    {expired : Option (κ t)} (hp : M.program t k = .asleep m' next expired) :
    ¬M.Sleeping m W t next := by
  intro hsleep
  have hleads : (M.program t k).Leads M.data M.data next := by
    rw [hp]
    exact ⟨rfl, .inl rfl⟩
  obtain ⟨_, _, hp'⟩ := h.entered hleads hsleep
  rw [hp] at hp'
  cases hp'

/-- After a notification nobody sleeps. -/
theorem Notifying.not_sleeping_wake [DecidableEq μ] (h : M.Notifying m W P owes) (t : ι) (k : κ t) :
    ¬M.Sleeping m W t (M.wake m t k) := by
  intro hs
  rcases M.wake_cases m t k with hw | ⟨next, expired, hp, hw⟩
  · rw [hw] at hs
    have ⟨_, next, expired, hp⟩ := hs
    have hnext : M.wake m t k = next := by
      rw [wake, hp]
      exact if_pos rfl
    exact h.not_sleeping_next hp (hnext ▸ hw.symm ▸ hs)
  · rw [hw] at hs
    exact h.not_sleeping_next hp hs

end Wake

section Step

variable [DecidableEq ι] [DecidableEq μ]

/-- One step of one of the threads. -/
def step (s : State μ σ κ) : Event ι ε → Option (State μ σ κ)
  | .run t input =>
    match M.program t (s.place t) with
    | .act f => (f input s.data).map fun (d, k) => { s with data := d }.goto t k
    | .lock m next => if s.owner m = none then some ((s.setOwner m (some t)).goto t next) else none
    | .unlock m next | .wait m next => some ((s.setOwner m none).goto t next)
    | .notify m next => some (State.goto { s with place := fun t => M.wake m t (s.place t) } t next)
    | .asleep _ _ _ | .halt => none
  | .spurious t =>
    match M.program t (s.place t) with
    | .asleep _ next _ => some (s.goto t next)
    | _ => none
  | .expire t =>
    match M.program t (s.place t) with
    | .asleep _ _ (some k) => some (s.goto t k)
    | _ => none

/-- The threads with their steps interleaved in any order. -/
def automaton : Automaton (State μ σ κ) (Event ι ε) where
  init := ⟨M.data, M.start, fun _ => none⟩
  step := M.step

/-! ### Moves -/

/-- What a step of the thread `t` can do. -/
inductive Move (s : State μ σ κ) (t : ι) : State μ σ κ → Prop
  | act {f : ε → σ → Option (σ × κ t)} {input : ε} {d : σ} {k : κ t}
      (hp : M.program t (s.place t) = .act f) (hf : f input s.data = some (d, k)) :
      Move s t (State.goto { s with data := d } t k)
  | lock {m : μ} {k : κ t} (hp : M.program t (s.place t) = .lock m k) (hfree : s.owner m = none) :
      Move s t ((s.setOwner m (some t)).goto t k)
  | unlock {m : μ} {k : κ t} (hp : M.program t (s.place t) = .unlock m k) :
      Move s t ((s.setOwner m none).goto t k)
  | wait {m : μ} {k : κ t} (hp : M.program t (s.place t) = .wait m k) :
      Move s t ((s.setOwner m none).goto t k)
  | notify {m : μ} {k : κ t} (hp : M.program t (s.place t) = .notify m k) :
      Move s t (State.goto { s with place := fun t => M.wake m t (s.place t) } t k)
  | wakeUp {m : μ} {next k : κ t} {expired : Option (κ t)}
      (hp : M.program t (s.place t) = .asleep m next expired) (hk : k = next ∨ k ∈ expired) :
      Move s t (s.goto t k)

variable {M} {s s' : State μ σ κ} {e : Event ι ε} {t t' : ι} {m : μ}

theorem move_of_step (h : M.step s e = some s') : M.Move s e.thread s' := by
  cases e with
  | run t input =>
    rw [step] at h
    cases hp : M.program t (s.place t) with
    | act f =>
      rw [hp] at h
      obtain ⟨⟨d, k⟩, hf, rfl⟩ := Option.map_eq_some_iff.1 h
      exact .act hp hf
    | lock m next =>
      rw [hp] at h
      obtain ⟨hfree, h⟩ := Option.ite_none_right_eq_some.1 h
      obtain rfl := Option.some.inj h
      exact .lock hp hfree
    | unlock m next =>
      rw [hp] at h
      obtain rfl := Option.some.inj h
      exact .unlock hp
    | wait m next =>
      rw [hp] at h
      obtain rfl := Option.some.inj h
      exact .wait hp
    | notify m next =>
      rw [hp] at h
      obtain rfl := Option.some.inj h
      exact .notify hp
    | asleep m next expired =>
      rw [hp] at h
      cases h
    | halt =>
      rw [hp] at h
      cases h
  | spurious t =>
    rw [step] at h
    split at h
    · next hp =>
      obtain rfl := Option.some.inj h
      exact .wakeUp hp (.inl rfl)
    · cases h
  | expire t =>
    rw [step] at h
    split at h
    · next hp =>
      obtain rfl := Option.some.inj h
      exact .wakeUp hp (.inr rfl)
    · cases h

/-- A thread that sleeps without a time limit only wakes up for no reason. -/
theorem eq_spurious_of_asleep {next : κ t} (h : M.step s e = some s') (ht : e.thread = t)
    (hp : M.program t (s.place t) = .asleep m next none) : e = .spurious t := by
  subst ht
  cases e with
  | run t input =>
    change M.program t (s.place t) = _ at hp
    simp only [step, hp] at h
    cases h
  | spurious t => rfl
  | expire t =>
    change M.program t (s.place t) = _ at hp
    simp only [step, hp] at h
    cases h

/-- A thread whose next action is possible can take it. -/
theorem exists_step_of_ready [Inhabited ε]
    (h : (M.program t (s.place t)).Ready (fun m => s.owner m = none) s.data) :
    ∃ input s', M.step s (.run t input) = some s' := by
  simp only [step]
  cases hp : M.program t (s.place t) with
  | act f =>
    rw [hp] at h
    obtain ⟨input, d, k, hf⟩ := h
    exact ⟨input, _, Option.map_eq_some_iff.2 ⟨(d, k), hf, rfl⟩⟩
  | lock m next =>
    rw [hp] at h
    exact ⟨default, _, if_pos h⟩
  | unlock m next | wait m next | notify m next => exact ⟨default, _, rfl⟩
  | asleep m next expired | halt =>
    rw [hp] at h
    exact absurd h id

/-- The thread that moves takes its next action. -/
theorem Move.leads (h : M.Move s t s') :
    (M.program t (s.place t)).Leads s.data s'.data (s'.place t) := by
  cases h with
  | act hp hf =>
    rw [hp, State.place_goto_self]
    exact ⟨_, hf⟩
  | lock hp _ | unlock hp | wait hp | notify hp =>
    rw [hp, State.place_goto_self]
    exact ⟨rfl, rfl⟩
  | wakeUp hp hk =>
    rw [hp, State.place_goto_self]
    exact ⟨rfl, hk⟩

/-- Another thread stays where it is, unless it is woken. -/
theorem Move.place_of_ne (h : M.Move s t s') (hne : t' ≠ t) :
    s'.place t' = s.place t' ∨ ∃ m next expired k,
      M.program t (s.place t) = .notify m k ∧
        M.program t' (s.place t') = .asleep m next expired ∧ s'.place t' = next := by
  cases h with
  | @notify m k hp =>
    rw [State.place_goto_of_ne _ hne]
    rcases M.wake_cases m t' (s.place t') with hw | ⟨next, expired, hsleep, hw⟩
    · exact .inl hw
    · exact .inr ⟨m, next, expired, k, hp, hsleep, hw⟩
  | _ => exact .inl (State.place_goto_of_ne _ hne _)

/-! ### Mutexes -/

section Disciplined

variable {holds : (t : ι) → κ t → Set μ}

/-- What another thread has stays the same. -/
theorem Disciplined.holds_of_ne (h : M.Disciplined holds) (hm : M.Move s t s') (hne : t' ≠ t) :
    holds t' (s'.place t') = holds t' (s.place t') := by
  rcases hm.place_of_ne hne with heq | ⟨m, next, expired, k, -, hsleep, hnext⟩
  · rw [heq]
  · have hleads : (M.program t' (s.place t')).Leads s.data s.data next := by
      rw [hsleep]
      exact ⟨rfl, .inl rfl⟩
    rw [hnext, h.next hleads, hsleep]
    rfl

/-- A step keeps every mutex with one owner. -/
theorem Disciplined.owned_move (h : M.Disciplined holds) (hs : Owned holds s)
    (hm : M.Move s t s') : Owned holds s' := by
  intro m' t'
  have hother (hne : t' ≠ t) := h.holds_of_ne hm hne
  have hself := h.next hm.leads
  cases hm with
  | act hp _ | notify hp | wakeUp hp _ =>
    rw [hp] at hself
    by_cases ht : t' = t
    · subst ht
      rw [hself]
      exact hs m' t'
    · rw [hother ht]
      exact hs m' t'
  | @lock m k hp hfree =>
    rw [hp] at hself
    by_cases hm : m' = m
    -- The mutex was free, and so nobody else has it.
    · subst hm
      refine (show _ ↔ _ from ?_)
      rw [show ((s.setOwner m' (some t)).goto t k).owner m' = some t from Function.update_self ..]
      by_cases ht : t' = t
      · subst ht
        rw [hself]
        exact iff_of_true rfl (.inl rfl)
      · rw [hother ht, ← hs m' t', hfree]
        exact iff_of_false (fun h => ht (Option.some.inj h).symm) (by simp)
    · rw [show ((s.setOwner m (some t)).goto t k).owner m' = s.owner m' from
        Function.update_of_ne hm ..]
      by_cases ht : t' = t
      · subst ht
        rw [hself, hs m' t']
        exact (or_iff_right hm).symm
      · rw [hother ht]
        exact hs m' t'
  | @unlock m k hp | @wait m k hp =>
    have hhas : m ∈ holds t (s.place t) := h.released (by rw [hp]; rfl)
    rw [hp] at hself
    by_cases hm : m' = m
    · subst hm
      rw [show ((s.setOwner m' none).goto t k).owner m' = none from Function.update_self ..]
      refine iff_of_false (by simp) fun hmem => ?_
      by_cases ht : t' = t
      · subst ht
        rw [hself] at hmem
        exact hmem.1 rfl
      · rw [hother ht] at hmem
        exact ht (hs.unique hmem hhas)
    · rw [show ((s.setOwner m none).goto t k).owner m' = s.owner m' from
        Function.update_of_ne hm ..]
      by_cases ht : t' = t
      · subst ht
        rw [hself, hs m' t']
        exact (and_iff_right hm).symm
      · rw [hother ht]
        exact hs m' t'

/-- A mutex is had by the thread whose place says so, and by nobody else. -/
theorem Disciplined.owner_iff (h : M.Disciplined holds) (hs : M.automaton.Reachable s) :
    Owned holds s :=
  hs.invariant
    (fun m t => by
      change none = some t ↔ m ∈ holds t (M.start t)
      rw [h.start t]
      simp)
    fun _ _ _ hs hstep => h.owned_move hs (move_of_step hstep)

/-- What is only written under `m` does not change while another thread has it. -/
theorem guarded_move {γ : Type*} {g : σ → γ}
    (hg : ∀ {t k d d' k'}, (M.program t k).Leads d d' k' → m ∉ holds t k → g d' = g d)
    (hs : Owned holds s) (hm : M.Move s t s') (hne : t' ≠ t)
    (hhas : m ∈ holds t' (s.place t')) : g s'.data = g s.data :=
  hg hm.leads fun h => hne (hs.unique hhas h)

end Disciplined

/-! ### Wakeups -/

section Wakeups

variable {W owes : (t : ι) → Set (κ t)} {P : σ → Prop}

/-- Another thread that is about to sleep, or asleep, was so before. -/
theorem Notifying.waiting_of_ne (h : M.Notifying m W P owes) (hm : M.Move s t s') (hne : t' ≠ t)
    (hP : P s'.data) (hw : M.Entering m W t' (s'.place t') ∨ M.Sleeping m W t' (s'.place t')) :
    s'.place t' = s.place t' := by
  rcases hm.place_of_ne hne with heq | ⟨m', next, expired, k, -, hsleep, hnext⟩
  · exact heq
  -- A thread that is woken up goes on to neither.
  · have hleads : (M.program t' (s.place t')).Leads s'.data s'.data next := by
      rw [hsleep]
      exact ⟨rfl, .inl rfl⟩
    rw [hnext] at hw
    rcases hw with hw | hw
    · exact absurd hP (h.tested hleads hw)
    · exact absurd hw (h.not_sleeping_next hsleep)

/-- A step keeps somebody to notify, unless a notification comes while a thread falls asleep. -/
theorem Notifying.notified_move (h : M.Notifying m W P owes) (hs : M.Notified m W P owes s)
    (hheard : ∀ next, M.program t (s.place t) = .notify m next → P s.data →
      ∀ t, ¬M.Entering m W t (s.place t))
    (hm : M.Move s t s') : M.Notified m W P owes s' := by
  rintro ⟨t₀, hw⟩ hP
  have hleads := hm.leads
  by_cases hn : ∃ next, M.program t (s.place t) = .notify m next
  · -- The step is a notification of `m`, after which nobody waits any more.
    exfalso
    obtain ⟨next, hn⟩ := hn
    by_cases ht : t₀ = t
    · subst ht
      rcases hw with hw | hw
      · -- Who waits is the thread itself, but a notification leads to no wait.
        exact h.tested hleads hw hP
      · obtain ⟨_, _, hp⟩ := h.entered hleads hw
        rw [hn] at hp
        cases hp
    · -- Another thread: it was asleep and is woken, or it was about to be and has missed the step.
      have heq := h.waiting_of_ne hm ht hP hw
      cases hm with
      | @notify m' k hp =>
        obtain ⟨rfl, rfl⟩ : m' = m ∧ k = next := by simpa using hp.symm.trans hn
        rw [State.place_goto_of_ne _ ht] at heq hw
        rcases hw with hw | hw
        · rw [heq] at hw
          exact hheard _ hn hP t₀ hw
        · exact h.not_sleeping_wake _ _ hw
      | act hp | lock hp | unlock hp | wait hp | wakeUp hp =>
        rw [hn] at hp
        cases hp
  · by_cases hP₀ : P s.data
    · -- `P` held before: somebody waited then as well, so somebody owed a notification, and still
      -- does.
      have hw₀ : M.Entering m W t₀ (s.place t₀) ∨ M.Sleeping m W t₀ (s.place t₀) := by
        by_cases ht : t₀ = t
        · subst ht
          rcases hw with hw | hw
          · exact absurd hP (h.tested hleads hw)
          · exact .inl (h.entered hleads hw)
        · rwa [h.waiting_of_ne hm ht hP hw] at hw
      obtain ⟨t₁, ho⟩ := hs ⟨t₀, hw₀⟩ hP₀
      refine ⟨t₁, ?_⟩
      by_cases ht : t₁ = t
      · subst ht
        exact (h.kept hleads ho).resolve_right hn
      · rcases hm.place_of_ne ht with heq | ⟨m', next, expired, k, -, hsleep, hnext⟩
        · rwa [heq]
        · have hleads : (M.program t₁ (s.place t₁)).Leads s.data s.data next := by
            rw [hsleep]
            exact ⟨rfl, .inl rfl⟩
          rw [hnext]
          refine (h.kept hleads ho).resolve_right ?_
          rintro ⟨_, hp⟩
          rw [hsleep] at hp
          cases hp
    · -- The step makes `P` true, so its thread owes a notification.
      exact ⟨t, h.owed hleads hP₀ hP⟩

theorem Notifying.notified_init (h : M.Notifying m W P owes) :
    M.Notified m W P owes M.automaton.init := by
  rintro ⟨t, hw⟩ -
  exact absurd hw (not_or.2 (h.start t))

/-- If what is waited for is only made true under the mutex, no wakeup is lost. -/
theorem notified_of_guarded {holds : (t : ι) → κ t → Set μ} (hd : M.Disciplined holds)
    (h : M.Notifying m W P owes)
    (hg : ∀ {t k d d' k'}, (M.program t k).Leads d d' k' → m ∉ holds t k → P d' → P d)
    (hs : M.automaton.Reachable s) :
    M.Notified m W P owes s ∧ ∀ t, M.Entering m W t (s.place t) → ¬P s.data := by
  suffices hinv : Owned holds s ∧ M.Notified m W P owes s ∧
      ∀ t, M.Entering m W t (s.place t) → ¬P s.data from hinv.2
  refine hs.invariant (P := fun s => Owned holds s ∧ M.Notified m W P owes s ∧
    ∀ t, M.Entering m W t (s.place t) → ¬P s.data) ?_ ?_
  · exact ⟨hd.owner_iff ⟨[], .init⟩, h.notified_init, fun t ht => absurd ht (h.start t).1⟩
  · rintro s e s' ⟨howned, hn, hent⟩ hstep
    have hm := move_of_step hstep
    refine ⟨hd.owned_move howned hm, h.notified_move hn (fun _ _ hP t ht => hent t ht hP) hm,
      fun t ht hP => ?_⟩
    by_cases hte : t = e.thread
    · subst hte
      exact h.tested hm.leads ht hP
    -- Whoever is about to sleep has the mutex.
    · rw [h.waiting_of_ne hm hte hP (.inl ht)] at ht
      have hhas : m ∈ holds t (s.place t) := by
        obtain ⟨_, _, hp⟩ := ht
        exact hd.released (by rw [hp]; rfl)
      exact hent t ht (hg hm.leads (fun h' => hte (howned.unique hhas h')) hP)

end Wakeups

end Step

end Monitor

end RtcmBridge

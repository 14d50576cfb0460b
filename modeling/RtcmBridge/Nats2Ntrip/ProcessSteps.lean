import RtcmBridge.Nats2Ntrip.Process

/-!
# Steps of the process

For each thread, what its next action can be (`Worker.Goes`, `Delivery.Goes`,
`Main.Goes`), what it leaves alone (the frames), and which mutexes it has at a place:
the process is disciplined (`disciplined`), so that no two threads have the same mutex.
-/

namespace RtcmBridge.Nats2Ntrip.Process

/-! ### Steps -/

section Steps

variable {n : ℕ} {options : Options} {hash : Fin n → UInt64} {i : Fin n}

/-- A statement leads to its own effect, and to nothing else. -/
@[simp]
theorem leads_statement {κ : Type} {f : Members → Members} {k k' : κ} {d d' : Shared n} :
    (statement i f k).Leads d d' k' ↔ d' = d.modify i f ∧ k' = k := by
  simp [statement, Action.Leads, eq_comm]

/-- A test changes nothing. -/
@[simp]
theorem leads_choose {κ : Type} {f : Shared n → κ} {k' : κ} {d d' : Shared n} :
    (choose f).Leads d d' k' ↔ d' = d ∧ k' = f d := by
  simp [choose, Action.Leads, eq_comm]

/-- What the next action of a worker can be. -/
inductive Worker.Goes (options : Options) (i : Fin n) (d : Shared n) :
    Worker → Shared n → Worker → Prop
  | start (h : (d.session i).joinable = true) : Goes options i d .unborn d .run
  | connect (h : d.stopping i = false) : Goes options i d .run d .source
  | exit (h : d.stopping i = true) : Goes options i d .run d .exiting
  | connected : Goes options i d .source d .stream
  | sourceFailed : Goes options i d .source d .caught
  | stream (h : d.stopping i = false) : Goes options i d .stream d .lock
  | streamLeft (h : d.stopping i = true) : Goes options i d .stream d .returned
  | lock : Goes options i d .lock d .test
  | found (h : d.stopping i = true ∨ (d.session i).queue ≠ []) : Goes options i d .test d .tested
  | sleep (h : d.stopping i = false) (hq : (d.session i).queue = []) :
      Goes options i d .test d .sleep
  | asleep : Goes options i d .sleep d .asleep
  | woken : Goes options i d .asleep d .lock
  | take (h : d.stopping i = false) : Goes options i d .tested d .pop
  | tell (h : d.stopping i = true) : Goes options i d .tested d .leave
  | pop (p : Payload) (queue : List Payload) (hq : (d.session i).queue = p :: queue) :
      Goes options i d .pop (d.modify i fun m => { m with queue }) (.popped p)
  | popped (p : Payload) : Goes options i d (.popped p)
      (d.modify i fun m => { m with queuedBytes := m.queuedBytes - p.size }) (.popUnlock p)
  | popUnlock (p : Payload) : Goes options i d (.popUnlock p) d (.writing p)
  | wrote (p : Payload) : Goes options i d (.writing p)
      (d.modify i fun m => { m with written := m.written ++ [p] }) .stream
  | writeFailed (p : Payload) : Goes options i d (.writing p) d .caught
  | leave : Goes options i d .leave d .returned
  | reset : Goes options i d .returned
      (d.modify i fun m => { m with reconnectDelay := options.reconnectMinSec }) .run
  | recover (h : d.stopping i = false) : Goes options i d .caught d .clearLock
  | giveUp (h : d.stopping i = true) : Goes options i d .caught d .exiting
  | clearLock : Goes options i d .clearLock d .clear
  | clearNothing (hq : (d.session i).queue = []) : Goes options i d .clear d .clearUnlock
  | clear (hq : (d.session i).queue ≠ []) : Goes options i d .clear d (.clearing 0)
  | clearing (n : UInt64) (p : Payload) (queue : List Payload)
      (hq : (d.session i).queue = p :: queue) :
      Goes options i d (.clearing n) (d.modify i fun m => { m with queue }) (.clearing (n + p.size))
  | cleared (n : UInt64) (hq : (d.session i).queue = []) :
      Goes options i d (.clearing n) d (.cleared n)
  | discard (n : UInt64) : Goes options i d (.cleared n)
      (d.modify i fun m => { m with queuedBytes := 0 }) (.discarded n)
  | discarded (n : UInt64) : Goes options i d (.discarded n)
      (d.modify i fun m => { m with droppedBytes := m.droppedBytes + n }) .clearUnlock
  | clearUnlock : Goes options i d .clearUnlock d .backoff
  | backoff : Goes options i d .backoff d .backoffLock
  | backoffLock : Goes options i d .backoffLock d .backoffTest
  | backoffStop (h : d.stopping i = true) : Goes options i d .backoffTest d .awake
  | backoffSleep (h : d.stopping i = false) : Goes options i d .backoffTest d .backoffSleep
  | sleeping : Goes options i d .backoffSleep d .sleeping
  | sleepWoken : Goes options i d .sleeping d .backoffLock
  | sleepExpired : Goes options i d .sleeping d .expired
  | expired : Goes options i d .expired d .awake
  | awake : Goes options i d .awake
      (d.modify i fun m =>
        { m with reconnectDelay := min (m.reconnectDelay * 2) options.reconnectMaxSec })
      .awakeUnlock
  | awakeUnlock : Goes options i d .awakeUnlock d .run
  | ended : Goes options i d .exiting (d.modify i fun m => { m with ended := true }) .exited

/-- An action of the worker is one of the listed ones. -/
theorem worker_goes {k k' : Worker} {d d' : Shared n} (h : (worker options i k).Leads d d' k') :
    Worker.Goes options i d k d' k' := by
  cases k with
  | unborn =>
    obtain ⟨_, h⟩ := h
    obtain ⟨hj, h⟩ := Option.ite_none_right_eq_some.1 h
    obtain ⟨rfl, rfl⟩ := Prod.mk.inj (Option.some.inj h)
    exact .start hj
  | run =>
    obtain ⟨rfl, rfl⟩ := leads_choose.1 h
    split_ifs with hst
    · exact .exit hst
    · exact .connect (Bool.eq_false_iff.2 hst)
  | source =>
    obtain ⟨input, h⟩ := h
    obtain ⟨rfl, rfl⟩ := Prod.mk.inj (Option.some.inj h)
    split_ifs
    · exact .connected
    · exact .sourceFailed
  | stream =>
    obtain ⟨rfl, rfl⟩ := leads_choose.1 h
    split_ifs with hst
    · exact .streamLeft hst
    · exact .stream (Bool.eq_false_iff.2 hst)
  | test =>
    obtain ⟨rfl, rfl⟩ := leads_choose.1 h
    split_ifs with hst
    · exact .found (by simpa using hst)
    · simp only [Bool.or_eq_true, not_or, Bool.not_eq_true] at hst
      exact .sleep hst.1 (by simpa using hst.2)
  | tested =>
    obtain ⟨rfl, rfl⟩ := leads_choose.1 h
    split_ifs with hst
    · exact .tell hst
    · exact .take (Bool.eq_false_iff.2 hst)
  | pop =>
    obtain ⟨_, h⟩ := h
    cases hq : (d.session i).queue with
    | nil => simp [hq] at h
    | cons p queue =>
      simp only [hq] at h
      obtain ⟨rfl, rfl⟩ := Prod.mk.inj (Option.some.inj h)
      exact .pop p queue hq
  | writing p =>
    obtain ⟨input, h⟩ := h
    dsimp only at h
    split_ifs at h
    · obtain ⟨rfl, rfl⟩ := Prod.mk.inj (Option.some.inj h)
      exact .wrote p
    · obtain ⟨rfl, rfl⟩ := Prod.mk.inj (Option.some.inj h)
      exact .writeFailed p
  | caught =>
    obtain ⟨rfl, rfl⟩ := leads_choose.1 h
    split_ifs with hst
    · exact .giveUp hst
    · exact .recover (Bool.eq_false_iff.2 hst)
  | clear =>
    obtain ⟨rfl, rfl⟩ := leads_choose.1 h
    split_ifs with hq
    · exact .clearNothing (by simpa using hq)
    · exact .clear (by simpa using hq)
  | clearing c =>
    obtain ⟨_, h⟩ := h
    cases hq : (d.session i).queue with
    | nil =>
      simp only [hq] at h
      obtain ⟨rfl, rfl⟩ := Prod.mk.inj (Option.some.inj h)
      exact .cleared c hq
    | cons p queue =>
      simp only [hq] at h
      obtain ⟨rfl, rfl⟩ := Prod.mk.inj (Option.some.inj h)
      exact .clearing c p queue hq
  | backoffTest =>
    obtain ⟨rfl, rfl⟩ := leads_choose.1 h
    split_ifs with hst
    · exact .backoffStop hst
    · exact .backoffSleep (Bool.eq_false_iff.2 hst)
  | sleeping =>
    obtain ⟨rfl, rfl | hk⟩ := h
    · exact .sleepWoken
    · obtain rfl := Option.some.inj hk
      exact .sleepExpired
  | asleep =>
    obtain ⟨rfl, rfl | hk⟩ := h
    · exact .woken
    · cases hk
  | popped p | returned | cleared c | discarded c | awake | exiting =>
    obtain ⟨rfl, rfl⟩ := leads_statement.1 h
    constructor
  | backoff =>
    obtain ⟨rfl, rfl⟩ := leads_choose.1 h
    exact .backoff
  | lock | sleep | popUnlock p | leave | clearLock | clearUnlock | backoffLock | backoffSleep
  | expired | awakeUnlock =>
    obtain ⟨rfl, rfl⟩ := h
    constructor
  | exited => cases h

/-- What the next action of a delivery can be. -/
inductive Delivery.Goes (options : Options) (i : Fin n) (d : Shared n) :
    Delivery → Shared n → Delivery → Prop
  | arrive (data : Bytes) (hsub : (d.session i).subscribed = true) (hlen : data.length < 2 ^ 31)
      (hpos : data.length > 0) : Goes options i d .idle d (.lock data)
  | ignore (hsub : (d.session i).subscribed = true) : Goes options i d .idle d .idle
  | lock (data : Bytes) : Goes options i d (.lock data) d (.push data)
  | push (data : Bytes) : Goes options i d (.push data)
      (d.modify i fun m =>
        { m with queue := m.queue ++ [⟨m.arrivals, data⟩], arrivals := m.arrivals + 1 })
      (.queuedBytes ⟨(d.session i).arrivals, data⟩)
  | queuedBytes (p : Payload) : Goes options i d (.queuedBytes p)
      (d.modify i fun m => { m with queuedBytes := m.queuedBytes + p.size }) (.total p)
  | total (p : Payload) : Goes options i d (.total p)
      (d.modify i fun m => { m with total := m.total + p.size }) .trim
  | trim (h : (d.session i).queuedBytes > StreamSession.maxQueueBytes options)
      (hq : (d.session i).queue ≠ []) : Goes options i d .trim d .trimDropped
  | trimmed (h : ¬((d.session i).queuedBytes > StreamSession.maxQueueBytes options ∧
      (d.session i).queue ≠ [])) : Goes options i d .trim d .log
  | trimDropped (p : Payload) (queue : List Payload) (hq : (d.session i).queue = p :: queue) :
      Goes options i d .trimDropped
        (d.modify i fun m => { m with droppedBytes := m.droppedBytes + p.size }) .trimQueued
  | trimQueued (p : Payload) (queue : List Payload) (hq : (d.session i).queue = p :: queue) :
      Goes options i d .trimQueued
        (d.modify i fun m => { m with queuedBytes := m.queuedBytes - p.size }) .trimPop
  | trimPop : Goes options i d .trimPop (d.modify i fun m => { m with queue := m.queue.tail }) .trim
  | log : Goes options i d .log
      (d.modify i fun m =>
        if m.total - m.lastLog ≥ options.throughputLogEveryBytes.toInt64.toUInt64 then
          { m with lastLog := m.total }
        else m)
      .unlock
  | unlock : Goes options i d .unlock d .notify
  | notify : Goes options i d .notify d .idle

/-- An action of a delivery is one of the listed ones. -/
theorem delivery_goes {k k' : Delivery} {d d' : Shared n}
    (h : (delivery options i k).Leads d d' k') : Delivery.Goes options i d k d' k' := by
  cases k with
  | idle =>
    obtain ⟨input, h⟩ := h
    obtain ⟨⟨hsub, hlen⟩, h⟩ := Option.ite_none_right_eq_some.1 h
    obtain ⟨rfl, rfl⟩ := Prod.mk.inj (Option.some.inj h)
    split_ifs with hpos
    · exact .arrive input.data hsub hlen hpos
    · exact .ignore hsub
  | push data =>
    obtain ⟨_, h⟩ := h
    obtain ⟨rfl, rfl⟩ := Prod.mk.inj (Option.some.inj h)
    exact .push data
  | trim =>
    obtain ⟨rfl, rfl⟩ := leads_choose.1 h
    split_ifs with hq
    · exact .trim hq.1 hq.2
    · exact .trimmed hq
  | trimDropped | trimQueued =>
    obtain ⟨_, h⟩ := h
    cases hq : (d.session i).queue with
    | nil => simp [hq] at h
    | cons p queue =>
      simp only [hq] at h
      obtain ⟨rfl, rfl⟩ := Prod.mk.inj (Option.some.inj h)
      first | exact .trimDropped p queue hq | exact .trimQueued p queue hq
  | queuedBytes p | total p | trimPop | log =>
    obtain ⟨rfl, rfl⟩ := leads_statement.1 h
    constructor
  | lock data | unlock | notify =>
    obtain ⟨rfl, rfl⟩ := h
    constructor

/-- What the next action of `main` can be. -/
inductive Main.Goes (d : Shared n) : Main n → Shared n → Main n → Prop
  | started (i : Fin n) : Goes d (.starting i)
      (d.modify i fun m => { m with connected := true, subscribed := true }) (.spawning i)
  | startFailed (k : ℕ) (hk : k < n) : Goes d (.starting k) d (.tasks 1 false (leave (before n k)))
  | lock (k : ℕ) (hk : ¬k < n) : Goes d (.starting k) d .test
  | spawned (i : Fin n) : Goes d (.spawning i) (d.modify i fun m => { m with joinable := true })
      (.starting (i + 1))
  | spawnFailed (i : Fin n) :
      Goes d (.spawning i) d (.tasks 1 false (.stop i :: .destroy i :: leave (before n i)))
  | signalled (h : d.gStop = true) : Goes d .test d (.tasks 0 true (leave (before n n)))
  | sleep (h : d.gStop = false) : Goes d .test d .sleep
  | asleep : Goes d .sleep d .asleep
  | woken : Goes d .asleep d .relock
  | relock : Goes d .relock d .test
  | stop (i : Fin n) (code : ℕ) (locked : Bool) (ts : List (Task n)) :
      Goes d (.tasks code locked (.stop i :: ts)) d (.stop .set i code locked ts)
  | unlock (code : ℕ) (ts : List (Task n)) (hts : ∀ i ts', ts ≠ .stop i :: ts') :
      Goes d (.tasks code true ts) d (.tasks code false ts)
  | destroy (i : Fin n) (code : ℕ) (ts : List (Task n)) :
      Goes d (.tasks code false (.destroy i :: ts))
        (d.modify i fun m => { m with connected := false }) (.tasks code false ts)
  | exit (code : ℕ) : Goes d (.tasks code false []) d (.exited code)
  | set (i : Fin n) (code : ℕ) (locked : Bool) (ts : List (Task n)) :
      Goes d (.stop .set i code locked ts) (d.modify i fun m => { m with stop := true })
        (.stop .unlock i code locked ts)
  | unlockSession (i : Fin n) (code : ℕ) (locked : Bool) (ts : List (Task n)) :
      Goes d (.stop .unlock i code locked ts) d (.stop .notify i code locked ts)
  | notify (i : Fin n) (code : ℕ) (locked : Bool) (ts : List (Task n)) :
      Goes d (.stop .notify i code locked ts) d (.stop .unsubscribe i code locked ts)
  | unsubscribe (i : Fin n) (code : ℕ) (locked : Bool) (ts : List (Task n)) :
      Goes d (.stop .unsubscribe i code locked ts)
        (d.modify i fun m => { m with subscribed := false }) (.stop .join i code locked ts)
  | join (i : Fin n) (code : ℕ) (locked : Bool) (ts : List (Task n))
      (h : (d.session i).joinable = true → (d.session i).ended = true) :
      Goes d (.stop .join i code locked ts) d (.tasks code locked ts)

/-- An action of `main` is one of the listed ones. -/
theorem main_goes {k k' : Main n} {d d' : Shared n} (h : (main k).Leads d d' k') :
    Main.Goes d k d' k' := by
  cases k with
  | starting k =>
    rw [main] at h
    split_ifs at h with hk
    · obtain ⟨input, h⟩ := h
      dsimp only at h
      split_ifs at h
      · obtain ⟨rfl, rfl⟩ := Prod.mk.inj (Option.some.inj h)
        exact .started ⟨k, hk⟩
      · obtain ⟨rfl, rfl⟩ := Prod.mk.inj (Option.some.inj h)
        exact .startFailed k hk
    · obtain ⟨rfl, rfl⟩ := h
      exact .lock k hk
  | spawning i =>
    obtain ⟨input, h⟩ := h
    dsimp only at h
    split_ifs at h
    · obtain ⟨rfl, rfl⟩ := Prod.mk.inj (Option.some.inj h)
      exact .spawned i
    · obtain ⟨rfl, rfl⟩ := Prod.mk.inj (Option.some.inj h)
      exact .spawnFailed i
  | test =>
    obtain ⟨rfl, rfl⟩ := leads_choose.1 h
    split_ifs with hst
    · exact .signalled hst
    · exact .sleep (Bool.eq_false_iff.2 hst)
  | asleep =>
    obtain ⟨rfl, rfl | hk⟩ := h
    · exact .woken
    · cases hk
  | sleep | relock =>
    obtain ⟨rfl, rfl⟩ := h
    constructor
  | tasks code locked ts =>
    cases ts with
    | nil =>
      cases locked with
      | true =>
        obtain ⟨rfl, rfl⟩ := h
        exact .unlock code [] (by simp)
      | false =>
        obtain ⟨rfl, rfl⟩ := leads_choose.1 h
        exact .exit code
    | cons t ts =>
      cases t with
      | stop i =>
        obtain ⟨rfl, rfl⟩ := h
        exact .stop i code locked ts
      | destroy i =>
        cases locked with
        | true =>
          obtain ⟨rfl, rfl⟩ := h
          exact .unlock code _ (by simp)
        | false =>
          obtain ⟨rfl, rfl⟩ := leads_statement.1 h
          exact .destroy i code ts
  | stop pc i code locked ts =>
    cases pc with
    | set | unsubscribe =>
      obtain ⟨rfl, rfl⟩ := leads_statement.1 h
      constructor
    | unlock | notify =>
      obtain ⟨rfl, rfl⟩ := h
      constructor
    | join =>
      obtain ⟨_, h⟩ := h
      obtain ⟨hj, h⟩ := Option.ite_none_left_eq_some.1 h
      obtain ⟨rfl, rfl⟩ := Prod.mk.inj (Option.some.inj h)
      exact .join i code locked ts (by simpa using hj)
  | exited => cases h

/-- A signal sets `g_stop`, and its handler notifies `main`. -/
theorem signal_goes {k k' : Signal} {d d' : Shared n}
    (h : (signal k : Action (Mutex n) (Shared n) Input Signal).Leads d d' k') :
    (k = .idle ∧ d' = { d with gStop := true } ∧ k' = .notify) ∨
      (k = .notify ∧ d' = d ∧ k' = .idle) := by
  cases k with
  | idle =>
    obtain ⟨_, h⟩ := h
    obtain ⟨rfl, rfl⟩ := Prod.mk.inj (Option.some.inj h)
    exact .inl ⟨rfl, rfl, rfl⟩
  | notify =>
    obtain ⟨rfl, rfl⟩ := h
    exact .inr ⟨rfl, rfl, rfl⟩

end Steps

/-! ### Frames -/

section Frames

variable {n : ℕ} {options : Options} {i j : Fin n} {d d' : Shared n}

@[simp]
theorem Shared.gStop_modify (d : Shared n) (i : Fin n) (f : Members → Members) :
    (d.modify i f).gStop = d.gStop := rfl

@[simp]
theorem Shared.session_modify_self (d : Shared n) (i : Fin n) (f : Members → Members) :
    (d.modify i f).session i = f (d.session i) := Function.update_self ..

@[simp]
theorem Shared.session_modify_of_ne (d : Shared n) (h : j ≠ i) (f : Members → Members) :
    (d.modify i f).session j = d.session j := Function.update_of_ne h ..

/-- What a worker leaves alone. -/
structure WorkerFrame (i : Fin n) (d d' : Shared n) : Prop where
  gStop : d'.gStop = d.gStop
  session : ∀ j ≠ i, d'.session j = d.session j
  stop : (d'.session i).stop = (d.session i).stop
  subscribed : (d'.session i).subscribed = (d.session i).subscribed
  joinable : (d'.session i).joinable = (d.session i).joinable
  connected : (d'.session i).connected = (d.session i).connected
  queue : (d'.session i).queue <:+ (d.session i).queue

theorem WorkerFrame.refl (i : Fin n) (d : Shared n) : WorkerFrame i d d :=
  ⟨rfl, fun _ _ => rfl, rfl, rfl, rfl, rfl, List.suffix_rfl⟩

theorem workerFrame_modify {f : Members → Members}
    (h : ∀ m, (f m).stop = m.stop ∧ (f m).subscribed = m.subscribed ∧
      (f m).joinable = m.joinable ∧ (f m).connected = m.connected)
    (hq : (f (d.session i)).queue <:+ (d.session i).queue) : WorkerFrame i d (d.modify i f) := by
  obtain ⟨hs, hsub, hj, hc⟩ := h (d.session i)
  refine ⟨rfl, fun j hj => Shared.session_modify_of_ne d hj f, ?_, ?_, ?_, ?_, ?_⟩
  all_goals rw [Shared.session_modify_self]
  all_goals assumption

/-- No step of a worker touches what `main` sets, or another session. -/
theorem Worker.Goes.frame {k k' : Worker} (h : Worker.Goes options i d k d' k') :
    WorkerFrame i d d' := by
  cases h with
  | pop p queue hq | clearing c p queue hq =>
    exact workerFrame_modify (fun _ => ⟨rfl, rfl, rfl, rfl⟩) ⟨[p], hq.symm⟩
  | popped | wrote | reset | discard | discarded | awake | ended =>
    exact workerFrame_modify (fun _ => ⟨rfl, rfl, rfl, rfl⟩) List.suffix_rfl
  | _ => exact .refl i d

/-- What a delivery leaves alone. -/
structure DeliveryFrame (i : Fin n) (d d' : Shared n) : Prop where
  gStop : d'.gStop = d.gStop
  session : ∀ j ≠ i, d'.session j = d.session j
  stop : (d'.session i).stop = (d.session i).stop
  subscribed : (d'.session i).subscribed = (d.session i).subscribed
  joinable : (d'.session i).joinable = (d.session i).joinable
  connected : (d'.session i).connected = (d.session i).connected
  ended : (d'.session i).ended = (d.session i).ended
  reconnectDelay : (d'.session i).reconnectDelay = (d.session i).reconnectDelay
  written : (d'.session i).written = (d.session i).written

/-- No step of a delivery touches what `main` sets, or another session. -/
theorem Delivery.Goes.frame {k k' : Delivery} (h : Delivery.Goes options i d k d' k') :
    DeliveryFrame i d d' := by
  have hmodify {f : Members → Members} (h : (f (d.session i)).stop = (d.session i).stop ∧
      (f (d.session i)).subscribed = (d.session i).subscribed ∧
      (f (d.session i)).joinable = (d.session i).joinable ∧
      (f (d.session i)).connected = (d.session i).connected ∧
      (f (d.session i)).ended = (d.session i).ended ∧
      (f (d.session i)).reconnectDelay = (d.session i).reconnectDelay ∧
      (f (d.session i)).written = (d.session i).written) : DeliveryFrame i d (d.modify i f) := by
    obtain ⟨h₁, h₂, h₃, h₄, h₅, h₆, h₇⟩ := h
    refine ⟨rfl, fun j hj => Shared.session_modify_of_ne d hj f, ?_, ?_, ?_, ?_, ?_, ?_, ?_⟩
    all_goals rw [Shared.session_modify_self]
    all_goals assumption
  cases h with
  | push | queuedBytes | total | trimDropped | trimQueued | trimPop =>
    exact hmodify ⟨rfl, rfl, rfl, rfl, rfl, rfl, rfl⟩
  | log =>
    refine hmodify ?_
    split_ifs <;> exact ⟨rfl, rfl, rfl, rfl, rfl, rfl, rfl⟩
  | _ => exact ⟨rfl, fun _ _ => rfl, rfl, rfl, rfl, rfl, rfl, rfl, rfl⟩

/-- `main` changes the flags of a session only. -/
theorem Main.Goes.frame {k k' : Main n} (h : Main.Goes d k d' k') : d'.gStop = d.gStop ∧
    ∀ j, ∃ stop subscribed joinable connected, d'.session j =
      { d.session j with stop, subscribed, joinable, connected } := by
  have hmodify {i : Fin n} {f : Members → Members} (h : ∃ stop subscribed joinable connected,
      f (d.session i) = { d.session i with stop, subscribed, joinable, connected }) :
      (d.modify i f).gStop = d.gStop ∧ ∀ j, ∃ stop subscribed joinable connected,
        (d.modify i f).session j = { d.session j with stop, subscribed, joinable, connected } := by
    refine ⟨rfl, fun j => ?_⟩
    by_cases hj : j = i
    · subst hj
      rwa [Shared.session_modify_self]
    · rw [Shared.session_modify_of_ne d hj]
      exact ⟨_, _, _, _, rfl⟩
  cases h with
  | started | spawned | destroy | set | unsubscribe => exact hmodify ⟨_, _, _, _, rfl⟩
  | _ => exact ⟨rfl, fun j => ⟨_, _, _, _, rfl⟩⟩

end Frames

/-! ### Mutexes -/

/-- The places where the worker has `mtx_`. -/
def Worker.locked : Worker → Bool
  | .test | .sleep | .tested | .pop | .popped _ | .popUnlock _ | .leave => true
  | .clear | .clearing _ | .cleared _ | .discarded _ | .clearUnlock => true
  | .backoffTest | .backoffSleep | .awake | .awakeUnlock => true
  | _ => false

/-- The places where a delivery has `mtx_`. -/
def Delivery.locked : Delivery → Bool
  | .idle | .lock _ | .notify => false
  | _ => true

/-- The places of `stop` with `mtx_`. -/
def Stop.locked : Stop → Bool
  | .set | .unlock => true
  | _ => false

/-- `main` has `g_stop_mtx`. -/
def Main.locksStop {n : ℕ} : Main n → Bool
  | .test | .sleep => true
  | .tasks _ locked _ | .stop _ _ _ locked _ => locked
  | _ => false

/-- `main` has `mtx_` of a session. -/
def Main.locks {n : ℕ} (i : Fin n) : Main n → Bool
  | .stop pc j _ _ _ => pc.locked && i = j
  | _ => false

section Mutexes

variable {n : ℕ} {options : Options} {hash : Fin n → UInt64}

/-- The mutexes that a thread has at a place. -/
def holds : (t : Thread n) → Place n t → Set (Mutex n)
  | .main, k =>
    {m | m = .gStop ∧ Main.locksStop k = true ∨ ∃ i, m = .session i ∧ Main.locks i k = true}
  | .signal, _ => ∅
  | .worker i, k => {m | m = .session i ∧ Worker.locked k = true}
  | .delivery i, k => {m | m = .session i ∧ Delivery.locked k = true}

/-- `main` holds what its place says, after every step. -/
theorem disciplined_main {k k' : Main n} {d d' : Shared n} (h : Main.Goes d k d' k') :
    holds .main k' = (main k).held (holds .main k) := by
  ext m
  cases h with
  | startFailed k hk | lock k hk =>
    simp [holds, main, hk, Action.held, Main.locksStop, Main.locks]
  | unlock code ts hts =>
    rcases ts with _ | ⟨⟨j⟩ | ⟨j⟩, ts⟩
    · simp [holds, main, Action.held, Main.locksStop, Main.locks]
    · exact absurd rfl (hts _ _)
    · simp [holds, main, Action.held, Main.locksStop, Main.locks]
  | stop i code locked ts =>
    simp [holds, main, Action.held, Main.locksStop, Main.locks, Stop.locked, or_comm]
  | unlockSession i code locked ts =>
    cases m <;> simp [holds, main, Action.held, Main.locksStop, Main.locks, Stop.locked]
  | _ =>
    simp [holds, main, Action.held, Main.locksStop, Main.locks, Stop.locked, statement, choose]

/-- The mutex of a session comes to those that a thread has. -/
theorem session_locked (i : Fin n) : {m : Mutex n | m = .session i ∧ true = true} =
    {m | m = .session i ∨ m ∈ {m : Mutex n | m = .session i ∧ false = true}} := by
  ext m
  simp

theorem session_unlocked (i : Fin n) : {m : Mutex n | m = .session i ∧ false = true} =
    {m | m ≠ .session i ∧ m ∈ {m : Mutex n | m = .session i ∧ true = true}} := by
  ext m
  simp

/-- A worker holds what its place says, after every step. -/
theorem disciplined_worker {i : Fin n} {k k' : Worker} {d d' : Shared n}
    (h : Worker.Goes options i d k d' k') :
    holds (.worker i) k' = (worker options i k).held (holds (.worker i) k) := by
  cases h with
  | lock | clearLock | backoffLock | expired => exact session_locked i
  | asleep | popUnlock | leave | clearUnlock | sleeping | awakeUnlock => exact session_unlocked i
  | _ => rfl

/-- So does a delivery. -/
theorem disciplined_delivery {i : Fin n} {k k' : Delivery} {d d' : Shared n}
    (h : Delivery.Goes options i d k d' k') :
    holds (.delivery i) k' = (delivery options i k).held (holds (.delivery i) k) := by
  cases h with
  | lock => exact session_locked i
  | unlock => exact session_unlocked i
  | _ => rfl

/-- `main` releases `lk`, or the mutex of the session that it stops. -/
theorem released_main {k : Main n} {m : Mutex n} (h : (main k).releases m) :
    m ∈ holds .main k := by
  cases k with
  | starting k =>
    rw [main] at h
    split_ifs at h <;> exact absurd h id
  | sleep => exact .inl ⟨h.symm, rfl⟩
  | tasks code locked ts =>
    rcases ts with _ | ⟨⟨j⟩ | ⟨j⟩, ts⟩ <;> cases locked
    all_goals first | exact absurd h id | exact .inl ⟨h.symm, rfl⟩
  | stop pc i code locked ts =>
    cases pc with
    | unlock => exact .inr ⟨i, h.symm, by simp [Main.locks, Stop.locked]⟩
    | _ => exact absurd h id
  | _ => exact absurd h id

/-- The places tell who has which mutex. -/
theorem disciplined : (monitor options hash).Disciplined holds where
  start t := by
    refine Set.eq_empty_of_forall_notMem fun m hm => ?_
    cases t with
    | main => rcases hm with ⟨-, hm⟩ | ⟨_, -, hm⟩ <;> cases hm
    | signal => exact hm
    | worker i | delivery i => cases hm.2
  next {t k d d' k'} h := by
    cases t with
    | main => exact disciplined_main (main_goes h)
    | signal => rcases signal_goes h with ⟨rfl, -, rfl⟩ | ⟨rfl, -, rfl⟩ <;> rfl
    | worker i => exact disciplined_worker (worker_goes h)
    | delivery i => exact disciplined_delivery (delivery_goes h)
  released {t k m} h := by
    cases t with
    | main => exact released_main h
    | signal => cases k <;> cases h
    | worker i =>
      cases k <;> first | exact absurd h id | exact ⟨h.symm, rfl⟩
    | delivery i =>
      cases k <;> first | exact absurd h id | exact ⟨h.symm, rfl⟩

/-- The queue of a session only changes under its mutex. -/
theorem queue_guarded {i : Fin n} {t : Thread n} {k k' : Place n t} {d d' : Shared n}
    (h : ((monitor options hash).program t k).Leads d d' k') (hm : .session i ∉ holds t k) :
    (d'.session i).queue = (d.session i).queue := by
  cases t with
  | main =>
    obtain ⟨-, hframe⟩ := (main_goes h).frame
    obtain ⟨stop, subscribed, joinable, connected, heq⟩ := hframe i
    rw [heq]
  | signal => rcases signal_goes h with ⟨-, rfl, -⟩ | ⟨-, rfl, -⟩ <;> rfl
  | worker j =>
    have hgoes := worker_goes h
    by_cases hj : i = j
    · subst hj
      cases hgoes with
      -- These have the mutex.
      | pop | clearing => exact absurd ⟨rfl, rfl⟩ hm
      | popped | wrote | reset | discard | discarded | awake | ended =>
        rw [Shared.session_modify_self]
      | _ => rfl
    · rw [hgoes.frame.session i hj]
  | delivery j =>
    have hgoes := delivery_goes h
    by_cases hj : i = j
    · subst hj
      cases hgoes with
      | push | trimPop | queuedBytes | total | trimDropped | trimQueued | log =>
        exact absurd ⟨rfl, rfl⟩ hm
      | _ => rfl
    · rw [hgoes.frame.session i hj]

end Mutexes

/-! ### What the other threads do -/

section Others

open Monitor

variable {n : ℕ} {options : Options} {hash : Fin n → UInt64} {i : Fin n} {t : Thread n}
  {s s' : State (Mutex n) (Shared n) (Place n)}

/-- A worker is only moved on by others when it is woken up. -/
theorem worker_place (hm : (monitor options hash).Move s t s') (hne : .worker i ≠ t) :
    s'.place (.worker i) = s.place (.worker i) ∨
      s.place (.worker i) = Worker.asleep ∧ s'.place (.worker i) = Worker.lock ∨
      s.place (.worker i) = Worker.sleeping ∧ s'.place (.worker i) = Worker.backoffLock := by
  rcases hm.place_of_ne hne with heq | ⟨m, next, expired, k, -, hsleep, hnext⟩
  · exact .inl heq
  · change worker options i (s.place (.worker i)) = _ at hsleep
    rw [hnext]
    cases hk : (s.place (.worker i) : Worker) <;> rw [hk] at hsleep <;> cases hsleep
    · exact .inr (.inl ⟨rfl, rfl⟩)
    · exact .inr (.inr ⟨rfl, rfl⟩)

/-- A delivery does not wait on a condition variable. -/
theorem delivery_place (hm : (monitor options hash).Move s t s') (hne : .delivery i ≠ t) :
    s'.place (.delivery i) = s.place (.delivery i) := by
  rcases hm.place_of_ne hne with heq | ⟨m, next, expired, k, -, hsleep, -⟩
  · exact heq
  · change delivery options i (s.place (.delivery i)) = _ at hsleep
    cases hk : (s.place (.delivery i) : Delivery) <;> rw [hk] at hsleep <;> cases hsleep

/-- The handler of the signals does not wait. -/
theorem signal_place (hm : (monitor options hash).Move s t s') (hne : .signal ≠ t) :
    s'.place .signal = s.place .signal := by
  rcases hm.place_of_ne hne with heq | ⟨m, next, expired, k, -, hsleep, -⟩
  · exact heq
  · change signal (s.place .signal) = _ at hsleep
    cases hk : (s.place .signal : Signal) <;> rw [hk] at hsleep <;> cases hsleep

/-- Where `main` goes to sleep. -/
theorem sleep_of_wait {k next : Main n} {m : Mutex n} (h : main k = .wait m next) :
    k = .sleep ∧ m = .gStop ∧ next = .asleep := by
  cases k with
  | sleep =>
    cases h
    exact ⟨rfl, rfl, rfl⟩
  | starting k =>
    rw [main] at h
    split_ifs at h
  | tasks code locked ts => rcases ts with _ | ⟨⟨j⟩ | ⟨j⟩, ts⟩ <;> cases locked <;> cases h
  | stop pc => cases pc <;> cases h
  | _ => cases h

/-- Where `main` sleeps. -/
theorem asleep_of_program {k next : Main n} {m : Mutex n} {expired : Option (Main n)}
    (h : main k = .asleep m next expired) : k = .asleep ∧ m = .gStop := by
  cases k with
  | asleep =>
    cases h
    exact ⟨rfl, rfl⟩
  | starting k =>
    rw [main] at h
    split_ifs at h
  | tasks code locked ts => rcases ts with _ | ⟨⟨j⟩ | ⟨j⟩, ts⟩ <;> cases locked <;> cases h
  | stop pc => cases pc <;> cases h
  | _ => cases h

/-- `main` is only moved on by others when it is woken up. -/
theorem main_place (hm : (monitor options hash).Move s t s') (hne : .main ≠ t) :
    s'.place .main = s.place .main ∨
      s.place .main = Main.asleep ∧ s'.place .main = Main.relock := by
  rcases hm.place_of_ne hne with heq | ⟨m, next, expired, k, -, hsleep, hnext⟩
  · exact .inl heq
  · have hk : s.place .main = Main.asleep := (asleep_of_program hsleep).1
    change main (s.place .main) = _ at hsleep
    rw [hk] at hsleep
    cases hsleep
    exact .inr ⟨hk, hnext⟩

/-- A worker in its section stays there, and the queue stays what it is. -/
theorem worker_section_kept (howned : Owned holds s) (hm : (monitor options hash).Move s t s')
    (hne : .worker i ≠ t) (hk : Worker.locked (s'.place (.worker i)) = true) :
    s'.place (.worker i) = s.place (.worker i) ∧
      (s'.data.session i).queue = (s.data.session i).queue := by
  have hsame : s'.place (.worker i) = s.place (.worker i) := by
    rcases worker_place hm hne with heq | ⟨-, heq⟩ | ⟨-, heq⟩
    · exact heq
    · rw [heq] at hk
      cases hk
    · rw [heq] at hk
      cases hk
  have hhas : .session i ∈ holds (.worker i) (s.place (.worker i)) := ⟨rfl, hsame ▸ hk⟩
  exact ⟨hsame, guarded_move (g := fun d : Shared n => (d.session i).queue) queue_guarded howned
    hm hne hhas⟩

/-- While a delivery is in its section, the queue stays what it is. -/
theorem delivery_section_kept (howned : Owned holds s) (hm : (monitor options hash).Move s t s')
    (hne : .delivery i ≠ t) (hl : Delivery.locked (s.place (.delivery i)) = true) :
    (s'.data.session i).queue = (s.data.session i).queue :=
  have hhas : .session i ∈ holds (.delivery i) (s.place (.delivery i)) := ⟨rfl, hl⟩
  guarded_move (g := fun d : Shared n => (d.session i).queue) queue_guarded howned hm hne hhas

/-- Only `main` changes these flags. -/
theorem flags_kept {k k' : Place n t} {d d' : Shared n}
    (h : ((monitor options hash).program t k).Leads d d' k') (ht : .main ≠ t) :
    (d'.session i).connected = (d.session i).connected ∧
      (d'.session i).subscribed = (d.session i).subscribed ∧
      (d'.session i).joinable = (d.session i).joinable := by
  cases t with
  | main => exact absurd rfl ht
  | signal => rcases signal_goes h with ⟨-, rfl, -⟩ | ⟨-, rfl, -⟩ <;> exact ⟨rfl, rfl, rfl⟩
  | worker j =>
    have hframe := (worker_goes h).frame
    by_cases hj : i = j
    · subst hj
      exact ⟨hframe.connected, hframe.subscribed, hframe.joinable⟩
    · rw [hframe.session i hj]
      exact ⟨rfl, rfl, rfl⟩
  | delivery j =>
    have hframe := (delivery_goes h).frame
    by_cases hj : i = j
    · subst hj
      exact ⟨hframe.connected, hframe.subscribed, hframe.joinable⟩
    · rw [hframe.session i hj]
      exact ⟨rfl, rfl, rfl⟩

/-- Only a worker ends. -/
theorem ended_kept {k k' : Place n t} {d d' : Shared n}
    (h : ((monitor options hash).program t k).Leads d d' k') (ht : .worker i ≠ t) :
    (d'.session i).ended = (d.session i).ended := by
  cases t with
  | main =>
    obtain ⟨-, hframe⟩ := (main_goes h).frame
    obtain ⟨stop, subscribed, joinable, connected, heq⟩ := hframe i
    rw [heq]
  | signal => rcases signal_goes h with ⟨-, rfl, -⟩ | ⟨-, rfl, -⟩ <;> rfl
  | worker j => rw [(worker_goes h).frame.session i fun hj => ht (by rw [hj])]
  | delivery j =>
    have hframe := (delivery_goes h).frame
    by_cases hj : i = j
    · subst hj
      exact hframe.ended
    · rw [hframe.session i hj]

/-- What stays true of a session, once it is. -/
structure Later (i : Fin n) (d d' : Shared n) : Prop where
  stop : (d.session i).stop = true → (d'.session i).stop = true
  joinable : (d.session i).joinable = true → (d'.session i).joinable = true
  ended : (d.session i).ended = true → (d'.session i).ended = true

theorem Later.of_eq {d d' : Shared n} (hs : d'.session i = d.session i) : Later i d d' :=
  ⟨hs ▸ id, hs ▸ id, hs ▸ id⟩

theorem Later.modify {d : Shared n} {j : Fin n} {f : Members → Members}
    (hf : ∀ m, (m.stop = true → (f m).stop = true) ∧
      (m.joinable = true → (f m).joinable = true) ∧ (m.ended = true → (f m).ended = true)) :
    Later i d (d.modify j f) := by
  by_cases hj : i = j
  · subst hj
    obtain ⟨hs, hjoin, hend⟩ := hf (d.session i)
    exact ⟨by simpa using hs, by simpa using hjoin, by simpa using hend⟩
  · exact .of_eq (Shared.session_modify_of_ne d hj f)

/-- No step of any thread takes back a flag of a session. -/
theorem later_of_leads {k k' : Place n t} {d d' : Shared n}
    (h : ((monitor options hash).program t k).Leads d d' k') (i : Fin n) : Later i d d' := by
  cases t with
  | main =>
    have hgoes := main_goes h
    cases hgoes with
    | started | spawned | destroy | set | unsubscribe => exact .modify fun m => by simp
    | _ => exact .of_eq rfl
  | signal =>
    rcases signal_goes h with ⟨-, rfl, -⟩ | ⟨-, rfl, -⟩ <;> exact .of_eq rfl
  | worker j =>
    cases worker_goes h with
    | pop | popped | wrote | reset | clearing | discard | discarded | awake | ended =>
      exact .modify fun m => by simp
    | _ => exact .of_eq rfl
  | delivery j =>
    cases delivery_goes h with
    | push | queuedBytes | total | trimDropped | trimQueued | trimPop =>
      exact .modify fun m => by simp
    | log =>
      refine .modify fun m => ?_
      split_ifs <;> simp
    | _ => exact .of_eq rfl

/-- A signal is never taken back. -/
theorem gStop_mono {k k' : Place n t} {d d' : Shared n}
    (h : ((monitor options hash).program t k).Leads d d' k') (hg : d.gStop = true) :
    d'.gStop = true := by
  cases t with
  | main => rw [(main_goes h).frame.1, hg]
  | signal =>
    rcases signal_goes h with ⟨-, rfl, -⟩ | ⟨-, rfl, -⟩
    · rfl
    · exact hg
  | worker j => rw [(worker_goes h).frame.gStop, hg]
  | delivery j => rw [(delivery_goes h).frame.gStop, hg]

/-- A session that is to stop stays so. -/
theorem stopping_mono {k k' : Place n t} {d d' : Shared n}
    (h : ((monitor options hash).program t k).Leads d d' k') (hst : d.stopping i = true) :
    d'.stopping i = true := by
  rw [Shared.stopping, Bool.or_eq_true] at hst ⊢
  exact hst.imp (later_of_leads h i).stop (gStop_mono h)

end Others

end RtcmBridge.Nats2Ntrip.Process

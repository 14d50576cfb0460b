import RtcmBridge.Monitor
import RtcmBridge.Nats2Ntrip.Session

/-!
# The threads of `nats2ntrip`

The process with its threads, statement by statement: `main`, which starts the sessions,
waits for a signal and stops them; the handler of the signals; and for each session its
worker and the thread on which NATS delivers the messages of its subscription. The
mutexes are `g_stop_mtx` and the `mtx_` of each session, with `g_stop_cv` and `cv_`.

Each condition variable has one thread that waits on it, so that `notify_one` and
`notify_all` are the same. The two loads in the test of a loop (of `stop_`, without the
mutex, and of `g_stop`) are one statement, as neither is ever reset. A call of the
connection is a statement whose input tells how it ends.

`main` begins with the loop that starts the sessions. What it does before is left out, with
its early exits: the help text (exit code 0), the usage, an error in the configuration, and a
connection to NATS that fails (exit code 1). From the loop on it leaves by a list of what is
still to be done: the sessions and the connections are destroyed in turn, at the end or when a
session cannot be started.
-/

namespace RtcmBridge.Nats2Ntrip.Process

/-! ### The data -/

/-- The members of a `StreamSession`. -/
structure Members where
  reconnectDelay : Int32
  reconnectJitterMs : Int32
  queue : List Payload := []
  stop : Bool := false
  total : UInt64 := 0
  lastLog : UInt64 := 0
  queuedBytes : UInt64 := 0
  droppedBytes : UInt64 := 0
  /-- `subscription_` is set. -/
  subscribed : Bool := false
  /-- `worker_` is a thread. -/
  joinable : Bool := false
  /-- The thread has ended. -/
  ended : Bool := false
  /-- The `ntripConnection` of the session exists. -/
  connected : Bool := false
  /-- The messages enqueued so far. -/
  arrivals : ℕ := 0
  /-- The messages written so far. -/
  written : List Payload := []

/-- The data of the process, with `n` sessions. -/
structure Shared (n : ℕ) where
  gStop : Bool := false
  session : Fin n → Members

namespace Shared

variable {n : ℕ} (d : Shared n) (i : Fin n)

/-- The members of the session `i` are changed. -/
def modify (f : Members → Members) : Shared n :=
  { d with session := Function.update d.session i (f (d.session i)) }

/-- The test of the loops of a session. -/
def stopping : Bool := (d.session i).stop || d.gStop

end Shared

/-- The threads: the handler of the signals is taken for one of them. -/
inductive Thread (n : ℕ)
  | main
  | signal
  | worker (i : Fin n)
  | delivery (i : Fin n)
  deriving DecidableEq

/-- `g_stop_mtx`, and the `mtx_` of each session. -/
inductive Mutex (n : ℕ)
  | gStop
  | session (i : Fin n)
  deriving DecidableEq

/-- How a call ends, or what message is delivered. -/
structure Input where
  ok : Bool := true
  data : Bytes := []
  deriving Inhabited

/-! ### Places -/

/-- Where the worker of a session is. -/
inductive Worker
  | unborn
  /-- `run`: the test of the loop. -/
  | run
  /-- In `ntripConnection_Source`. -/
  | source
  /-- `connect_and_stream`: the test of the loop. -/
  | stream
  | lock
  /-- The test of the predicate of `cv_.wait`. -/
  | test
  | sleep
  | asleep
  /-- The test after `cv_.wait`. -/
  | tested
  | pop
  /-- About to subtract the size of the message from `queued_bytes_`. -/
  | popped (p : Payload)
  | popUnlock (p : Payload)
  /-- In `ntripConnection_Write`. -/
  | writing (p : Payload)
  /-- About to return from `connect_and_stream`, with the mutex. -/
  | leave
  | returned
  | caught
  | clearLock
  /-- `clear_queue_locked`. -/
  | clear
  /-- The loop of `clear_queue_locked`, with `cleared_bytes`. -/
  | clearing (clearedBytes : UInt64)
  | cleared (clearedBytes : UInt64)
  | discarded (clearedBytes : UInt64)
  | clearUnlock
  | backoff
  | backoffLock
  /-- The test of the predicate of `cv_.wait_for`. -/
  | backoffTest
  | backoffSleep
  | sleeping
  | expired
  /-- After `cv_.wait_for`. -/
  | awake
  | awakeUnlock
  | exiting
  | exited
  deriving DecidableEq

/-- Where the thread is that delivers the messages of a session. -/
inductive Delivery
  | idle
  | lock (data : Bytes)
  | push (data : Bytes)
  | queuedBytes (p : Payload)
  | total (p : Payload)
  /-- The loop of `trim_queue_locked`. -/
  | trim
  | trimDropped
  | trimQueued
  | trimPop
  | log
  | unlock
  | notify
  deriving DecidableEq

/-- Where the handler of the signals is. -/
inductive Signal
  | idle
  | notify
  deriving DecidableEq

/-- What `main` has to do before it returns: to destroy a session, which stops it, or
    the connection of a session. -/
inductive Task (n : ℕ)
  | stop (i : Fin n)
  | destroy (i : Fin n)
  deriving DecidableEq

/-- Where `stop` of a session is, from after the lock. -/
inductive Stop
  | set
  | unlock
  | notify
  | unsubscribe
  | join
  deriving DecidableEq

/-- Where `main` is. -/
inductive Main (n : ℕ)
  /-- The loop that starts the sessions, about to start the session `k`. -/
  | starting (k : ℕ)
  /-- `start` of the session `i`: subscribed, about to start the worker. -/
  | spawning (i : Fin n)
  /-- The test of the predicate of `g_stop_cv.wait`. -/
  | test
  | sleep
  | asleep
  | relock
  /-- Leaving with the exit code `code`, `ts` is still to be done. `locked` tells whether
      `lk` is still there, and so has `g_stop_mtx`. -/
  | tasks (code : ℕ) (locked : Bool) (ts : List (Task n))
  | stop (pc : Stop) (i : Fin n) (code : ℕ) (locked : Bool) (ts : List (Task n))
  | exited (code : ℕ)
  deriving DecidableEq

/-- The places of each thread. -/
def Place (n : ℕ) : Thread n → Type
  | .main => Main n
  | .signal => Signal
  | .worker _ => Worker
  | .delivery _ => Delivery

/-! ### Programs -/

section Programs

variable {n : ℕ} (options : Options) (i : Fin n)

/-- A statement of a session, after which the thread is at `k`. -/
def statement {κ : Type} (f : Members → Members) (k : κ) :
    Action (Mutex n) (Shared n) Input κ :=
  .act fun _ d => some (d.modify i f, k)

/-- A choice of the next place, given the data. -/
def choose {κ : Type} (f : Shared n → κ) : Action (Mutex n) (Shared n) Input κ :=
  .act fun _ d => some (d, f d)

/-- `run` of a session. -/
def worker : Worker → Action (Mutex n) (Shared n) Input Worker
  | .unborn => .act fun _ d => if (d.session i).joinable then some (d, .run) else none
  | .run => choose fun d => if d.stopping i then .exiting else .source
  -- `connect_and_stream`: it connects, and then takes message by message.
  | .source => .act fun input d => some (d, if input.ok then .stream else .caught)
  | .stream => choose fun d => if d.stopping i then .returned else .lock
  | .lock => .lock (.session i) .test
  | .test => choose fun d =>
    if d.stopping i || !(d.session i).queue.isEmpty then .tested else .sleep
  | .sleep => .wait (.session i) .asleep
  | .asleep => .asleep (.session i) .lock none
  | .tested => choose fun d => if d.stopping i then .leave else .pop
  | .pop => .act fun _ d =>
    match (d.session i).queue with
    | [] => none
    | payload :: queue => some (d.modify i fun m => { m with queue }, .popped payload)
  | .popped payload =>
    statement i (fun m => { m with queuedBytes := m.queuedBytes - payload.size })
      (.popUnlock payload)
  | .popUnlock payload => .unlock (.session i) (.writing payload)
  | .writing payload => .act fun input d =>
    if input.ok then
      some (d.modify i fun m => { m with written := m.written ++ [payload] }, .stream)
    else some (d, .caught)
  | .leave => .unlock (.session i) .returned
  -- Back in `run`, which starts over from the least delay.
  | .returned =>
    statement i (fun m => { m with reconnectDelay := options.reconnectMinSec }) .run
  -- The handler of `run`: `clear_queue_locked`, the wait, and twice the delay.
  | .caught => choose fun d => if d.stopping i then .exiting else .clearLock
  | .clearLock => .lock (.session i) .clear
  | .clear => choose fun d => if (d.session i).queue.isEmpty then .clearUnlock else .clearing 0
  | .clearing clearedBytes => .act fun _ d =>
    match (d.session i).queue with
    | [] => some (d, .cleared clearedBytes)
    | payload :: queue =>
      some (d.modify i fun m => { m with queue }, .clearing (clearedBytes + payload.size))
  | .cleared clearedBytes =>
    statement i (fun m => { m with queuedBytes := 0 }) (.discarded clearedBytes)
  | .discarded clearedBytes =>
    statement i (fun m => { m with droppedBytes := m.droppedBytes + clearedBytes }) .clearUnlock
  | .clearUnlock => .unlock (.session i) .backoff
  | .backoff => choose fun _ => .backoffLock
  | .backoffLock => .lock (.session i) .backoffTest
  | .backoffTest => choose fun d => if d.stopping i then .awake else .backoffSleep
  | .backoffSleep => .wait (.session i) .sleeping
  | .sleeping => .asleep (.session i) .backoffLock (some .expired)
  | .expired => .lock (.session i) .awake
  | .awake =>
    statement i
      (fun m => { m with reconnectDelay := min (m.reconnectDelay * 2) options.reconnectMaxSec })
      .awakeUnlock
  | .awakeUnlock => .unlock (.session i) .run
  | .exiting => statement i (fun m => { m with ended := true }) .exited
  | .exited => .halt

/-- `on_nats_msg` of a session. The length of a message is an `int`. -/
def delivery : Delivery → Action (Mutex n) (Shared n) Input Delivery
  -- `on_nats_msg`, which leaves out empty messages, and `enqueue`.
  | .idle => .act fun input d =>
    if (d.session i).subscribed ∧ input.data.length < 2 ^ 31 then
      some (d, if input.data.length > 0 then .lock input.data else .idle)
    else none
  | .lock data => .lock (.session i) (.push data)
  | .push data => .act fun _ d =>
    let payload : Payload := ⟨(d.session i).arrivals, data⟩
    some (d.modify i fun m =>
      { m with queue := m.queue ++ [payload], arrivals := m.arrivals + 1 }, .queuedBytes payload)
  | .queuedBytes payload =>
    statement i (fun m => { m with queuedBytes := m.queuedBytes + payload.size }) (.total payload)
  | .total payload => statement i (fun m => { m with total := m.total + payload.size }) .trim
  -- `trim_queue_locked`, one pass of its loop after the other.
  | .trim => choose fun d =>
    if (d.session i).queuedBytes > StreamSession.maxQueueBytes options ∧
      (d.session i).queue ≠ [] then .trimDropped else .log
  | .trimDropped => .act fun _ d =>
    match (d.session i).queue with
    | [] => none
    | payload :: _ =>
      some (d.modify i fun m => { m with droppedBytes := m.droppedBytes + payload.size },
        .trimQueued)
  | .trimQueued => .act fun _ d =>
    match (d.session i).queue with
    | [] => none
    | payload :: _ =>
      some (d.modify i fun m => { m with queuedBytes := m.queuedBytes - payload.size }, .trimPop)
  | .trimPop => statement i (fun m => { m with queue := m.queue.tail }) .trim
  -- The throughput, and the end of the critical section.
  | .log =>
    statement i
      (fun m =>
        if m.total - m.lastLog ≥ options.throughputLogEveryBytes.toInt64.toUInt64 then
          { m with lastLog := m.total }
        else m)
      .unlock
  | .unlock => .unlock (.session i) .notify
  | .notify => .notify (.session i) .idle

/-- `handle_signal`, at any time. -/
def signal : Signal → Action (Mutex n) (Shared n) Input Signal
  | .idle => .act fun _ d => some ({ d with gStop := true }, .notify)
  | .notify => .notify .gStop .idle

/-- The sessions before the session `k`, in their order. -/
def before (n k : ℕ) : List (Fin n) := (List.finRange n).filter fun i => i.val < k

/-- The sessions `is` are destroyed, and then their connections. -/
def leave (is : List (Fin n)) : List (Task n) := is.map .stop ++ is.map .destroy

/-- `main`, from the loop that starts the sessions on. The lock `lk` is destroyed after
    the sessions, and before the connections. -/
def main : Main n → Action (Mutex n) (Shared n) Input (Main n)
  -- The loop over the mountpoints: connect, subscribe, and start the worker.
  | .starting k =>
    if h : k < n then
      .act fun input d =>
        if input.ok then
          some (d.modify ⟨k, h⟩ fun m => { m with connected := true, subscribed := true },
            .spawning ⟨k, h⟩)
        else some (d, .tasks 1 false (leave (before n k)))
    else .lock .gStop .test
  | .spawning i => .act fun input d =>
    if input.ok then some (d.modify i fun m => { m with joinable := true }, .starting (i + 1))
    else some (d, .tasks 1 false (.stop i :: .destroy i :: leave (before n i)))
  -- The wait for a signal.
  | .test => choose fun d => if d.gStop then .tasks 0 true (leave (before n n)) else .sleep
  | .sleep => .wait .gStop .asleep
  | .asleep => .asleep .gStop .relock none
  | .relock => .lock .gStop .test
  -- The way out: `stop` for each session, then what its owners destroy.
  | .tasks code locked (.stop i :: ts) => .lock (.session i) (.stop .set i code locked ts)
  | .tasks code true ts => .unlock .gStop (.tasks code false ts)
  | .tasks code false (.destroy i :: ts) =>
    statement i (fun m => { m with connected := false }) (.tasks code false ts)
  | .tasks code false [] => choose fun _ => .exited code
  -- `stop` of a session, up to the join.
  | .stop .set i code locked ts =>
    statement i (fun m => { m with stop := true }) (.stop .unlock i code locked ts)
  | .stop .unlock i code locked ts => .unlock (.session i) (.stop .notify i code locked ts)
  | .stop .notify i code locked ts => .notify (.session i) (.stop .unsubscribe i code locked ts)
  | .stop .unsubscribe i code locked ts =>
    statement i (fun m => { m with subscribed := false }) (.stop .join i code locked ts)
  | .stop .join i code locked ts => .act fun _ d =>
    if (d.session i).joinable ∧ !(d.session i).ended then none
    else some (d, .tasks code locked ts)
  | .exited _ => .halt

end Programs

/-- The process. `hash` is the `std::hash` of the subject of each session. -/
def monitor {n : ℕ} (options : Options) (hash : Fin n → UInt64) :
    Monitor (Thread n) (Mutex n) (Shared n) Input (Place n) where
  data :=
    { session := fun i =>
        { reconnectDelay := options.reconnectMinSec
          reconnectJitterMs := .ofNat (hash i % 1000).toNat } }
  start
    | .main => Main.starting 0
    | .signal => Signal.idle
    | .worker _ => Worker.unborn
    | .delivery _ => Delivery.idle
  program
    | .main => main
    | .signal => signal
    | .worker i => worker options i
    | .delivery i => delivery options i

end RtcmBridge.Nats2Ntrip.Process

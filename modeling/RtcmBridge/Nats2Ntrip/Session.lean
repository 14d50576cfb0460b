import RtcmBridge.Automaton
import RtcmBridge.Bytes
import RtcmBridge.Configuration

/-!
# The sessions of `nats2ntrip`

A `StreamSession` queues the messages of its subject, and a worker thread
uploads them to the caster. The threads share the queue and its counters under
`mtx_`; what one of them does while it holds `mtx_` is one step. A step of the
worker is one of these, a test of the stop flags, or a call of the connection,
which takes its time: anything may happen between two steps of the worker.

What happens is recorded in `log`, with the messages numbered as they arrive.
-/

namespace RtcmBridge.Nats2Ntrip

/-- A queued message, with its number. -/
structure Payload where
  number : ℕ
  data : Bytes
  deriving DecidableEq

/-- The size of a message. -/
def Payload.size (p : Payload) : UInt64 := .ofNat p.data.length

/-- What a session does. -/
inductive Act
  | enqueued (p : Payload)
  | trimmed (p : Payload)
  | discarded (p : Payload)
  | cleared
  | connected
  | sourceFailed
  | wrote (p : Payload)
  | writeFailed (p : Payload)
  | wait (ms : Int32)
  deriving DecidableEq

/-- Where the worker is. -/
inductive Pc
  /-- `run`: the test of the loop. -/
  | run
  /-- In `ntripConnection_Source`. -/
  | source
  /-- `connect_and_stream`: the test of the loop. -/
  | stream
  /-- Waiting on `cv_` for a message. -/
  | waiting
  /-- In `ntripConnection_Write`, with the message it popped. -/
  | writing (p : Payload)
  /-- `connect_and_stream` has returned. -/
  | returned
  /-- `connect_and_stream` has thrown. -/
  | caught
  /-- About to clear the queue. -/
  | clearing
  /-- About to wait before the next attempt. -/
  | backoff
  /-- Waiting before the next attempt. -/
  | sleeping
  | exited
  deriving DecidableEq

/-- The state of a `StreamSession`. -/
structure StreamSession where
  reconnectDelay : Int32
  reconnectJitterMs : Int32
  queue : List Payload := []
  stop : Bool := false
  gStop : Bool := false
  total : UInt64 := 0
  lastLog : UInt64 := 0
  queuedBytes : UInt64 := 0
  droppedBytes : UInt64 := 0
  pc : Pc := .run
  /-- The messages enqueued so far. -/
  arrivals : ℕ := 0
  /-- A subtraction from `queuedBytes` has wrapped around. -/
  underflow : Bool := false
  log : List Act := []

namespace StreamSession

variable (options : Options) (s : StreamSession)

/-- The test of the loops and of the waits. -/
def stopping : Bool := s.stop || s.gStop

/-- The act is recorded in the log. -/
def record (act : Act) : StreamSession := { s with log := s.log ++ [act] }

/-- `queued_bytes_ -= n`. -/
def subQueuedBytes (n : UInt64) : StreamSession :=
  { s with queuedBytes := s.queuedBytes - n, underflow := s.underflow || s.queuedBytes < n }

/-! ### The queue -/

/-- `max_queue_bytes`. -/
def maxQueueBytes : UInt64 :=
  let throughputHint := (max 1 options.throughputLogEveryBytes).toInt64.toUInt64
  max (256 * 1024) (throughputHint * 4)

/-- The loop of `trim_queue_locked`, on the queue. -/
def trim : List Payload → StreamSession → StreamSession
  | [], s => { s with queue := [] }
  | p :: ps, s =>
    if s.queuedBytes > maxQueueBytes options then
      let s := { s with droppedBytes := s.droppedBytes + p.size }
      trim ps ((s.subQueuedBytes p.size).record (.trimmed p))
    else { s with queue := p :: ps }

/-- `trim_queue_locked`. -/
def trimQueueLocked : StreamSession := trim options s.queue s

/-- `clear_queue_locked`. -/
def clearQueueLocked : StreamSession :=
  if s.queue = [] then s
  else
    let clearedBytes := s.queue.foldl (fun n p => n + p.size) 0
    { s with
      log := s.log ++ s.queue.map .discarded
      queue := []
      queuedBytes := 0
      droppedBytes := s.droppedBytes + clearedBytes }

/-- The message that arrives next. -/
def payload (data : Bytes) : Payload := ⟨s.arrivals, data⟩

/-- The part of `enqueue` before the trim. -/
def push (data : Bytes) : StreamSession :=
  let payload := s.payload data
  { s with
    queue := s.queue ++ [payload]
    queuedBytes := s.queuedBytes + payload.size
    total := s.total + payload.size
    arrivals := s.arrivals + 1
    log := s.log ++ [.enqueued payload] }

/-- `enqueue`. -/
def enqueue (data : Bytes) : StreamSession :=
  let s := (s.push data).trimQueueLocked options
  if s.total - s.lastLog ≥ options.throughputLogEveryBytes.toInt64.toUInt64 then
    { s with lastLog := s.total }
  else s

/-- `on_nats_msg`, with a message whose length is an `int`. -/
def onNatsMsg (data : Bytes) : StreamSession :=
  if data.length > 0 then s.enqueue options data else s

/-! ### The worker -/

/-- The next step of the worker. `ok` tells how the call of the connection ends
    that it is in. Waiting for a message, it has no step until there is one. -/
def workerStep (ok : Bool) : Option StreamSession :=
  match s.pc with
  | .run => some { s with pc := if s.stopping then .exited else .source }
  -- Where `ok` is false, the call has thrown.
  | .source =>
    if ok then some ({ s with pc := .stream }.record .connected)
    else some ({ s with pc := .caught }.record .sourceFailed)
  | .stream => some { s with pc := if s.stopping then .returned else .waiting }
  | .waiting =>
    if s.stopping then some { s with pc := .returned }
    else match s.queue with
      | [] => none
      | payload :: rest =>
        some ({ s with queue := rest, pc := .writing payload }.subQueuedBytes payload.size)
  | .writing payload =>
    if ok then some ({ s with pc := .stream }.record (.wrote payload))
    else some ({ s with pc := .caught }.record (.writeFailed payload))
  -- `connect_and_stream` returns only if it is to stop, so this is the last round.
  | .returned => some { s with reconnectDelay := options.reconnectMinSec, pc := .run }
  | .caught => some { s with pc := if s.stopping then .exited else .clearing }
  | .clearing => some ({ s.clearQueueLocked with pc := .backoff }.record .cleared)
  | .backoff =>
    let reconnectWaitMs := s.reconnectDelay * 1000 + s.reconnectJitterMs
    some ({ s with pc := .sleeping }.record (.wait reconnectWaitMs))
  | .sleeping =>
    some { s with
      reconnectDelay := min (s.reconnectDelay * 2) options.reconnectMaxSec
      pc := .run }
  | .exited => none

/-- What the threads do: a message arrives, the session or the program is told
    to stop, the worker takes its next step. -/
inductive Event
  | arrive (data : Bytes)
  | stop
  | signal
  | worker (ok : Bool)
  deriving DecidableEq

/-- One step of a session. The length of a message is an `int`. -/
def step (s : StreamSession) : Event → Option StreamSession
  | .arrive data => if data.length < 2 ^ 31 then some (s.onNatsMsg options data) else none
  | .stop => some { s with stop := true }
  | .signal => some { s with gStop := true }
  | .worker ok => s.workerStep options ok

/-- A session from its `start` on. `hash` is the `std::hash` of its subject. -/
def automaton (hash : UInt64) : Automaton StreamSession Event where
  init :=
    { reconnectDelay := options.reconnectMinSec
      reconnectJitterMs := .ofNat (hash % 1000).toNat }
  step := step options

/-! ### Steps -/

variable {options} {s} {s' : StreamSession} {e : Event}

/-- What a step can do to a session. -/
inductive Move (options : Options) (s : StreamSession) : StreamSession → Prop
  | arrive (data : Bytes) (hlen : data.length < 2 ^ 31) : Move options s (s.enqueue options data)
  | ignore : Move options s s
  | stop (stop gStop : Bool) (h : s.stopping = true → (stop || gStop) = true) :
      Move options s { s with stop, gStop }
  | exit (hpc : s.pc = .run ∨ s.pc = .caught) (h : s.stopping = true) :
      Move options s { s with pc := .exited }
  | connect (hpc : s.pc = .run) (h : s.stopping = false) : Move options s { s with pc := .source }
  | connected (hpc : s.pc = .source) :
      Move options s ({ s with pc := .stream }.record .connected)
  | sourceFailed (hpc : s.pc = .source) :
      Move options s ({ s with pc := .caught }.record .sourceFailed)
  | stream (hpc : s.pc = .stream) (h : s.stopping = false) :
      Move options s { s with pc := .waiting }
  | leave (hpc : s.pc = .stream ∨ s.pc = .waiting) (h : s.stopping = true) :
      Move options s { s with pc := .returned }
  | pop (hpc : s.pc = .waiting) (p : Payload) (ps : List Payload) (hq : s.queue = p :: ps) :
      Move options s ({ s with queue := ps, pc := .writing p }.subQueuedBytes p.size)
  | wrote (p : Payload) (hpc : s.pc = .writing p) :
      Move options s ({ s with pc := .stream }.record (.wrote p))
  | writeFailed (p : Payload) (hpc : s.pc = .writing p) :
      Move options s ({ s with pc := .caught }.record (.writeFailed p))
  | reset (hpc : s.pc = .returned) :
      Move options s { s with reconnectDelay := options.reconnectMinSec, pc := .run }
  | recover (hpc : s.pc = .caught) (h : s.stopping = false) :
      Move options s { s with pc := .clearing }
  | clear (hpc : s.pc = .clearing) :
      Move options s ({ s.clearQueueLocked with pc := .backoff }.record .cleared)
  | wait (hpc : s.pc = .backoff) :
      Move options s ({ s with pc := .sleeping }.record
        (.wait (s.reconnectDelay * 1000 + s.reconnectJitterMs)))
  | wake (hpc : s.pc = .sleeping) :
      Move options s { s with
        reconnectDelay := min (s.reconnectDelay * 2) options.reconnectMaxSec
        pc := .run }

theorem move_of_workerStep {ok : Bool} (h : s.workerStep options ok = some s') :
    Move options s s' := by
  rw [workerStep] at h
  cases hpc : s.pc with
  | run =>
    cases hst : s.stopping <;> simp only [hpc, hst] at h <;> cases h
    · exact .connect hpc hst
    · exact .exit (.inl hpc) hst
  | source =>
    cases ok <;> simp only [hpc] at h <;> cases h
    · exact .sourceFailed hpc
    · exact .connected hpc
  | stream =>
    cases hst : s.stopping <;> simp only [hpc, hst] at h <;> cases h
    · exact .stream hpc hst
    · exact .leave (.inl hpc) hst
  | waiting =>
    cases hst : s.stopping <;> simp only [hpc, hst] at h
    · cases hq : s.queue with
      | nil => simp [hq] at h
      | cons p ps =>
        simp only [hq] at h
        cases h
        exact .pop hpc p ps hq
    · cases h
      exact .leave (.inr hpc) hst
  | writing p =>
    cases ok <;> simp only [hpc] at h <;> cases h
    · exact .writeFailed p hpc
    · exact .wrote p hpc
  | returned =>
    simp only [hpc] at h
    cases h
    exact .reset hpc
  | caught =>
    cases hst : s.stopping <;> simp only [hpc, hst] at h <;> cases h
    · exact .recover hpc hst
    · exact .exit (.inr hpc) hst
  | clearing =>
    simp only [hpc] at h
    cases h
    exact .clear hpc
  | backoff =>
    simp only [hpc] at h
    cases h
    exact .wait hpc
  | sleeping =>
    simp only [hpc] at h
    cases h
    exact .wake hpc
  | exited => simp [hpc] at h

/-- A step is one of the moves. -/
theorem move_of_step (h : s.step options e = some s') : Move options s s' := by
  cases e with
  | arrive data =>
    simp only [step, onNatsMsg] at h
    split_ifs at h with hlen hpos
    · cases h
      exact .arrive data hlen
    · cases h
      exact .ignore
  | stop =>
    cases h
    exact .stop true s.gStop fun _ => rfl
  | signal =>
    cases h
    exact .stop s.stop true fun _ => by simp
  | worker ok => exact move_of_workerStep h

/-- What holds at the start of a session and is preserved by the moves always
    holds. -/
theorem invariant {hash : UInt64} {P : StreamSession → Prop}
    (h : (automaton options hash).Reachable s) (hinit : P (automaton options hash).init)
    (hmove : ∀ s s', P s → Move options s s' → P s') : P s :=
  h.invariant hinit fun s _ s' hs hstep => hmove s s' hs (move_of_step hstep)

end StreamSession

end RtcmBridge.Nats2Ntrip

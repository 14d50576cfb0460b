import Mathlib.Tactic

/-!
# Asynchronous operations

The part of Boost.Asio that a client with one resolver, one TCP socket and one
timer uses. A client starts asynchronous operations and cancels them; each
operation is *pending* until it completes, once, with an error code, and its
handler runs then.

* An operation that is cancelled while pending (by `cancel`, by closing its
  socket, by destroying its timer) completes with `operation_aborted`.
* An operation started on a closed socket completes with another error.
* Any other operation completes in any way but `operation_aborted`; a timer
  that is not cancelled completes when it expires, successfully.

In which order pending operations complete is left open.
-/

namespace RtcmBridge.Asio

/-- The asynchronous operations of a client. -/
inductive Kind
  | resolve
  | connect
  | write
  | read
  | wait
  deriving DecidableEq, Repr

/-- An error code, up to what a handler tells apart. -/
inductive Ec
  | ok
  | operationAborted
  | failed
  deriving DecidableEq, Repr

/-- The operations of a socket. -/
def socketKinds : List Kind := [.connect, .write, .read]

/-- A pending operation. -/
structure Op where
  kind : Kind
  /-- It was cancelled since it was started. -/
  cancelled : Bool := false
  /-- It was started on a closed socket. -/
  onClosed : Bool := false
  onSocket : onClosed = true → kind ∈ socketKinds := by simp [socketKinds]
  deriving DecidableEq

namespace Op

/-- The error codes an operation may complete with. -/
def admits (op : Op) (ec : Ec) : Bool :=
  if op.onClosed then ec = .failed
  else if op.cancelled then ec = .operationAborted
  else if op.kind = .wait then ec = .ok
  else ec ≠ .operationAborted

/-- The error codes an operation may complete with if it may have completed
    before it was cancelled. -/
def admitsLate (op : Op) (ec : Ec) : Bool :=
  if op.onClosed then ec = .failed else op.cancelled || ec ≠ .operationAborted

/-- The operation is still under way: nothing has decided that it fails. -/
def live (op : Op) : Bool := !op.cancelled && !op.onClosed

/-- The operation, cancelled if it is of one of the kinds `ks`. One that was
    started on a closed socket has failed already. -/
def cancel (ks : List Kind) (op : Op) : Op :=
  if op.kind ∈ ks ∧ op.onClosed = false then { op with cancelled := true } else op

/-- An operation stays live unless it is of a kind that is cancelled. -/
theorem live_cancel (ks : List Kind) (op : Op) :
    (op.cancel ks).live = (op.live && decide (op.kind ∉ ks)) := by
  rw [cancel, live, live]
  split_ifs with h
  · simp [h.1]
  · rw [not_and_or] at h
    rcases h with hk | hc
    · simp [hk]
    · simp [hc]

theorem cancel_of_not_mem {ks : List Kind} {op : Op} (h : op.kind ∉ ks) : op.cancel ks = op := by
  rw [cancel, if_neg fun hk => h hk.1]

/-- What can complete can complete late. -/
theorem admitsLate_of_admits {op : Op} {ec : Ec} (h : op.admits ec = true) :
    op.admitsLate ec = true := by
  revert h
  rw [admits, admitsLate]
  cases op.onClosed <;> cases op.cancelled <;> cases ec <;> simp

/-- An operation that completes successfully was still under way. -/
theorem live_of_admits_ok {op : Op} (h : op.admits .ok = true) : op.live = true := by
  revert h
  rw [admits, live]
  cases op.onClosed <;> cases op.cancelled <;> simp

/-- An operation that is aborted was cancelled. -/
theorem not_live_of_admits_aborted {op : Op} (h : op.admits .operationAborted = true) :
    op.live = false := by
  revert h
  rw [admits, live]
  cases op.onClosed <;> cases op.cancelled <;> simp

/-- Only what has been cancelled completes as aborted. -/
theorem cancelled_of_admitsLate_aborted {op : Op} (h : op.admitsLate .operationAborted = true) :
    op.cancelled = true := by
  revert h
  rw [admitsLate]
  cases op.onClosed <;> simp

/-- A timer is not waited on over a socket. -/
theorem onClosed_of_wait {op : Op} (h : op.kind = .wait) : op.onClosed = false := by
  by_contra hc
  have := op.onSocket (by simpa using hc)
  simp [h, socketKinds] at this

/-- A timer does not fail. -/
theorem kind_ne_wait_of_admits_failed {op : Op} (h : op.admits .failed = true) :
    op.kind ≠ .wait := by
  intro hk
  simp [admits, hk, onClosed_of_wait hk] at h

/-- A timer that is not cancelled expires. -/
theorem eq_ok_of_admits_wait {op : Op} {ec : Ec} (hk : op.kind = .wait)
    (hc : op.cancelled = false) (h : op.admits ec = true) : ec = .ok := by
  simpa [admits, hk, hc, onClosed_of_wait hk] using h

end Op

/-- The socket of a client, open or not, and its pending operations. -/
structure Io where
  isOpen : Bool := false
  pending : List Op := []
  deriving DecidableEq

namespace Io

/-- An operation is started. -/
def start (io : Io) (op : Op) : Io := { io with pending := io.pending ++ [op] }

/-- Cancel the pending operations of the kinds `ks`. -/
def cancel (io : Io) (ks : List Kind) : Io := { io with pending := io.pending.map (Op.cancel ks) }

/-- `resolver_.cancel`. -/
def resolverCancel (io : Io) : Io := io.cancel [.resolve]

/-- `timer_->cancel`. -/
def timerCancel (io : Io) : Io := io.cancel [.wait]

/-- `socket_.cancel`: all operations of the socket are cancelled. -/
def socketCancel (io : Io) : Io := io.cancel socketKinds

/-- `socket_.close`, which cancels the operations of the socket. -/
def socketClose (io : Io) : Io := { io.socketCancel with isOpen := false }

/-- `resolver_.async_resolve`. -/
def asyncResolve (io : Io) : Io := io.start { kind := .resolve }

/-- Connecting to the endpoints opens the socket afresh for each. -/
def asyncConnect (io : Io) : Io := { io.socketClose with isOpen := true }.start { kind := .connect }

/-- `asio::async_write`, which fails on a socket that is closed already. -/
def asyncWrite (io : Io) : Io := io.start { kind := .write, onClosed := !io.isOpen }

/-- `socket_.async_read_some`, which fails on a socket that is closed already. -/
def asyncReadSome (io : Io) : Io := io.start { kind := .read, onClosed := !io.isOpen }

/-- A new timer takes the place of the old one, which is destroyed, and is
    waited on. -/
def newTimerAsyncWait (io : Io) : Io := io.timerCancel.start { kind := .wait }

/-- The pending operation `i` completes with `ec`: it is no longer pending. -/
def complete (io : Io) (i : ℕ) (ec : Ec) : Option (Op × Io) :=
  match io.pending[i]? with
  | some op =>
    if op.admits ec then some (op, { io with pending := io.pending.eraseIdx i }) else none
  | none => none

/-- The pending operation `i` completes with `ec`, even if it has been cancelled
    since. -/
def completeLate (io : Io) (i : ℕ) (ec : Ec) : Option (Op × Io) :=
  match io.pending[i]? with
  | some op =>
    if op.admitsLate ec then some (op, { io with pending := io.pending.eraseIdx i }) else none
  | none => none

/-- The operations that the handler of a completion has started. -/
def started (io io' : Io) : List Op := io'.pending.drop (io.pending.length - 1)

/-! ## Operations under way -/

/-- The pending operations that are still under way. -/
def liveOps (io : Io) : List Op := io.pending.filter Op.live

variable {io io' : Io} {op : Op} {ec : Ec} {i : ℕ}

/-- An operation that is started is the last of the live ones. -/
theorem liveOps_start (io : Io) (op : Op) :
    (io.start op).liveOps = io.liveOps ++ if op.live then [op] else [] := by
  cases h : op.live <;> simp [start, liveOps, h]

/-- To cancel takes the operations of the kinds off the live ones. -/
theorem liveOps_cancel (io : Io) (ks : List Kind) :
    (io.cancel ks).liveOps = io.liveOps.filter (·.kind ∉ ks) := by
  rw [cancel, liveOps, liveOps]
  induction io.pending with
  | nil => rfl
  | cons op ops ih =>
    simp only [List.map_cons, List.filter_cons, Op.live_cancel] at ih ⊢
    rw [ih]
    by_cases hk : op.kind ∈ ks
    · cases op.live <;> simp [hk]
    · cases op.live <;> simp [hk, Op.cancel_of_not_mem]

/-- Cancelling the resolver, the timer and the socket leaves nothing under way. -/
theorem liveOps_cancel_all (io : Io) :
    io.resolverCancel.timerCancel.socketCancel.socketClose.liveOps = [] := by
  change ((((io.cancel [.resolve]).cancel [.wait]).cancel socketKinds).cancel
    socketKinds).liveOps = []
  rw [liveOps_cancel, liveOps_cancel, liveOps_cancel, liveOps_cancel]
  simp only [List.filter_filter, List.filter_eq_nil_iff]
  rintro ⟨kind, _, _, _⟩ -
  cases kind <;> simp [socketKinds]

/-- What completes was pending, is one of those admitted, and is no longer pending. -/
theorem take_eq_some_iff (admitted : Op → Bool) :
    (match io.pending[i]? with
      | some op =>
        if admitted op then some (op, { io with pending := io.pending.eraseIdx i }) else none
      | none => none) = some (op, io') ↔
    io.pending[i]? = some op ∧ admitted op = true ∧
      io' = { io with pending := io.pending.eraseIdx i } := by
  constructor
  · intro h
    split at h
    · split_ifs at h with ha
      obtain ⟨rfl, rfl⟩ := Prod.mk.inj (Option.some.inj h)
      exact ⟨‹_›, ha, rfl⟩
    · exact absurd h (by simp)
  · rintro ⟨hi, ha, rfl⟩
    simp [hi, ha]

/-- A completion takes its operation off, with an error code that it admits. -/
theorem complete_eq_some_iff : io.complete i ec = some (op, io') ↔
    io.pending[i]? = some op ∧ op.admits ec = true ∧
      io' = { io with pending := io.pending.eraseIdx i } :=
  take_eq_some_iff fun op => op.admits ec

theorem completeLate_eq_some_iff : io.completeLate i ec = some (op, io') ↔
    io.pending[i]? = some op ∧ op.admitsLate ec = true ∧
      io' = { io with pending := io.pending.eraseIdx i } :=
  take_eq_some_iff fun op => op.admitsLate ec

/-- What a handler starts is behind what was pending. -/
theorem started_eq (hi : io.pending[i]? = some op) {old new : List Op}
    (hlen : old.length = (io.pending.eraseIdx i).length) (h : io'.pending = old ++ new) :
    io.started io' = new := by
  obtain ⟨hlt, -⟩ := List.getElem?_eq_some_iff.1 hi
  rw [List.length_eraseIdx_of_lt hlt] at hlen
  rw [started, h, ← hlen, List.drop_left]

/-- The completion of an operation takes just this operation away. -/
theorem liveOps_complete (h : io.complete i ec = some (op, io')) :
    ∃ as bs, io.liveOps = as ++ (if op.live then [op] else []) ++ bs ∧ io'.liveOps = as ++ bs := by
  obtain ⟨hi, -, rfl⟩ := complete_eq_some_iff.1 h
  obtain ⟨hlt, rfl⟩ := List.getElem?_eq_some_iff.1 hi
  refine ⟨(io.pending.take i).filter Op.live, (io.pending.drop (i + 1)).filter Op.live, ?_, ?_⟩
  · rw [liveOps]
    conv_lhs => rw [← List.take_append_drop i io.pending, List.drop_eq_getElem_cons hlt]
    rw [List.filter_append, List.filter_cons, List.append_assoc]
    cases hl : io.pending[i].live <;> simp
  · rw [liveOps, List.eraseIdx_eq_take_drop_succ, List.filter_append]

end Io

/-- The event that the pending operation `i` completes, with the bytes read. -/
structure Completion where
  i : ℕ
  ec : Ec
  data : List UInt8 := []
  deriving DecidableEq, Repr

end RtcmBridge.Asio

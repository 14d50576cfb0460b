import RtcmBridge.NtripConnection.Transfer

/-!
# A feed is never abandoned

Every handler of `ntripConnection` returns silently if its operation was
aborted, and otherwise ends by starting an operation (`starts_handler`). So there
is always a pending operation that has not been cancelled, even if an operation
may complete, in any way, before its cancellation takes effect (`lateAutomaton`).

`connect` starts a resolution, `read` a read and `reconnect` a wait; the two
operations between these are those on the way from a resolution to a read.
-/

namespace RtcmBridge.NtripConnection

open Asio

section Automaton

variable (options : Options) (source : NtripSource) (evpEncodeBlock : Bytes → Option Bytes)

/-- The connection from its `start` on, if cancelled operations may have completed
    already. -/
def lateAutomaton : Automaton NtripConnection Completion where
  init := connect { delay := options.reconnectMinSec }
  step c e := (c.io.completeLate e.i e.ec).map fun (op, io) =>
    handler options source evpEncodeBlock { c with io } op.kind e.ec e.data

end Automaton

variable {options : Options} {source : NtripSource} {evpEncodeBlock : Bytes → Option Bytes}
  {c c' : NtripConnection} {e : Completion} {i : ℕ} {op : Op}

/-- All runs in which cancelled operations are aborted are among these. -/
theorem late_reachable (h : (automaton options source evpEncodeBlock).Reachable c) :
    (lateAutomaton options source evpEncodeBlock).Reachable c := by
  obtain ⟨es, hrun⟩ := h
  refine ⟨es, ?_⟩
  induction hrun with
  | init => exact .init
  | step hrun _ hs ih =>
    obtain ⟨⟨op, io⟩, hcomp, rfl⟩ := Option.map_eq_some_iff.1 hs
    obtain ⟨hi, hadm, rfl⟩ := Io.complete_eq_some_iff.1 hcomp
    have hlate := Io.completeLate_eq_some_iff.2 ⟨hi, Op.admitsLate_of_admits hadm, rfl⟩
    exact .step ih trivial (Option.map_eq_some_iff.2 ⟨_, hlate, rfl⟩)

/-- The connection when the pending operation `i` has completed, and its handler
    is called. -/
def completed (c : NtripConnection) (i : ℕ) : NtripConnection :=
  { c with io := { c.io with pending := c.io.pending.eraseIdx i } }

/-- A late completion runs the handler of its operation. -/
theorem step_eq_some_iff : (lateAutomaton options source evpEncodeBlock).step c e = some c' ↔
    ∃ op, c.io.pending[e.i]? = some op ∧ op.admitsLate e.ec = true ∧
      c' = handler options source evpEncodeBlock (c.completed e.i) op.kind e.ec e.data := by
  constructor
  · intro h
    obtain ⟨⟨op, io⟩, hcomp, rfl⟩ := Option.map_eq_some_iff.1 h
    obtain ⟨hi, hadm, rfl⟩ := Io.completeLate_eq_some_iff.1 hcomp
    exact ⟨op, hi, hadm, rfl⟩
  · rintro ⟨op, hi, hadm, rfl⟩
    exact Option.map_eq_some_iff.2 ⟨_, Io.completeLate_eq_some_iff.2 ⟨hi, hadm, rfl⟩, rfl⟩

/-! ### What the handlers start -/

/-- What a read makes of the response: it completes a header block that is
    accepted, or one that is rejected, or none. -/
def judged (c : NtripConnection) (data : Bytes) : Option Bool :=
  if data.length = 0 ∨ c.responseHeadersComplete = true then none
  else (find headersEndMark (c.responseBuffer ++ data)).map fun k =>
    responseOk ((c.responseBuffer ++ data).take (k + 4))

/-- Only a rejected response makes a read start anything, or change the delay. -/
theorem handleStreamBytes_cases (options : Options) (c : NtripConnection) (data : Bytes) :
    (c.judged data ≠ some false ∧ (c.handleStreamBytes options data).io = c.io ∧
      (c.handleStreamBytes options data).delay = c.delay) ∨
    (c.judged data = some false ∧ ∃ c₀ : NtripConnection, c₀.io = c.io ∧ c₀.delay = c.delay ∧
      c.handleStreamBytes options data = c₀.reconnect options) := by
  rw [handleStreamBytes, judged]
  by_cases hd : data.length = 0
  · rw [if_pos hd, if_pos (.inl hd)]
    exact .inl ⟨by simp, rfl, rfl⟩
  by_cases hc : c.responseHeadersComplete = true
  · rw [if_neg hd, if_pos hc, if_pos (.inr hc)]
    exact .inl ⟨by simp, rfl, rfl⟩
  rw [if_neg hd, if_neg hc, if_neg (not_or.2 ⟨hd, hc⟩)]
  dsimp only
  rcases find headersEndMark (c.responseBuffer ++ data) with _ | k
  · exact .inl ⟨by simp, rfl, rfl⟩
  · dsimp only [Option.map_some]
    cases responseOk ((c.responseBuffer ++ data).take (k + 4))
    · exact .inr ⟨rfl, _, rfl, rfl, rfl⟩
    · refine .inl ⟨by simp, ?_⟩
      simp only [Bool.not_true, Bool.false_eq_true, if_false]
      split_ifs <;> exact ⟨rfl, rfl⟩

/-- The operation that a handler starts last, having been called for one of the
    kind `kind`: that of `connect`, `read` or `reconnect`, or one between. -/
def Follows (kind : Kind) (op : Op) : Prop :=
  op.cancelled = false ∧ (op.kind ∈ [.resolve, .read, .wait] ∨
    (kind = .resolve ∧ op.kind = .connect) ∨ (kind = .connect ∧ op.kind = .write))

/-- `io'` has the operations of `io`, perhaps cancelled, and `new` behind them. -/
def Starts (io io' : Io) (new : List Op) : Prop :=
  ∃ old : List Op, old.length = io.pending.length ∧ io'.pending = old ++ new

theorem starts_start (io : Io) (op : Op) : Starts io (io.start op) [op] := ⟨_, rfl, rfl⟩

/-- `reconnect` always starts a wait. -/
theorem starts_reconnect (options : Options) (c : NtripConnection) :
    Starts c.io (c.reconnect options).io [{ kind := .wait }] := by
  refine ⟨_, ?_, rfl⟩
  simp [Io.socketCancel, Io.resolverCancel, Io.timerCancel, Io.cancel, Io.socketClose]

theorem starts_asyncConnect (io : Io) : Starts io io.asyncConnect [{ kind := .connect }] := by
  refine ⟨_, ?_, rfl⟩
  simp [Io.socketClose, Io.socketCancel, Io.cancel]

/-- A read goes on with the next one, on a closed socket if it has rejected the
    response. -/
theorem starts_read (options : Options) (c : NtripConnection) (data : Bytes) :
    ∃ op, op.kind = .read ∧ op.cancelled = false ∧
      Starts c.io ((c.receive data).handleStreamBytes options data).read.io
        ((if c.judged data = some false then [{ kind := .wait }] else []) ++ [op]) := by
  rcases handleStreamBytes_cases options (c.receive data) data with
    ⟨hj, hio, -⟩ | ⟨hj, c₀, hio, -, heq⟩
  · refine ⟨{ kind := .read, onClosed := !c.io.isOpen }, rfl, rfl, ?_⟩
    rw [if_neg (show c.judged data ≠ _ from hj), List.nil_append]
    refine ⟨c.io.pending, rfl, ?_⟩
    change (Io.asyncReadSome ((c.receive data).handleStreamBytes options data).io).pending = _
    rw [hio]
    rfl
  · obtain ⟨old, hlen, hpending⟩ := starts_reconnect options c₀
    refine ⟨{ kind := .read, onClosed := true }, rfl, rfl, ?_⟩
    rw [if_pos (show c.judged data = _ from hj), heq]
    refine ⟨old, hlen.trans (by rw [hio]; rfl), ?_⟩
    rw [← List.append_assoc, ← hpending]
    rfl

variable (options source evpEncodeBlock) in
/-- A handler whose operation was not aborted ends by starting an operation. -/
theorem starts_handler (c : NtripConnection) (kind : Kind) {ec : Ec} (hec : ec ≠ .operationAborted)
    (data : Bytes) : ∃ new op,
      Starts c.io (handler options source evpEncodeBlock c kind ec data).io (new ++ [op]) ∧
      Follows kind op := by
  have hreconnect (c : NtripConnection) : ∃ new op,
      Starts c.io (c.reconnect options).io (new ++ [op]) ∧ Follows kind op :=
    ⟨[], _, starts_reconnect options c, rfl, .inl (by simp)⟩
  by_cases hwait : kind = .wait
  -- The timer is answered by `connect`, whatever its error code.
  · subst hwait
    have hconnect : handler options source evpEncodeBlock c .wait ec data = c.connect := if_neg hec
    rw [hconnect]
    exact ⟨[], _, starts_start c.io _, rfl, .inl (by simp)⟩
  cases ec with
  | operationAborted => exact absurd rfl hec
  | failed => exact handler_failed options hwait data ▸ hreconnect c
  | ok =>
    cases kind with
    | resolve => exact ⟨[], _, starts_asyncConnect c.io, rfl, .inr (.inl ⟨rfl, rfl⟩)⟩
    | connect =>
      change ∃ new op, Starts c.io (c.establish.sendRequest options source evpEncodeBlock).io _ ∧ _
      rw [sendRequest]
      split_ifs
      · exact hreconnect c.establish
      · exact ⟨[], _, starts_start c.io _, rfl, .inr (.inr ⟨rfl, rfl⟩)⟩
    | write => exact ⟨[], _, starts_start c.io _, rfl, .inl (by simp)⟩
    | read =>
      obtain ⟨op, hkind, hcancelled, h⟩ := starts_read options c data
      exact ⟨_, op, h, hcancelled, .inl (by simp [hkind])⟩
    | wait => exact absurd rfl hwait

/-! ### Liveness -/

/-- A feed goes on as long as some pending operation has not been cancelled. -/
def Alive (c : NtripConnection) : Prop := ∃ op ∈ c.io.pending, op.cancelled = false

/-- An operation that completes otherwise than aborted is followed by another. -/
theorem follows_step (hi : c.io.pending[e.i]? = some op) (hec : e.ec ≠ .operationAborted)
    (h : (lateAutomaton options source evpEncodeBlock).step c e = some c') :
    ∃ op' ∈ c.io.started c'.io, Follows op.kind op' := by
  obtain ⟨op₁, hi₁, -, rfl⟩ := step_eq_some_iff.1 h
  obtain rfl : op₁ = op := Option.some.inj (hi₁.symm.trans hi)
  obtain ⟨new, op', ⟨old, hlen, hpending⟩, hfollows⟩ :=
    starts_handler options source evpEncodeBlock (c.completed e.i) op₁.kind hec e.data
  refine ⟨op', ?_, hfollows⟩
  rw [Io.started_eq hi hlen hpending]
  simp

/-- A step leaves a live operation behind. -/
theorem alive_step (hc : Alive c)
    (h : (lateAutomaton options source evpEncodeBlock).step c e = some c') : Alive c' := by
  by_cases hec : e.ec = .operationAborted
  -- It was cancelled, and what is not cancelled is still pending.
  · obtain ⟨op, hi, hadm, rfl⟩ := step_eq_some_iff.1 h
    rw [hec, handler_aborted]
    rw [hec] at hadm
    obtain ⟨op', hmem, hnot⟩ := hc
    obtain ⟨j, hj⟩ := List.getElem?_of_mem hmem
    refine ⟨op', List.mem_eraseIdx_iff_getElem?.2 ⟨j, ?_, hj⟩, hnot⟩
    rintro rfl
    obtain rfl : op' = op := Option.some.inj (hj.symm.trans hi)
    exact absurd (Op.cancelled_of_admitsLate_aborted hadm) (by simp [hnot])
  · obtain ⟨op, hi, -, -⟩ := step_eq_some_iff.1 h
    obtain ⟨op', hmem, hfollows⟩ := follows_step hi hec h
    exact ⟨op', List.mem_of_mem_drop hmem, hfollows.1⟩

/-- **A feed is never abandoned.** In every state reached by any order of completions,
    a pending operation has not been cancelled; each such operation is followed,
    however it completes, by the one that `connect`, `read` or `reconnect` starts,
    or by the next one on the way to a read; and it has a completion whose handler
    is `connect` or `reconnect`. -/
theorem never_abandoned (h : (lateAutomaton options source evpEncodeBlock).Reachable c) :
    (∃ op ∈ c.io.pending, op.cancelled = false) ∧
    ∀ i op, c.io.pending[i]? = some op → op.cancelled = false →
      (∀ ec data c', (lateAutomaton options source evpEncodeBlock).step c ⟨i, ec, data⟩ = some c' →
        ∃ op' ∈ c.io.started c'.io, Follows op.kind op') ∧
      ∃ ec c', (lateAutomaton options source evpEncodeBlock).step c ⟨i, ec, []⟩ = some c' ∧
        (c' = (c.completed i).connect ∨ c' = (c.completed i).reconnect options) := by
  have halive : Alive c := h.invariant ⟨_, List.mem_singleton_self _, rfl⟩
    fun _ _ _ hc hs => alive_step hc hs
  refine ⟨halive, fun i op hi hop => ⟨fun ec data c' hs => ?_, ?_⟩⟩
  · refine follows_step (e := ⟨i, ec, data⟩) hi ?_ hs
    rintro rfl
    obtain ⟨op₁, hi₁, hadm, -⟩ := step_eq_some_iff.1 hs
    obtain rfl : op₁ = op := Option.some.inj (hi₁.symm.trans hi)
    exact absurd (Op.cancelled_of_admitsLate_aborted hadm) (by simp [hop])
  · by_cases hkind : op.kind = .wait
    · refine ⟨.ok, _, step_eq_some_iff.2 ⟨op, hi, ?_, rfl⟩, .inl (by rw [hkind]; rfl)⟩
      simp [Op.admitsLate, Op.onClosed_of_wait hkind]
    · refine ⟨.failed, _, step_eq_some_iff.2 ⟨op, hi, ?_, rfl⟩, .inr ?_⟩
      · simp [Op.admitsLate]
      · exact handler_failed options hkind []

/-- A response is rejected, the read that follows fails, and the timer of the first
    `reconnect` has expired before it is cancelled. -/
def lateRun : List Completion :=
  [⟨0, .ok, []⟩, ⟨0, .ok, []⟩, ⟨0, .ok, []⟩, ⟨0, .ok, ascii "HTTP/1.1 401 Unauthorized\r\n\r\n"⟩,
    ⟨1, .failed, []⟩, ⟨0, .ok, []⟩]

theorem never_abandoned_lateRun :
    ∃ c, (lateAutomaton {} {} fun _ => some (ascii "Og==")).Reachable c ∧
      c.io.pending.map Op.kind = [.wait, .resolve] ∧ ∃ op ∈ c.io.pending, op.cancelled = false :=
  have h := Automaton.reachable_of_exec (show Automaton.exec _ lateRun = some _ from rfl)
  ⟨_, h, rfl, (never_abandoned h).1⟩

end RtcmBridge.NtripConnection

import RtcmBridge.DecoderClient.Basic
import RtcmBridge.Refinement

/-!
# The end of `rtcm_decoder_ntrip`

`main` starts the client, has a thread run its handlers, and looks at `g_running` from time to
time; when it is cleared, `main` stops the `io_context` and joins the thread (`process`).

A client that finds `g_running` cleared starts no resolution, no read and no wait; what is
pending still leads to two more operations at most (`weight`). So after a signal the process
takes a bounded number of steps, and it can go on until `main` has returned
(`returns_after_signal`), whether the handlers or `main` come first.
-/

namespace RtcmBridge.NtripDecoderClient

open Asio

/-- Where `main` is. -/
inductive Main
  | polling
  | stopping
  | joining
  | returned
  deriving DecidableEq

/-- The process: the client, `main`, and `io.run` between them. -/
structure Process where
  client : NtripDecoderClient
  main : Main := .polling
  /-- `io.stop` has been called. -/
  stopped : Bool := false
  /-- `io.run` has returned. -/
  ran : Bool := false

namespace Process

/-- A handler is run, `io.run` returns, `main` takes a step, or a signal comes. -/
inductive Event
  | handler (e : Completion)
  | runReturns
  | main
  | signal
  deriving DecidableEq

/-- The step of `main`. -/
def mainStep (p : Process) : Option Process :=
  match p.main with
  | .polling => some (if p.client.loads = some 0 then { p with main := .stopping } else p)
  | .stopping => some { p with main := .joining, stopped := true }
  | .joining => if p.ran then some { p with main := .returned } else none
  | .returned => none

end Process

open Process

/-- `main` from the start of the client on. -/
def process (target : NtripDecoderTarget) (loads : Option ℕ) : Automaton Process Process.Event where
  init := { client := (automaton target loads).init }
  step p e :=
    match e with
    | .handler e =>
      if p.stopped ∨ p.ran then none
      else ((automaton target loads).step p.client e).map fun client => { p with client }
    | .runReturns =>
      if p.ran = false ∧ (p.stopped ∨ p.client.io.pending = []) then some { p with ran := true }
      else none
    | .main => p.mainStep
    | .signal => some { p with client := { p.client with loads := some 0 } }

/-! ### What a client still does -/

/-- `g_running` is cleared. -/
def Cleared (c : NtripDecoderClient) : Prop := c.loads = some 0

/-- The handlers that an operation still leads to. -/
def Kind.weight : Kind → ℕ
  | .resolve => 3
  | .connect => 2
  | _ => 1

/-- The handlers that the pending operations still lead to. -/
def weight (io : Io) : ℕ := (io.pending.map fun op => Kind.weight op.kind).sum

variable {target : NtripDecoderTarget} {loads : Option ℕ} {c c' : NtripDecoderClient}
  {io : Io} {op : Op} {p p' : Process}

/-- A stopped client reads its flag as it is. -/
theorem load_of_cleared (h : Cleared c) : c.load = (false, c) := by
  have hl : c.loads = some 0 := h
  rw [load, hl]

/-- A cancelled operation is of the same kind. -/
@[simp] theorem kind_cancel (ks : List Kind) (op : Op) : (op.cancel ks).kind = op.kind := by
  rw [Op.cancel]
  split_ifs <;> rfl

/-- To cancel operations does not complete them, so the weight stays. -/
@[simp] theorem weight_cancel (io : Io) (ks : List Kind) : weight (io.cancel ks) = weight io := by
  simp [weight, Io.cancel, Function.comp_def]

/-- Nor does closing the socket. -/
@[simp] theorem weight_socketClose (io : Io) : weight io.socketClose = weight io :=
  weight_cancel io _

/-- An operation that is started adds its own weight. -/
@[simp] theorem weight_start (io : Io) (op : Op) :
    weight (io.start op) = weight io + Kind.weight op.kind := by
  simp [weight, Io.start]

/-- Every pending operation counts three at most. -/
theorem weight_le (io : Io) : weight io ≤ 3 * io.pending.length := by
  rw [weight]
  induction io.pending with
  | nil => rfl
  | cons op ops ih =>
    have hop : Kind.weight op.kind ≤ 3 := by cases op.kind <;> decide
    rw [List.map_cons, List.sum_cons, List.length_cons]
    omega

/-- `reconnect` closes the socket, and that is all. -/
theorem reconnect_of_cleared (h : Cleared c) :
    c.reconnect = { c with io := c.io.socketClose } := by
  have hl : Cleared { c with io := c.io.socketClose } := h
  rw [reconnect_eq, load_of_cleared hl]
  rfl

theorem readLoop_of_cleared (h : Cleared c) : c.readLoop = c := by
  rw [readLoop_eq, load_of_cleared h]
  rfl

/-- After the signal, no operation is started any more. -/
theorem connect_of_cleared (h : Cleared c) : c.connect = c := by
  rw [connect_eq, load_of_cleared h]
  rfl

/-- The bytes of a read start nothing. -/
theorem cleared_onBytes (h : Cleared c) (data : Bytes) :
    Cleared (c.onBytes data) ∧ weight (c.onBytes data).io = weight c.io := by
  rw [onBytes]
  split_ifs
  · dsimp only
    split
    · exact ⟨h, rfl⟩
    · split_ifs
      · have hc : Cleared { c with responseHeader := c.responseHeader ++ data } := h
        rw [reconnect_of_cleared hc]
        exact ⟨h, weight_socketClose _⟩
      · exact ⟨h, rfl⟩
      · exact ⟨h, rfl⟩
  · exact ⟨h, rfl⟩

theorem weight_pos (kind : Kind) : 0 < Kind.weight kind := by cases kind <;> decide

variable (target) in
/-- A handler leads to less than its operation stood for. -/
theorem cleared_handler (h : Cleared c) (kind : Kind) (ec : Ec) (data : Bytes) :
    Cleared (handler target c kind ec data) ∧
      weight (handler target c kind ec data).io < weight c.io + Kind.weight kind := by
  -- Where nothing is started, the weight drops by that of the handler.
  have hsame {d : NtripDecoderClient} (hd : Cleared d ∧ weight d.io = weight c.io) :
      Cleared d ∧ weight d.io < weight c.io + Kind.weight kind :=
    ⟨hd.1, hd.2 ▸ Nat.lt_add_of_pos_right (weight_pos kind)⟩
  have hreconnect : Cleared c.reconnect ∧ weight c.reconnect.io = weight c.io := by
    rw [reconnect_of_cleared h]
    exact ⟨h, weight_socketClose _⟩
  rw [handler.eq_def]
  cases kind with
  | resolve =>
    split_ifs
    · exact hsame hreconnect
    · refine ⟨h, ?_⟩
      -- A connect is started in the place of a resolve, which weighs more.
      have hio : weight c.io.asyncConnect = weight c.io + 2 := by
        rw [Io.asyncConnect, weight_start]
        exact congrArg (· + 2) (weight_socketClose c.io)
      change weight c.io.asyncConnect < weight c.io + 3
      omega
  | connect =>
    split_ifs
    · exact hsame hreconnect
    · refine ⟨h, ?_⟩
      change weight (c.io.asyncWrite) < weight c.io + 2
      rw [Io.asyncWrite, weight_start]
      exact Nat.lt_succ_self _
  | write =>
    split_ifs
    · exact hsame hreconnect
    · rw [readLoop_of_cleared h]
      exact hsame ⟨h, rfl⟩
  | read =>
    split_ifs
    · rw [load_of_cleared h]
      exact hsame ⟨h, rfl⟩
    · have hbytes := cleared_onBytes h data
      rw [readLoop_of_cleared hbytes.1]
      exact hsame hbytes
  | wait =>
    have hc : Cleared { c with reentries := c.reentries ++ [ec] } := h
    dsimp only
    rw [connect_of_cleared hc]
    exact hsame ⟨h, rfl⟩

/-- So does each completion. -/
theorem cleared_step (h : Cleared c) {e : Completion}
    (hs : (automaton target loads).step c e = some c') :
    Cleared c' ∧ weight c'.io < weight c.io := by
  obtain ⟨⟨op, io⟩, hcomp, rfl⟩ := Option.map_eq_some_iff.1 hs
  obtain ⟨hi, -, rfl⟩ := Io.complete_eq_some_iff.1 hcomp
  obtain ⟨hlt, rfl⟩ := List.getElem?_eq_some_iff.1 hi
  have hc : Cleared { c with io := { c.io with pending := c.io.pending.eraseIdx e.i } } := h
  obtain ⟨hcleared, hweight⟩ :=
    cleared_handler target hc c.io.pending[e.i].kind e.ec e.data
  refine ⟨hcleared, hweight.trans_eq ?_⟩
  have hperm := (List.getElem_cons_eraseIdx_perm hlt).map fun op => Kind.weight op.kind
  have hsum := hperm.sum_eq
  rw [List.map_cons, List.sum_cons] at hsum
  rw [weight, weight, ← hsum, Nat.add_comm]

/-! ### What the process still does -/

/-- The steps that `main` still has to take. -/
def Main.left : Main → ℕ
  | .polling => 3
  | .stopping => 2
  | .joining => 1
  | .returned => 0

/-- The steps that the process still has to take. -/
def left (p : Process) : ℕ :=
  weight p.client.io + (if p.ran then 0 else 1) + p.main.left

/-- Every step of the stopped process other than a signal brings its end nearer. -/
theorem cleared_process (h : Cleared p.client) {e : Process.Event}
    (hs : (process target loads).step p e = some p') :
    Cleared p'.client ∧ left p' + (if e ≠ .signal then 1 else 0) ≤ left p := by
  cases e with
  | handler e =>
    simp only [process] at hs
    split_ifs at hs with hrun
    obtain ⟨client, hclient, rfl⟩ := Option.map_eq_some_iff.1 hs
    obtain ⟨hcleared, hweight⟩ := cleared_step h hclient
    refine ⟨hcleared, ?_⟩
    simp only [left, ne_eq, reduceCtorEq, not_false_eq_true, if_true]
    omega
  | runReturns =>
    obtain ⟨⟨hran, -⟩, heq⟩ := Option.ite_none_right_eq_some.1 hs
    cases heq
    refine ⟨h, ?_⟩
    simp [left, hran]
  | main =>
    have hc : p.client.loads = some 0 := h
    simp only [process, mainStep] at hs
    split at hs
    · rename_i hmain
      rw [if_pos hc] at hs
      cases hs
      refine ⟨h, ?_⟩
      simp [left, hmain, Main.left]
    · rename_i hmain
      cases hs
      refine ⟨h, ?_⟩
      simp [left, hmain, Main.left]
    · rename_i hmain
      split_ifs at hs
      cases hs
      refine ⟨h, ?_⟩
      simp [left, hmain, Main.left]
    · cases hs
  | signal =>
    cases hs
    refine ⟨rfl, ?_⟩
    simp [left]

/-- `main` joins the thread when it has stopped the `io_context`. -/
theorem stopped_of_joining (h : (process target loads).Reachable p) (hmain : p.main = .joining) :
    p.stopped = true := by
  refine h.invariant (P := fun p => p.main = .joining → p.stopped = true) (fun h => ?_)
    (fun p e p' hp hs hmain => ?_) hmain
  · cases h
  · cases e with
    | handler e =>
      simp only [process] at hs
      split_ifs at hs
      obtain ⟨client, -, rfl⟩ := Option.map_eq_some_iff.1 hs
      exact hp hmain
    | runReturns =>
      obtain ⟨-, heq⟩ := Option.ite_none_right_eq_some.1 hs
      cases heq
      exact hp hmain
    | main =>
      simp only [process, mainStep] at hs
      split at hs
      · split_ifs at hs
        · cases hs
          cases hmain
        · cases hs
          exact hp hmain
      · cases hs
        rfl
      · split_ifs at hs
        cases hs
        cases hmain
      · cases hs
    | signal =>
      cases hs
      exact hp hmain

/-- Until `main` has returned, something can happen. -/
theorem exists_step_of_cleared (h : (process target loads).Reachable p)
    (hmain : p.main ≠ .returned) :
    ∃ e p', e ≠ .signal ∧ (process target loads).step p e = some p' := by
  cases hp : p.main with
  | polling => exact ⟨.main, _, by decide, by simp only [process, mainStep, hp]; rfl⟩
  | stopping => exact ⟨.main, _, by decide, by simp only [process, mainStep, hp]; rfl⟩
  | joining =>
    by_cases hran : p.ran = true
    · exact ⟨.main, _, by decide, by simp only [process, mainStep, hp, if_pos hran]; rfl⟩
    · refine ⟨.runReturns, _, by decide, if_pos ⟨by simpa using hran, .inl ?_⟩⟩
      exact stopped_of_joining h hp
  | returned => exact absurd hp hmain

/-- **A signal ends the process.** From a state in which `g_running` is cleared, whatever
    happens, the process takes at most three steps for each pending operation, and four more;
    and until `main` has returned, it can take one. -/
theorem returns_after_signal {p₀ : Process} (h : (process target loads).Reachable p₀)
    (hcleared : Cleared p₀.client) {es : List Process.Event}
    (hrun : ((process target loads).startingAt p₀).Run (fun _ _ => True) es p) :
    es.countP (· ≠ .signal) ≤ 3 * p₀.client.io.pending.length + 4 ∧
      (p.main ≠ .returned →
        ∃ e p', e ≠ .signal ∧ (process target loads).step p e = some p') := by
  refine ⟨?_, exists_step_of_cleared (h.of_startingAt hrun)⟩
  have hcount := Automaton.countP_add_le (J := fun p => Cleared p.client) (V := left)
    (p := fun e => e ≠ .signal) hcleared
    (fun hp _ hs => by simpa using cleared_process hp hs) hrun
  have hweight := weight_le p₀.client.io
  have hran : (if p₀.ran then 0 else 1) ≤ 1 := by split_ifs <;> decide
  have hmain : p₀.main.left ≤ 3 := by cases p₀.main <;> decide
  have hleft : left p₀ = weight p₀.client.io + (if p₀.ran then 0 else 1) + p₀.main.left := rfl
  omega

/-- A signal while a name is resolved. -/
def signalRun : List Process.Event :=
  [.signal, .handler ⟨0, .ok, []⟩, .main, .handler ⟨0, .ok, []⟩, .main, .runReturns, .main]

theorem returns_after_signal_signalRun : ∃ p₀ p,
    (process {} none).step (process {} none).init .signal = some p₀ ∧
      ((process {} none).startingAt p₀).exec signalRun = some p ∧ p.main = .returned ∧
      signalRun.countP (· ≠ .signal) ≤ 3 * p₀.client.io.pending.length + 4 :=
  have h : (process {} none).Reachable _ := .next ⟨[], .init⟩ (e := .signal) rfl
  ⟨_, _, rfl, rfl, rfl, (returns_after_signal h rfl
    (Automaton.run_of_exec (show Automaton.exec _ signalRun = some _ from rfl))).1⟩

end RtcmBridge.NtripDecoderClient

import RtcmBridge.MachineInt
import RtcmBridge.NtripConnection.Liveness
import RtcmBridge.Trace

/-!
# The waits before the next connection

`reconnect` doubles the delay, and nothing sets it back: the wait is the one of
the calls of `reconnect` since the start. Two things keep it from being that of
the failures since the last accepted response. A stream that breaks off after
other failures waits as if there had been no response in between; and after a
rejected response the reading goes on, on a closed socket, and the read that
fails there calls `reconnect` again.

The outcomes of the attempts and the calls of `reconnect` are observed
(`observed`); a step has one of three shapes (`Shape`), and
`lawful_iff` says in which runs the law holds.
-/

namespace RtcmBridge.NtripConnection

open Asio Trace

/-- What is observed of a run. -/
inductive Act
  /-- An attempt to connect fails, or a connection is lost. -/
  | failed
  /-- A response is accepted. -/
  | accepted
  /-- `reconnect` is called, and waits for this number of seconds. -/
  | reconnect (delay : Int32)
  deriving DecidableEq

section Observed

variable (options : Options) (source : NtripSource) (evpEncodeBlock : Bytes → Option Bytes)

/-- `send_request` cannot encode the credentials. -/
abbrev Unencodable : Prop :=
  source.user ++ ascii ":" ++ source.pass ≠ [] ∧
    base64 evpEncodeBlock (source.user ++ ascii ":" ++ source.pass) = []

/-- What a completion means for the attempt. A read that was started on a closed
    socket belongs to an attempt that has failed already. -/
def outcome (c : NtripConnection) (e : Completion) : List Act :=
  match c.io.pending[e.i]?, e.ec with
  | none, _ | some _, .operationAborted => []
  | some op, .failed => if op.onClosed then [] else [.failed]
  | some op, .ok =>
    match op.kind with
    | .connect => if Unencodable source evpEncodeBlock then [.failed] else []
    | .read =>
      match c.judged e.data with
      | some true => [.accepted]
      | some false => [.failed]
      | none => []
    | _ => []

/-- What is observed of a step: the outcome, and the calls of `reconnect`, each of
    which starts the wait on the timer. -/
def observed (c : NtripConnection) (e : Completion) (c' : NtripConnection) : List Act :=
  outcome source evpEncodeBlock c e ++
    ((c.io.started c'.io).filter fun op => op.kind = .wait).map fun _ => .reconnect c'.delay

/-- The connection from its `start` on, with what is observed of it. -/
def observedAutomaton : Automaton (NtripConnection × List Act) Completion :=
  (automaton options source evpEncodeBlock).track [] fun l c e c' =>
    l ++ observed source evpEncodeBlock c e c'

end Observed

/-- The failures since the start or the last accepted response. -/
def streak (l : List Act) : ℕ :=
  l.foldl (fun k a => match a with | .failed => k + 1 | .accepted => 0 | .reconnect _ => k) 0

/-- The wait after `k` failures in a row, in seconds. -/
def delaySec (options : Options) (k : ℕ) : ℤ :=
  min options.reconnectMaxSec.toInt (options.reconnectMinSec.toInt * 2 ^ k)

/-- Each failure is answered by a call of `reconnect`, each call answers one, and
    waits as long as the failures in a row demand. -/
def Law (options : Options) (before : List Act) (act : Act) (after : List Act) : Prop :=
  match act with
  | .failed => ∃ d, after.head? = some (.reconnect d)
  | .accepted => True
  | .reconnect d => before.getLast? = some .failed ∧ d.toInt = delaySec options (streak before)

/-- All waits of a history are lawful. -/
def Lawful (options : Options) (l : List Act) : Prop := Each (Law options) l

/-! ### What a step shows -/

section Steps

variable {options : Options} {source : NtripSource} {evpEncodeBlock : Bytes → Option Bytes}
  {c c' : NtripConnection} {e : Completion}

/-- A read that was started on a closed socket completes. -/
def Stale (c : NtripConnection) (e : Completion) : Prop :=
  ∃ op, c.io.pending[e.i]? = some op ∧ op.onClosed = true

/-- The attempt fails. -/
def Fails (source : NtripSource) (evpEncodeBlock : Bytes → Option Bytes) (c : NtripConnection)
    (e : Completion) : Prop :=
  .failed ∈ outcome source evpEncodeBlock c e

/-- The shapes of a step: nothing fails, the attempt fails and `reconnect` is
    called, or `reconnect` is called though nothing fails. -/
inductive Shape (options : Options) (source : NtripSource)
    (evpEncodeBlock : Bytes → Option Bytes) (c : NtripConnection) (e : Completion)
    (c' : NtripConnection) : Prop
  | quiet (l : List Act) (hl : l = [] ∨ l = [.accepted])
      (hobs : observed source evpEncodeBlock c e c' = l) (hdelay : c'.delay = c.delay)
      (hstale : ¬Stale c e) (hfails : ¬Fails source evpEncodeBlock c e)
  | fails (hobs : observed source evpEncodeBlock c e c' = [.failed, .reconnect c'.delay])
      (hdelay : c'.delay = min (c.delay * 2) options.reconnectMaxSec)
      (hstale : ¬Stale c e) (hfails : Fails source evpEncodeBlock c e)
  | stale (hobs : observed source evpEncodeBlock c e c' = [.reconnect c'.delay])
      (hstale : Stale c e)

/-- The operations that a handler starts are seen as those of the step. -/
theorem observed_of_starts {op : Op} (hi : c.io.pending[e.i]? = some op) {new : List Op}
    (h : Starts (c.completed e.i).io c'.io new) :
    observed source evpEncodeBlock c e c' = outcome source evpEncodeBlock c e ++
      (new.filter fun op => op.kind = .wait).map fun _ => .reconnect c'.delay := by
  obtain ⟨old, hlen, hpending⟩ := h
  rw [observed, Io.started_eq hi hlen hpending]

theorem not_stale {op : Op} (hi : c.io.pending[e.i]? = some op) (hop : op.onClosed = false) :
    ¬Stale c e := by
  rintro ⟨op', hi', hclosed⟩
  rw [Option.some.inj (hi'.symm.trans hi), hop] at hclosed
  exact absurd hclosed Bool.false_ne_true

/-- Nothing fails, and no timer is started. -/
theorem Shape.of_quiet {op : Op} (hi : c.io.pending[e.i]? = some op) (hop : op.onClosed = false)
    {l : List Act} (hl : l = [] ∨ l = [.accepted])
    (hout : outcome source evpEncodeBlock c e = l) {new : List Op}
    (h : Starts (c.completed e.i).io c'.io new) (hnew : ∀ op ∈ new, op.kind ≠ .wait)
    (hdelay : c'.delay = c.delay) : Shape options source evpEncodeBlock c e c' := by
  refine .quiet l hl ?_ hdelay (not_stale hi hop) ?_
  · rw [observed_of_starts hi h, hout, List.filter_eq_nil_iff.2 (by simpa using hnew), List.map_nil,
      List.append_nil]
  · rw [Fails, hout]
    rcases hl with rfl | rfl <;> simp

/-- The attempt fails, and `reconnect` starts the timer. -/
theorem Shape.of_fails {op : Op} (hi : c.io.pending[e.i]? = some op) (hop : op.onClosed = false)
    (hout : outcome source evpEncodeBlock c e = [.failed]) {new : List Op}
    (h : Starts (c.completed e.i).io c'.io new)
    (hnew : new.filter (fun op => op.kind = .wait) = [{ kind := .wait }])
    (hdelay : c'.delay = min (c.delay * 2) options.reconnectMaxSec) :
    Shape options source evpEncodeBlock c e c' := by
  refine .fails ?_ hdelay (not_stale hi hop) ?_
  · rw [observed_of_starts hi h, hout, hnew]
    rfl
  · rw [Fails, hout]
    exact List.mem_singleton_self _

/-- The handlers of operations that succeed. -/
theorem shape_ok {op : Op} (hi : c.io.pending[e.i]? = some op) (hop : op.onClosed = false)
    (hec : e.ec = .ok) : Shape options source evpEncodeBlock c e
      (handler options source evpEncodeBlock (c.completed e.i) op.kind .ok e.data) := by
  have hout : outcome source evpEncodeBlock c e = match op.kind with
      | .connect => if Unencodable source evpEncodeBlock then [.failed] else []
      | .read =>
        match c.judged e.data with
        | some true => [.accepted]
        | some false => [.failed]
        | none => []
      | _ => [] := by
    rw [outcome, hi, hec]
  cases hkind : op.kind with
  | resolve =>
    rw [hkind] at hout
    exact .of_quiet hi hop (.inl rfl) hout (starts_asyncConnect _) (by simp) rfl
  | connect =>
    rw [hkind] at hout
    change Shape _ _ _ _ _ ((c.completed e.i).establish.sendRequest options source evpEncodeBlock)
    rw [sendRequest]
    -- Without credentials, `send_request` goes to `reconnect` at once.
    by_cases hcred : Unencodable source evpEncodeBlock
    · rw [if_pos hcred]
      exact .of_fails hi hop (hout.trans (if_pos hcred)) (starts_reconnect options _) rfl rfl
    · rw [if_neg hcred]
      exact .of_quiet hi hop (.inl rfl) (hout.trans (if_neg hcred)) (starts_start _ _) (by simp) rfl
  | write =>
    rw [hkind] at hout
    exact .of_quiet hi hop (.inl rfl) hout (starts_start _ _) (by simp) rfl
  | read =>
    rw [hkind] at hout
    obtain ⟨next, hnext, -, hstarts⟩ := starts_read options (c.completed e.i) e.data
    rcases handleStreamBytes_cases options ((c.completed e.i).receive e.data) e.data with
      ⟨hj, -, hdelay⟩ | ⟨hj, c₀, -, hdelay, heq⟩
    · -- The read goes on, in the header block or behind it.
      change c.judged e.data ≠ some false at hj
      rw [if_neg (show (c.completed e.i).judged e.data ≠ some false from hj), List.nil_append]
        at hstarts
      refine .of_quiet hi hop ?_ rfl hstarts (by simp [hnext]) hdelay
      rw [hout]
      rcases hv : c.judged e.data with _ | _ | _
      · exact .inl rfl
      · exact absurd hv hj
      · exact .inr rfl
    · -- The header block is rejected, which is a failure.
      change c.judged e.data = some false at hj
      rw [if_pos (show (c.completed e.i).judged e.data = some false from hj)] at hstarts
      refine .of_fails hi hop (by rw [hout, hj]) hstarts (by simp [hnext]) ?_
      change (handleStreamBytes options _ e.data).delay = _
      rw [heq]
      change min (c₀.delay * 2) options.reconnectMaxSec = _
      rw [hdelay]
      rfl
  | wait =>
    rw [hkind] at hout
    exact .of_quiet hi hop (.inl rfl) hout (starts_start _ _) (by simp) rfl

/-- What a step can do to the log and the delay. -/
theorem shape_of_step (h : (automaton options source evpEncodeBlock).step c e = some c') :
    Shape options source evpEncodeBlock c e c' := by
  obtain ⟨⟨op, io⟩, hcomp, rfl⟩ := Option.map_eq_some_iff.1 h
  obtain ⟨hi, hadm, rfl⟩ := Io.complete_eq_some_iff.1 hcomp
  change Shape options source evpEncodeBlock c e
    (handler options source evpEncodeBlock (c.completed e.i) op.kind e.ec e.data)
  have hopen (hec : e.ec ≠ .failed) : op.onClosed = false := by
    revert hadm
    rw [Op.admits]
    cases op.onClosed <;> simp [hec]
  rcases hec : e.ec with _ | _ | _
  · exact shape_ok hi (hopen (by simp [hec])) hec
  · rw [handler_aborted]
    have hnone : Starts (c.completed e.i).io (c.completed e.i).io [] :=
      ⟨_, rfl, (List.append_nil _).symm⟩
    refine .of_quiet hi (hopen (by simp [hec])) (.inl rfl) ?_ hnone (by simp) rfl
    rw [outcome, hi, hec]
  · rw [hec] at hadm
    rw [handler_failed options (Op.kind_ne_wait_of_admits_failed hadm)]
    have hout : outcome source evpEncodeBlock c e = if op.onClosed then [] else [.failed] := by
      rw [outcome, hi, hec]
    cases hop : op.onClosed
    · rw [hop] at hout
      exact .of_fails hi hop hout (starts_reconnect options _) rfl rfl
    · rw [hop] at hout
      refine .stale ?_ ⟨op, hi, hop⟩
      rw [observed_of_starts hi (starts_reconnect options _), hout]
      rfl

end Steps

/-! ### The law -/

section Law

variable {options : Options} {l m : List Act} {d : Int32}

/-- The last entry of a log decides on the streak. -/
theorem streak_concat (l : List Act) (a : Act) : streak (l ++ [a]) =
    match a with | .failed => streak l + 1 | .accepted => 0 | .reconnect _ => streak l := by
  rw [streak, List.foldl_append]
  rfl

/-- One failure, and its call of `reconnect`. -/
theorem count_fails (l : List Act) (d : Int32) :
    (l ++ [Act.failed, Act.reconnect d]).count Act.failed = l.count Act.failed + 1 := by
  simp

theorem streak_fails (l : List Act) (d : Int32) :
    streak (l ++ [Act.failed, Act.reconnect d]) = streak l + 1 := by
  rw [streak, List.foldl_append]
  rfl

/-- What was lawful stays so; the new entries have to be. -/
theorem lawful_append (h : Lawful options l)
    (hm : Each (fun before act after => Law options (l ++ before) act after) m) :
    Lawful options (l ++ m) := by
  refine each_append.2 ⟨h.imp fun before act after hlaw => ?_, hm⟩
  cases act with
  | failed =>
    obtain ⟨d, hd⟩ := hlaw
    exact ⟨d, by rw [List.head?_append, hd]; rfl⟩
  | accepted => trivial
  | reconnect d => exact hlaw

theorem lawful_fails (h : Lawful options l) (hd : d.toInt = delaySec options (streak l + 1)) :
    Lawful options (l ++ [.failed, .reconnect d]) := by
  refine lawful_append (m := [.failed] ++ [.reconnect d]) h ?_
  refine each_concat.2 ⟨each_singleton.2 ⟨d, rfl⟩, ?_, ?_⟩
  · exact List.getLast?_concat
  · rw [streak_concat]
    exact hd

/-- The delay of the last call is that of the failures before it. -/
theorem delay_of_lawful (h : Lawful options (l ++ [.failed, .reconnect d])) :
    d.toInt = delaySec options (streak l + 1) := by
  have := (h (l ++ [.failed]) (.reconnect d) [] (by simp)).2
  rwa [streak_concat] at this

end Law

/-! ### The delay -/

/-- All delays after a failure are the same. -/
def Flat (options : Options) : Prop :=
  options.reconnectMinSec.toInt = 0 ∨
    options.reconnectMaxSec.toInt ≤ 2 * options.reconnectMinSec.toInt

section Bounded

variable {options : Options} {j k : ℕ} (hmin : 0 ≤ options.reconnectMinSec.toInt)
  (hle : options.reconnectMinSec.toInt ≤ options.reconnectMaxSec.toInt)
  (hsmall : 2 * options.reconnectMaxSec.toInt < 2 ^ 31)

include hmin hle hsmall in
/-- `reconnect` doubles the delay. -/
theorem toInt_reconnect {delay : Int32} (h : delay.toInt = delaySec options k) :
    (min (delay * 2) options.reconnectMaxSec).toInt = delaySec options (k + 1) :=
  toInt_doubled hmin (hmin.trans hle) hsmall h

include hmin in
/-- The delay after a failure that is not the first is longer than that after the
    first, unless all are the same. -/
theorem delaySec_eq_first_iff (hk : 0 < k) :
    delaySec options (k + 1) = delaySec options 1 ↔ Flat options := by
  refine (doubled_eq_iff hmin (Nat.succ_lt_succ hk)).trans ?_
  rw [Flat, pow_one, mul_comm]

include hmin in
/-- With a flat delay, the number of failures does not matter. -/
theorem delaySec_eq_of_flat (h : Flat options) (j k : ℕ) :
    delaySec options (j + 1) = delaySec options (k + 1) := by
  rw [Flat, mul_comm, ← pow_one (2 : ℤ)] at h
  have hconst (n : ℕ) : delaySec options (n + 1) = delaySec options 1 :=
    doubled_eq_of_le hmin h (Nat.succ_pos n)
  rw [hconst j, hconst k]

/-! ### Whole runs -/

variable {source : NtripSource} {evpEncodeBlock : Bytes → Option Bytes}
  {s s' : NtripConnection × List Act} {e : Completion}

/-- An attempt fails, the first one after a response that was accepted after a
    failure. -/
def FailsAfresh (source : NtripSource) (evpEncodeBlock : Bytes → Option Bytes)
    (s : NtripConnection × List Act) (e : Completion) : Prop :=
  Fails source evpEncodeBlock s.1 e ∧ streak s.2 = 0 ∧ .failed ∈ s.2

/-- A completion that upsets the law: that of a read on a closed socket, or, unless
    all delays are the same, a failure that the delay should be set back for. -/
def Upsets (options : Options) (source : NtripSource) (evpEncodeBlock : Bytes → Option Bytes)
    (s : NtripConnection × List Act) (e : Completion) : Prop :=
  Stale s.1 e ∨ (¬Flat options ∧ FailsAfresh source evpEncodeBlock s e)

/-- The delay is the one of all failures since the start; those are the failures in
    a row, except after an accepted response. -/
structure Paced (options : Options) (s : NtripConnection × List Act) : Prop where
  delay : s.1.delay.toInt = delaySec options (s.2.count .failed)
  lawful : Lawful options s.2
  settled : s.2.getLast? ≠ some .failed
  row : streak s.2 = 0 ∨ streak s.2 = s.2.count .failed ∨ Flat options

include hmin hle hsmall in
/-- A step that does not upset the delay keeps it with the log. -/
theorem paced_step (h : Paced options s) (hu : ¬Upsets options source evpEncodeBlock s e)
    (hs : (observedAutomaton options source evpEncodeBlock).step s e = some s') :
    Paced options s' := by
  obtain ⟨c, l⟩ := s
  obtain ⟨c', l'⟩ := s'
  obtain ⟨hstep, rfl⟩ := Automaton.step_track.1 hs
  rw [Upsets, not_or, not_and] at hu
  obtain ⟨hdelay, hlawful, hsettled, hrow⟩ := h
  cases shape_of_step hstep with
  | quiet m hm hobs hdelay' =>
    rw [hobs]
    rcases hm with rfl | rfl
    · -- Nothing is logged, and the delay stays.
      rw [List.append_nil]
      exact ⟨hdelay'.symm ▸ hdelay, hlawful, hsettled, hrow⟩
    · refine ⟨?_, lawful_append hlawful (each_singleton.2 trivial), ?_, .inl (streak_concat l _)⟩
      · simpa [hdelay'] using hdelay
      · simp
  | fails hobs hdelay' hstale hfails =>
    rw [hobs]
    -- One more failure, which doubles the delay once.
    have hd : c'.delay.toInt = delaySec options (l.count .failed + 1) := by
      rw [hdelay']
      exact toInt_reconnect hmin hle hsmall hdelay
    -- The failures are all in a row, or their number does not matter.
    have hrow' : streak l = l.count .failed ∨ Flat options := by
      rcases hrow with hzero | hrow
      · refine (em (Flat options)).symm.imp_left fun hflat => ?_
        have hnone : Act.failed ∉ l := fun hmem => hu.2 hflat ⟨hfails, hzero, hmem⟩
        rw [List.count_eq_zero.2 hnone]
        exact hzero
      · exact hrow
    refine ⟨by rw [count_fails]; exact hd, lawful_fails hlawful ?_, by simp, .inr ?_⟩
    · rw [hd]
      rcases hrow' with heq | hflat
      · rw [heq]
      · exact delaySec_eq_of_flat hmin hflat _ _
    · rw [streak_fails, count_fails, Nat.add_right_cancel_iff]
      exact hrow'
  | stale hobs hstale => exact absurd hstale hu.1

include hmin hle hsmall in
/-- A stale read makes a call that answers no failure; and after a failure that
    the delay should have been set back for, the wait is too long. -/
theorem not_lawful_of_upsets (h : Paced options s) (hu : Upsets options source evpEncodeBlock s e)
    (hs : (observedAutomaton options source evpEncodeBlock).step s e = some s') :
    ¬Lawful options s'.2 := by
  obtain ⟨c, l⟩ := s
  obtain ⟨c', l'⟩ := s'
  obtain ⟨hstep, rfl⟩ := Automaton.step_track.1 hs
  intro hlaw
  cases shape_of_step hstep with
  | quiet m hm hobs hdelay' hstale hfails =>
    rcases hu with hu | ⟨-, hu, -⟩
    · exact hstale hu
    · exact hfails hu
  | fails hobs hdelay' hstale hfails =>
    rcases hu with hu | ⟨hflat, -, hzero, hmem⟩
    · exact hstale hu
    · -- The first failure after a success waits as if all had been in a row.
      change Lawful options (l ++ observed source evpEncodeBlock c e c') at hlaw
      change streak l = 0 at hzero
      have hd : c'.delay.toInt = delaySec options (l.count .failed + 1) := by
        rw [hdelay']
        exact toInt_reconnect hmin hle hsmall h.delay
      rw [hobs] at hlaw
      have := delay_of_lawful hlaw
      rw [hd, hzero] at this
      exact hflat ((delaySec_eq_first_iff hmin (List.count_pos_iff.2 hmem)).1 this)
  | stale hobs hstale =>
    change Lawful options (l ++ observed source evpEncodeBlock c e c') at hlaw
    rw [hobs] at hlaw
    exact h.settled (hlaw l _ [] rfl).1

include hmin hle hsmall in
/-- **The waits follow the failures in a row as long as no response is rejected,
    and no stream is lost that came after a failure.** In every state of a run each
    failed attempt has been answered by one call of `reconnect`, which waits as
    long as the failures since the start or the last accepted response demand, if
    and only if no read on a closed socket completes and, unless all delays are
    the same, no attempt fails as the first one after a response that was
    accepted after a failure. -/
theorem lawful_iff (source : NtripSource) (evpEncodeBlock : Bytes → Option Bytes)
    (es : List Completion) (s : NtripConnection × List Act) :
    ((observedAutomaton options source evpEncodeBlock).Run (fun s _ => Lawful options s.2) es s ∧
      Lawful options s.2) ↔
    (observedAutomaton options source evpEncodeBlock).Run
      (fun s e => ¬Upsets options source evpEncodeBlock s e) es s := by
  refine Automaton.run_iff (P := fun s => Lawful options s.2) (J := Paced options) ?_
    (fun _ h => h.lawful) (fun _ _ _ h hu hs => paced_step hmin hle hsmall h hu hs)
    (fun _ _ _ h hu hs => not_lawful_of_upsets hmin hle hsmall h (not_not.1 hu) hs)
  refine ⟨?_, each_nil, by simp [observedAutomaton, Automaton.track], .inl rfl⟩
  exact (doubled_zero hle).symm

end Bounded

/-- A resolution fails, the next attempt is accepted and its stream breaks off. -/
def lostRun : List Completion :=
  [⟨0, .failed, []⟩, ⟨0, .ok, []⟩, ⟨0, .ok, []⟩, ⟨0, .ok, []⟩, ⟨0, .ok, []⟩,
    ⟨0, .ok, ascii "ICY 200 OK\r\n\r\n"⟩, ⟨0, .failed, []⟩]

/-- A response is rejected, and the read on the closed socket fails. -/
def rejectedRun : List Completion :=
  [⟨0, .ok, []⟩, ⟨0, .ok, []⟩, ⟨0, .ok, []⟩, ⟨0, .ok, ascii "HTTP/1.1 401 Unauthorized\r\n\r\n"⟩,
    ⟨1, .failed, []⟩]

theorem lawful_iff_lostRun : ∃ s,
    (observedAutomaton {} {} fun _ => some (ascii "Og==")).exec lostRun = some s ∧
    (((observedAutomaton {} {} fun _ => some (ascii "Og==")).Run (fun s _ => Lawful {} s.2)
        lostRun s ∧ Lawful {} s.2) ↔
      (observedAutomaton {} {} fun _ => some (ascii "Og==")).Run
        (fun s e => ¬Upsets {} {} (fun _ => some (ascii "Og==")) s e) lostRun s) :=
  ⟨_, rfl, lawful_iff (by decide) (by decide) (by decide) _ _ _ _⟩

/-- The first failure after the accepted response waits for 8 seconds and not for
    4; and a rejected response makes two calls of `reconnect`. -/
theorem waits_unlawful :
    (∃ s, (observedAutomaton {} {} fun _ => some (ascii "Og==")).exec lostRun = some s ∧
      s.2 = [.failed, .reconnect 4, .accepted, .failed, .reconnect 8] ∧ ¬Lawful {} s.2) ∧
    ∃ s, (observedAutomaton {} {} fun _ => some (ascii "Og==")).exec rejectedRun = some s ∧
      s.2 = [.failed, .reconnect 4, .reconnect 8] ∧ ¬Lawful {} s.2 := by
  refine ⟨⟨_, rfl, rfl, fun h => ?_⟩, ⟨_, rfl, rfl, fun h => ?_⟩⟩
  · have := (h [.failed, .reconnect 4, .accepted, .failed] (.reconnect 8) [] rfl).2
    exact absurd this (by decide)
  · have := (h [.failed, .reconnect 4] (.reconnect 8) [] rfl).1
    exact absurd this (by decide)

end RtcmBridge.NtripConnection

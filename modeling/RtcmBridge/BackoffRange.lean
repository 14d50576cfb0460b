import RtcmBridge.AcceptedOptions
import RtcmBridge.Nats2Ntrip.Backoff
import RtcmBridge.NtripConnection.Backoff

/-!
# The range of the delays

Both programs double a delay after each failure, up to the greatest one, and
compute with an `int`. The greatest delay is reached in the end, so what the
computations need in between is what they need there: `backoff_fits_iff` says
how large it may be.
-/

namespace RtcmBridge

/-! ### `ntripConnection` -/

namespace NtripConnection

open Asio

section Reconnects

variable (options : Options) (source : NtripSource) (evpEncodeBlock : Bytes → Option Bytes)

/-- Whenever `reconnect` is called, the doubled delay is an `int`, and the delay
    that is waited for is between the least and the greatest one. -/
def ReconnectsFit : Prop :=
  ∀ c e c', (automaton options source evpEncodeBlock).Reachable c →
    (automaton options source evpEncodeBlock).step c e = some c' →
    .reconnect c'.delay ∈ observed source evpEncodeBlock c e c' →
    IsInt (c.delay.toInt * 2) ∧
      options.reconnectMinSec ≤ c'.delay ∧ c'.delay ≤ options.reconnectMaxSec

variable {options source evpEncodeBlock} {c c' : NtripConnection} {e : Completion}

theorem delay_handleStreamBytes (options : Options) (c : NtripConnection) (data : Bytes) :
    (c.handleStreamBytes options data).delay = c.delay ∨
      (c.handleStreamBytes options data).delay = min (c.delay * 2) options.reconnectMaxSec := by
  rw [handleStreamBytes]
  split_ifs
  · exact .inl rfl
  · exact .inl rfl
  · dsimp only
    split
    · exact .inl rfl
    · split_ifs
      · exact .inr rfl
      · exact .inl rfl
      · exact .inl rfl

/-- A handler keeps the delay, or doubles it within the bound. -/
theorem delay_handler (c : NtripConnection) (kind : Kind) (ec : Ec) (data : Bytes) :
    (c.handler options source evpEncodeBlock kind ec data).delay = c.delay ∨
      (c.handler options source evpEncodeBlock kind ec data).delay =
        min (c.delay * 2) options.reconnectMaxSec := by
  rw [handler.eq_def]
  split_ifs
  · exact .inl rfl
  · cases kind with
    | resolve | write | wait => exact .inl rfl
    | connect =>
      dsimp only
      rw [sendRequest]
      split_ifs
      · exact .inr rfl
      · exact .inl rfl
    | read => exact delay_handleStreamBytes options (c.receive data) data
  · cases kind with
    | wait => exact .inl rfl
    | _ => exact .inr rfl

/-- A step leaves the delay as it is, or doubles it. -/
theorem delay_step (h : (automaton options source evpEncodeBlock).step c e = some c') :
    c'.delay = c.delay ∨ c'.delay = min (c.delay * 2) options.reconnectMaxSec := by
  obtain ⟨⟨op, io⟩, -, rfl⟩ := Option.map_eq_some_iff.1 h
  exact delay_handler { c with io } op.kind e.ec e.data

variable (hmin : 0 < options.reconnectMinSec.toInt)
  (hle : options.reconnectMinSec.toInt ≤ options.reconnectMaxSec.toInt)

include hmin hle in
/-- The delay stays between the two options, unless twice the bound overflows. -/
theorem delay_bounds (hsmall : options.reconnectMaxSec.toInt < 2 ^ 30)
    (h : (automaton options source evpEncodeBlock).Reachable c) :
    options.reconnectMinSec.toInt ≤ c.delay.toInt ∧
      c.delay.toInt ≤ options.reconnectMaxSec.toInt := by
  refine h.invariant (P := fun c => options.reconnectMinSec.toInt ≤ c.delay.toInt ∧
    c.delay.toInt ≤ options.reconnectMaxSec.toInt) ⟨le_rfl, hle⟩ fun c e c' hc hstep => ?_
  rcases delay_step hstep with heq | heq
  · rwa [heq]
  · rw [heq]
    exact toInt_double_bounds hmin.le hsmall hc

/-- After any number of failures in a row, the connection is about to resolve, if
    nothing has been out of range so far. -/
theorem exists_resolving (hmax : 0 ≤ options.reconnectMaxSec.toInt)
    (hle : options.reconnectMinSec.toInt ≤ options.reconnectMaxSec.toInt)
    (hfit : ReconnectsFit options source evpEncodeBlock) (k : ℕ) :
    ∃ c, (automaton options source evpEncodeBlock).Reachable c ∧
      c.io.pending = [{ kind := .resolve }] ∧
      c.delay.toInt = doubled options.reconnectMinSec.toInt options.reconnectMaxSec.toInt k ∧
      IsInt (c.delay.toInt * 2) := by
  -- A connection that is resolving fails, waits, and resolves again.
  have hfails {c : NtripConnection} (hpending : c.io.pending = [{ kind := .resolve }]) :
      (automaton options source evpEncodeBlock).step c ⟨0, .failed, []⟩ =
        some (reconnect options { c with io := { c.io with pending := [] } }) := by
    simp [automaton, Io.complete, hpending, Op.admits, handler]
  have hint {c : NtripConnection} (hpending : c.io.pending = [{ kind := .resolve }])
      (hc : (automaton options source evpEncodeBlock).Reachable c) : IsInt (c.delay.toInt * 2) := by
    refine (hfit c _ _ hc (hfails hpending) (List.mem_append_right _ ?_)).1
    simp [Io.started, hpending, reconnect, Io.newTimerAsyncWait, Io.timerCancel, Io.socketClose,
      Io.socketCancel, Io.resolverCancel, Io.cancel, Io.start]
  induction k with
  | zero =>
    have hinit : (automaton options source evpEncodeBlock).Reachable
        (automaton options source evpEncodeBlock).init := ⟨[], .init⟩
    exact ⟨_, hinit, rfl, (doubled_zero hle).symm, hint rfl hinit⟩
  | succ k ih =>
    obtain ⟨c, hc, hpending, hdelay, htwice⟩ := ih
    have hc₁ := hc.next (hfails hpending)
    have hexpires : (automaton options source evpEncodeBlock).step
        (reconnect options { c with io := { c.io with pending := [] } }) ⟨0, .ok, []⟩ = some _ :=
      rfl
    have hc₂ := hc₁.next hexpires
    exact ⟨_, hc₂, rfl, toInt_doubled_of_isInt hmax htwice hdelay, hint rfl hc₂⟩

include hmin hle in
/-- The calls of `reconnect` stay in range if and only if the greatest delay can be doubled. -/
theorem reconnectsFit_iff :
    ReconnectsFit options source evpEncodeBlock ↔ options.reconnectMaxSec.toInt < 2 ^ 30 := by
  constructor
  · intro hfit
    obtain ⟨c, -, -, hdelay, hint⟩ := exists_resolving (hmin.le.trans hle) hle hfit 31
    rw [doubled_eq_bound hmin (Int32.toInt_lt _)] at hdelay
    have := hint.2
    omega
  · rintro hsmall c e c' hc hstep -
    have hb := delay_bounds hmin hle hsmall hc
    have hb' := delay_bounds hmin hle hsmall (hc.next hstep)
    exact ⟨⟨by omega, by omega⟩, Int32.le_iff_toInt_le.2 hb'.1, Int32.le_iff_toInt_le.2 hb'.2⟩

end Reconnects

end NtripConnection

/-! ### The sessions of `nats2ntrip` -/

namespace Nats2Ntrip.StreamSession

variable {options : Options} {hash : UInt64} {s s' : StreamSession}

/-- Whenever a wait is chosen, its milliseconds are an `int` and the delay is
    between the least and the greatest one; and when it is over, the doubled delay
    is an `int`. -/
def WaitsFit (options : Options) (hash : UInt64) : Prop :=
  ∀ s, (automaton options hash).Reachable s →
    (s.pc = .backoff → IsInt (s.reconnectDelay.toInt * 1000) ∧
      IsInt (s.reconnectDelay.toInt * 1000 + s.reconnectJitterMs.toInt) ∧
      options.reconnectMinSec ≤ s.reconnectDelay ∧ s.reconnectDelay ≤ options.reconnectMaxSec) ∧
    (s.pc = .sleeping → IsInt (s.reconnectDelay.toInt * 2))

/-- The delay is kept, set back or doubled, and the jitter is kept. -/
theorem delay_move (hm : Move options s s') : s'.reconnectJitterMs = s.reconnectJitterMs ∧
    (s'.reconnectDelay = s.reconnectDelay ∨ s'.reconnectDelay = options.reconnectMinSec ∨
      s'.reconnectDelay = min (s.reconnectDelay * 2) options.reconnectMaxSec) := by
  cases hm with
  | arrive data hlen =>
    obtain ⟨k, qb, db, u, t, l, heq⟩ := enqueue_eq options s data
    rw [heq]
    exact ⟨rfl, .inl rfl⟩
  | clear hpc =>
    obtain ⟨qb, db, heq⟩ := clearQueueLocked_eq s
    rw [heq]
    exact ⟨rfl, .inl rfl⟩
  | reset hpc => exact ⟨rfl, .inr (.inl rfl)⟩
  | wake hpc => exact ⟨rfl, .inr (.inr rfl)⟩
  | _ => exact ⟨rfl, .inl rfl⟩

theorem jitter_of_reachable (h : (automaton options hash).Reachable s) :
    s.reconnectJitterMs.toInt = (hash % 1000).toNat := by
  exact invariant h (P := fun s => s.reconnectJitterMs.toInt = (hash % 1000).toNat)
    (toInt_jitter hash) fun s s' hs hm => by rwa [(delay_move hm).1]

section Bounded

variable (hmin : 0 < options.reconnectMinSec.toInt)
  (hle : options.reconnectMinSec.toInt ≤ options.reconnectMaxSec.toInt)

include hmin hle in
/-- The delay of a session stays between the two options, unless twice the bound overflows. -/
theorem delay_bounds (hsmall : options.reconnectMaxSec.toInt < 2 ^ 30)
    (h : (automaton options hash).Reachable s) :
    options.reconnectMinSec.toInt ≤ s.reconnectDelay.toInt ∧
      s.reconnectDelay.toInt ≤ options.reconnectMaxSec.toInt := by
  refine invariant h (P := fun s => options.reconnectMinSec.toInt ≤ s.reconnectDelay.toInt ∧
    s.reconnectDelay.toInt ≤ options.reconnectMaxSec.toInt) ⟨le_rfl, hle⟩ fun s s' hs hm => ?_
  rcases (delay_move hm).2 with heq | heq | heq
  · rwa [heq]
  · rw [heq]
    exact ⟨le_rfl, hle⟩
  · rw [heq]
    exact toInt_double_bounds hmin.le hsmall hs

/-- The next connection fails. -/
theorem exists_backoff_of_run (hs : (automaton options hash).Reachable s) (hpc : s.pc = .run)
    (hstop : s.stopping = false) : ∃ s', (automaton options hash).Reachable s' ∧
      s'.pc = .backoff ∧ s'.stopping = false ∧ s'.reconnectDelay = s.reconnectDelay := by
  obtain ⟨qb, db, hclear⟩ :=
    clearQueueLocked_eq ({ s with pc := .clearing, log := s.log ++ [.sourceFailed] })
  have hconnect : (automaton options hash).step s (.worker true) =
      some { s with pc := .source } := by
    simp [automaton, step, workerStep, hpc, hstop]
  have hfails : (automaton options hash).step { s with pc := .source } (.worker false) =
      some { s with pc := .caught, log := s.log ++ [.sourceFailed] } := rfl
  have hrecover : (automaton options hash).step
      { s with pc := .caught, log := s.log ++ [.sourceFailed] } (.worker true) =
        some { s with pc := .clearing, log := s.log ++ [.sourceFailed] } := by
    have hstop' :
        stopping { s with pc := .caught, log := s.log ++ [.sourceFailed] } = false := hstop
    simp [automaton, step, workerStep, hstop']
  have hcleared : (automaton options hash).step
      { s with pc := .clearing, log := s.log ++ [.sourceFailed] } (.worker true) = some _ := rfl
  have hreach := (((hs.next hconnect).next hfails).next hrecover).next hcleared
  refine ⟨_, hreach, rfl, ?_, ?_⟩
  · rw [record, hclear]
    exact hstop
  · rw [record, hclear]

/-- After any number of failures in a row, a wait is about to be chosen, if
    nothing has been out of range so far. -/
theorem exists_backoff (hmax : 0 ≤ options.reconnectMaxSec.toInt)
    (hle : options.reconnectMinSec.toInt ≤ options.reconnectMaxSec.toInt)
    (hfit : WaitsFit options hash) (k : ℕ) :
    ∃ s, (automaton options hash).Reachable s ∧ s.pc = .backoff ∧ s.stopping = false ∧
      s.reconnectDelay.toInt =
        doubled options.reconnectMinSec.toInt options.reconnectMaxSec.toInt k := by
  induction k with
  | zero =>
    have hinit : (automaton options hash).Reachable (automaton options hash).init := ⟨[], .init⟩
    obtain ⟨s, hs, hpc, hstop, hdelay⟩ := exists_backoff_of_run hinit rfl rfl
    exact ⟨s, hs, hpc, hstop, by rw [hdelay, doubled_zero hle]; rfl⟩
  | succ k ih =>
    obtain ⟨s, hs, hpc, hstop, hdelay⟩ := ih
    have hwait : (automaton options hash).step s (.worker true) =
        some ({ s with pc := .sleeping }.record
          (.wait (s.reconnectDelay * 1000 + s.reconnectJitterMs))) := by
      simp [automaton, step, workerStep, hpc]
    have hs₁ := hs.next hwait
    have hint : IsInt (s.reconnectDelay.toInt * 2) := (hfit _ hs₁).2 rfl
    have hwake : (automaton options hash).step ({ s with pc := .sleeping }.record
        (.wait (s.reconnectDelay * 1000 + s.reconnectJitterMs))) (.worker true) = some _ := rfl
    obtain ⟨s', hs', hpc', hstop', hdelay'⟩ := exists_backoff_of_run (hs₁.next hwake) rfl hstop
    exact ⟨s', hs', hpc', hstop', by rw [hdelay']; exact toInt_doubled_of_isInt hmax hint hdelay⟩

include hmin hle in
/-- The waits stay in range if and only if that of the greatest delay does. -/
theorem waitsFit_iff : WaitsFit options hash ↔
    options.reconnectMaxSec.toInt * 1000 + (hash % 1000).toNat < 2 ^ 31 := by
  constructor
  · intro hfit
    obtain ⟨s, hs, hpc, -, hdelay⟩ := exists_backoff (hmin.le.trans hle) hle hfit 31
    rw [doubled_eq_bound hmin (Int32.toInt_lt _)] at hdelay
    have hint := ((hfit s hs).1 hpc).2.1.2
    rwa [hdelay, jitter_of_reachable hs] at hint
  · intro hsmall s hs
    have hb := delay_bounds hmin hle (by omega) hs
    have hjitter := jitter_of_reachable hs
    refine ⟨fun _ => ⟨⟨by omega, by omega⟩, ⟨by omega, by omega⟩, ?_⟩,
      fun _ => ⟨by omega, by omega⟩⟩
    exact ⟨Int32.le_iff_toInt_le.2 hb.1, Int32.le_iff_toInt_le.2 hb.2⟩

end Bounded

end Nats2Ntrip.StreamSession

/-! ### Files that are accepted -/

open ConfigurationFile

/-- One of the programs accepts a file with these options. -/
def Accepted (options : Options) : Prop :=
  ∃ path text,
    (∃ configuration, Ntrip2Nats.parseConfiguration path (some text) {} = (none, configuration) ∧
      configuration.options = options) ∨
    ∃ configuration, Nats2Ntrip.parseConfiguration path (some text) {} = (none, configuration) ∧
      configuration.options = options

variable {options : Options}

theorem Accepted.bounds (h : Accepted options) : 0 < options.reconnectMinSec.toInt ∧
    options.reconnectMinSec.toInt ≤ options.reconnectMaxSec.toInt := by
  obtain ⟨path, text, ⟨configuration, h, rfl⟩ | ⟨configuration, h, rfl⟩⟩ := h
  · refine ⟨?_, Int32.le_iff_toInt_le.1 (Ntrip2Nats.checkConfiguration_eq_none_iff.1
      (parseLines_of_accepted h).2).1⟩
    rw [Ntrip2Nats.options_of_accepted h]
    exact lastGiven_pos (by decide) ..
  · refine ⟨?_, Int32.le_iff_toInt_le.1 (Nats2Ntrip.checkConfiguration_eq_none_iff.1
      (parseLines_of_accepted h).2).1⟩
    rw [Nats2Ntrip.options_of_accepted h]
    exact lastGiven_pos (by decide) ..

/-- **The delays stay in range as long as the greatest one is small enough.** Of
    options that one of the programs accepts: all calls of `reconnect` in all runs
    of an `ntripConnection` stay in range if and only if the greatest delay is less
    than 2 ^ 30; all waits in all runs of a session do if and only if 1000 times
    the greatest delay and the jitter are less than 2 ^ 31; and all of this holds,
    whatever the jitter, if and only if the greatest delay is at most 2147482. -/
theorem backoff_fits_iff (h : Accepted options) :
    (∀ source evpEncodeBlock, NtripConnection.ReconnectsFit options source evpEncodeBlock ↔
      options.reconnectMaxSec.toInt < 2 ^ 30) ∧
    (∀ hash, Nats2Ntrip.StreamSession.WaitsFit options hash ↔
      options.reconnectMaxSec.toInt * 1000 + (hash % 1000).toNat < 2 ^ 31) ∧
    (((∀ source evpEncodeBlock, NtripConnection.ReconnectsFit options source evpEncodeBlock) ∧
      ∀ hash, Nats2Ntrip.StreamSession.WaitsFit options hash) ↔
        options.reconnectMaxSec.toInt ≤ 2147482) := by
  obtain ⟨hmin, hle⟩ := h.bounds
  simp only [NtripConnection.reconnectsFit_iff hmin hle,
    Nats2Ntrip.StreamSession.waitsFit_iff hmin hle, implies_true, true_and]
  constructor
  · intro hfits
    have hjitter := hfits.2 999
    change _ * 1000 + ((999 : ℕ) : ℤ) < _ at hjitter
    omega
  · intro hsmall
    refine ⟨fun _ _ => by omega, fun hash => ?_⟩
    have := Nats2Ntrip.StreamSession.jitter_lt hash
    omega

/-- A file of `nats2ntrip` that sets both delays to `sec`. -/
def delayFile (sec : Bytes) : Bytes :=
  ascii "reconnect_min_sec=" ++ sec ++ 10 ::
    (ascii "reconnect_max_sec=" ++ sec ++ 10 :: Nats2Ntrip.fileOf (ascii "M"))

theorem backoff_fits_iff_delayFile : ∃ options, Accepted options ∧
    options.reconnectMaxSec = 60 ∧ (∀ source evpEncodeBlock,
      NtripConnection.ReconnectsFit options source evpEncodeBlock) ∧
    ∀ hash, Nats2Ntrip.StreamSession.WaitsFit options hash := by
  have h : Accepted { reconnectMinSec := 60, reconnectMaxSec := 60 } :=
    ⟨[], delayFile (ascii "60"), .inr ⟨_, rfl, rfl⟩⟩
  exact ⟨_, h, rfl, (backoff_fits_iff h).2.2.2 (by decide)⟩

/-- Delays of 2147484 seconds, the first that are too long in milliseconds. -/
def longDelays : Options := { reconnectMinSec := 2147484, reconnectMaxSec := 2147484 }

/-- With delays of 2147484 seconds, the milliseconds of the first wait are not an
    `int`. -/
theorem longDelays_overflow :
    Nats2Ntrip.parseConfiguration [] (some (delayFile (ascii "2147484"))) {} =
      (none, { Nats2Ntrip.configurationOf (ascii "M") with options := longDelays }) ∧
    ∃ s, (Nats2Ntrip.StreamSession.automaton longDelays 0).exec
        [.worker true, .worker false, .worker true, .worker true] = some s ∧
      s.pc = .backoff ∧ ¬IsInt (s.reconnectDelay.toInt * 1000) ∧
      ¬Nats2Ntrip.StreamSession.WaitsFit longDelays 0 := by
  have hexec : (Nats2Ntrip.StreamSession.automaton longDelays 0).exec
      [.worker true, .worker false, .worker true, .worker true] = some _ := rfl
  have hbig : ¬IsInt (longDelays.reconnectMinSec.toInt * 1000) := fun h => absurd h.2 (by decide)
  exact ⟨rfl, _, hexec, rfl, hbig,
    fun hfit => hbig ((hfit _ (Automaton.reachable_of_exec hexec)).1 rfl).1⟩

end RtcmBridge

import RtcmBridge.MachineInt
import RtcmBridge.Nats2Ntrip.Order

/-!
# The waits between connections

`run` sets the delay back after `connect_and_stream` returns, which it only does
when the session stops; a stream that breaks off makes it throw. So the delay
doubles with each failure of the session, whether or not there was a connection
in between: the wait is the one of the failures since the start, and not of
those since the last connection (`Paced.waits`). The two are the same until
a connection is followed by a failure that is not the first one
(`waits_restart_iff`).
-/

namespace RtcmBridge.Nats2Ntrip

open Trace

/-- The failures since the start or the last connection, after the entry `a`. -/
def Act.streak (k : ℕ) (a : Act) : ℕ :=
  match a with
  | .connected => 0
  | a => if a.isFailure then k + 1 else k

/-- The failures since the start or the last connection. -/
def streak (l : List Act) : ℕ := l.foldl Act.streak 0

/-- All failures since the start. -/
def failures (l : List Act) : ℕ := l.countP Act.isFailure

/-- There was a connection after a failure. -/
def Restarted (l : List Act) : Prop :=
  ∃ l₁ a l₂ l₃, a.isFailure = true ∧ l = l₁ ++ a :: l₂ ++ .connected :: l₃

/-- There was a wait after a connection that came after a failure. -/
def RestartedWait (l : List Act) : Prop :=
  ∃ l₁ ms l₂, l = l₁ ++ .wait ms :: l₂ ∧ Restarted l₁

/-! ### Counting failures -/

/-- The last entry of a log decides on the streak. -/
theorem streak_concat (l : List Act) (a : Act) : streak (l ++ [a]) = a.streak (streak l) := by
  rw [streak, List.foldl_append]
  rfl

/-- A failure at the end counts one more. -/
theorem failures_concat (l : List Act) (a : Act) :
    failures (l ++ [a]) = failures l + if a.isFailure then 1 else 0 := by
  rw [failures, List.countP_append, List.countP_singleton]
  rfl

theorem streak_of_failure {a : Act} (h : a.isFailure = true) (k : ℕ) : a.streak k = k + 1 := by
  cases a <;> first | rfl | exact absurd h Bool.false_ne_true

/-- A success counts as a restart if there has been a failure before it. -/
theorem restarted_concat {l : List Act} {a : Act} :
    Restarted (l ++ [a]) ↔ Restarted l ∨ (a = .connected ∧ 0 < failures l) := by
  constructor
  · rintro ⟨l₁, b, l₂, l₃, hb, h⟩
    rcases concat_eq_append_cons_iff.1 h with ⟨rfl, rfl, rfl⟩ | ⟨m, rfl, rfl⟩
    · refine .inr ⟨rfl, List.countP_pos_iff.2 ⟨b, by simp, hb⟩⟩
    · exact .inl ⟨l₁, b, l₂, m, hb, rfl⟩
  · rintro (⟨l₁, b, l₂, l₃, hb, rfl⟩ | ⟨rfl, h⟩)
    · exact ⟨l₁, b, l₂, l₃ ++ [a], hb, by simp⟩
    · obtain ⟨b, hmem, hb⟩ := List.countP_pos_iff.1 h
      obtain ⟨l₁, l₂, rfl⟩ := List.append_of_mem hmem
      exact ⟨l₁, b, l₂, [], hb, rfl⟩

/-- The failures since the last connection are all there are, unless there was
    one before it. -/
theorem streak_spec (l : List Act) :
    streak l ≤ failures l ∧ (streak l < failures l ↔ Restarted l) := by
  induction l using List.reverseRecOn with
  | nil => exact ⟨le_rfl, by simp [streak, failures, Restarted]⟩
  | append_singleton l a ih =>
    rw [streak_concat, failures_concat, restarted_concat, ← ih.2]
    by_cases hc : a = .connected
    · subst hc
      simp only [Act.streak, Act.isFailure]
      refine ⟨Nat.zero_le _, ?_⟩
      simp only [true_and]
      constructor
      · intro h
        exact .inr (by simpa using h)
      · rintro (h | h)
        · simpa using (Nat.zero_le _).trans_lt h
        · simpa using h
    · have hstep : a.streak (streak l) = streak l + if a.isFailure then 1 else 0 := by
        cases a <;> first | rfl | exact absurd rfl hc
      rw [hstep]
      refine ⟨Nat.add_le_add_right ih.1 _, ?_⟩
      simp [hc]

/-- The entries that neither the failures nor the waits depend on. -/
def Act.isNeutral : Act → Bool
  | .enqueued _ | .trimmed _ | .discarded _ | .cleared | .wrote _ => true
  | _ => false

section Neutral

variable {acts : List Act} (h : ∀ a ∈ acts, a.isNeutral = true) (l : List Act)

include h

/-- Entries that are no failures do not change their number. -/
theorem failures_append : failures (l ++ acts) = failures l := by
  have hzero : acts.countP Act.isFailure = 0 := by
    refine List.countP_eq_zero.2 fun a ha => ?_
    have := h a ha
    cases a <;> first | exact Bool.false_ne_true | exact absurd this Bool.false_ne_true
  rw [failures, List.countP_append, hzero, Nat.add_zero]
  rfl

/-- Nor do neutral entries change the streak. -/
theorem streak_append : streak (l ++ acts) = streak l := by
  induction acts using List.reverseRecOn with
  | nil => rw [List.append_nil]
  | append_singleton acts a ih =>
    have ha := h a (by simp)
    rw [← List.append_assoc, streak_concat, ih fun b hb => h b (by simp [hb])]
    cases a <;> first | rfl | exact absurd ha Bool.false_ne_true

theorem not_wait_of_neutral : ∀ a ∈ acts, ∀ ms, a ≠ .wait ms := by
  rintro a ha ms rfl
  exact absurd (h _ ha) Bool.false_ne_true

end Neutral

/-- A wait after a connection that came after a failure, the first one after it. -/
def RestartedFirst (l : List Act) : Prop :=
  ∃ l₁ ms l₂, l = l₁ ++ .wait ms :: l₂ ∧ streak l₁ = 1 ∧ 1 < failures l₁

/-- What is found at the beginning of a log stays there. -/
theorem RestartedFirst.append {l : List Act} (h : RestartedFirst l) (m : List Act) :
    RestartedFirst (l ++ m) := by
  obtain ⟨l₁, ms, l₂, rfl, hk⟩ := h
  exact ⟨l₁, ms, l₂ ++ m, by simp, hk⟩

/-- Only a wait makes a wait. -/
theorem restartedWait_append {l acts : List Act} (h : ∀ a ∈ acts, ∀ ms, a ≠ .wait ms) :
    RestartedWait (l ++ acts) → RestartedWait l := by
  rintro ⟨l₁, ms, l₂, heq, hr⟩
  have hnone : Each (fun _ x _ => ∀ ms, x = .wait ms → False) acts := by
    rintro l₁ x l₂ rfl ms hx
    exact h x (by simp) ms hx
  have hall : Each (fun l₁ x _ => ∀ ms, x = .wait ms → Restarted l₁ → RestartedWait l)
      (l ++ acts) := by
    refine each_append.2 ⟨?_, hnone.imp fun _ x _ hx ms hms => (hx ms hms).elim⟩
    rintro l₁ x l₂ hl ms rfl hr
    exact ⟨l₁, ms, l₂, hl, hr⟩
  exact hall l₁ _ l₂ heq ms rfl hr

/-- The failures in a row from which on one of them has had its wait. -/
def Pc.due : Pc → ℕ
  | .caught | .clearing | .backoff => 2
  | _ => 1

namespace StreamSession

variable {options : Options} {hash : UInt64} {s s' : StreamSession} {k : ℕ}

/-! ### The delay -/

/-- The delay after `k` failures in a row, in seconds. -/
def delaySec (options : Options) (k : ℕ) : ℤ :=
  min options.reconnectMaxSec.toInt (options.reconnectMinSec.toInt * 2 ^ (k - 1))

/-- The wait after `k` failures in a row, in milliseconds. -/
def waitMs (options : Options) (hash : UInt64) (k : ℕ) : ℤ :=
  delaySec options k * 1000 + (hash % 1000).toNat

theorem jitter_lt (hash : UInt64) : (hash % 1000).toNat < 1000 := by
  rw [UInt64.toNat_mod]
  exact Nat.mod_lt _ (by decide)

/-- The jitter is below a second, so it is the same number as an `int`. -/
theorem toInt_jitter (hash : UInt64) :
    (Int32.ofNat (hash % 1000).toNat).toInt = (hash % 1000).toNat := by
  have := jitter_lt hash
  exact Int32.toInt_ofNat_of_lt (by omega)

/-- What the delay is where the worker is, after so many failures in all and in
    a row. -/
def delayedAt (options : Options) (stopping : Bool) (delay : Int32) (all row : ℕ) : Pc → Prop
  | .exited => True
  | .returned => stopping = true
  | .run => stopping = true ∨ delay.toInt = delaySec options (all + 1)
  | .caught | .clearing | .backoff | .sleeping => delay.toInt = delaySec options all ∧ 1 ≤ row
  | .source | .stream | .waiting | .writing _ => delay.toInt = delaySec options (all + 1)

/-- The condition on the delay is weaker for a session that is to stop. -/
theorem delayedAt_mono {stopping stopping' : Bool} (h : stopping = true → stopping' = true)
    {delay : Int32} {all row : ℕ} {pc : Pc} (hd : delayedAt options stopping delay all row pc) :
    delayedAt options stopping' delay all row pc := by
  cases pc with
  | run => exact hd.imp_left h
  | returned => exact h hd
  | _ => exact hd

/-- The delay of a session is that of its failures. -/
def Delayed (options : Options) (s : StreamSession) : Prop :=
  delayedAt options s.stopping s.reconnectDelay (failures s.log) (streak s.log) s.pc

/-- The delays and the waits follow the failures since the start; and after a
    connection that came after a failure, the first failure has its wait first. -/
structure Paced (options : Options) (hash : UInt64) (s : StreamSession) : Prop where
  jitter : s.reconnectJitterMs.toInt = (hash % 1000).toNat
  delay : Delayed options s
  waits : Each (fun l₁ x _ => ∀ ms, x = .wait ms →
    1 ≤ streak l₁ ∧ ms.toInt = waitMs options hash (failures l₁)) s.log
  due : s.pc ≠ .exited → s.pc.due ≤ streak s.log → streak s.log < failures s.log →
    RestartedFirst s.log
  first : RestartedWait s.log → RestartedFirst s.log

/-- Neutral entries are made, and the worker goes on as the delay allows. -/
theorem Paced.extend (h : Paced options hash s) (acts : List Act) (hlog : s'.log = s.log ++ acts)
    (hacts : ∀ a ∈ acts, a.isNeutral = true)
    (hjitter : s'.reconnectJitterMs = s.reconnectJitterMs)
    (hpc : s'.pc ≠ .exited → s.pc ≠ .exited ∧ s.pc.due ≤ s'.pc.due)
    (hdelay : failures s'.log = failures s.log → streak s'.log = streak s.log →
      Delayed options s') : Paced options hash s' := by
  have hf : failures s'.log = failures s.log := by rw [hlog, failures_append hacts]
  have hk : streak s'.log = streak s.log := by rw [hlog, streak_append hacts]
  have hnone := not_wait_of_neutral hacts
  refine ⟨hjitter ▸ h.jitter, hdelay hf hk, ?_, ?_, ?_⟩
  · rw [hlog, each_append]
    refine ⟨h.waits, ?_⟩
    rintro l₁ x l₂ rfl ms hx
    exact absurd hx (hnone x (by simp) ms)
  · intro hex hdue hlt
    rw [hf, hk] at *
    rw [hlog]
    exact (h.due (hpc hex).1 ((hpc hex).2.trans hdue) hlt).append acts
  · intro hw
    rw [hlog] at hw ⊢
    exact (h.first (restartedWait_append hnone hw)).append acts

/-- Nothing is recorded, and the worker goes on as the delay allows. -/
theorem Paced.quiet (h : Paced options hash s) (hlog : s'.log = s.log)
    (hjitter : s'.reconnectJitterMs = s.reconnectJitterMs)
    (hpc : s'.pc ≠ .exited → s.pc ≠ .exited ∧ s.pc.due ≤ s'.pc.due)
    (hdelay : delayedAt options s'.stopping s'.reconnectDelay (failures s.log) (streak s.log)
      s'.pc) : Paced options hash s' := by
  refine h.extend [] (by rw [hlog, List.append_nil]) (by simp) hjitter hpc fun hf hk => ?_
  rw [Delayed, hf, hk]
  exact hdelay

/-- A failure is recorded. -/
theorem Paced.fail (h : Paced options hash s) {a : Act} (ha : a.isFailure = true)
    (hdelay : s.reconnectDelay.toInt = delaySec options (failures s.log + 1))
    (hpc : s.pc ≠ .exited) (hdue : s.pc.due = 1) :
    Paced options hash ({ s with pc := .caught }.record a) := by
  have hf : failures (s.log ++ [a]) = failures s.log + 1 := by rw [failures_concat, if_pos ha]
  have hk : streak (s.log ++ [a]) = streak s.log + 1 := by rw [streak_concat, streak_of_failure ha]
  have hnone : ∀ b ∈ [a], ∀ ms, b ≠ .wait ms := by
    rintro b hb ms rfl
    rw [← List.mem_singleton.1 hb] at ha
    exact absurd ha Bool.false_ne_true
  refine ⟨h.jitter, ?_, ?_, ?_, ?_⟩
  · rw [Delayed]
    simp only [record]
    rw [hf, hk]
    exact ⟨hdelay, by omega⟩
  · refine each_concat.2 ⟨h.waits, fun ms hms => absurd hms (hnone a (by simp) ms)⟩
  · rintro - hdue' hlt
    change 2 ≤ streak (s.log ++ [a]) at hdue'
    change streak (s.log ++ [a]) < failures (s.log ++ [a]) at hlt
    rw [hf, hk] at *
    exact (h.due hpc (by omega) (by omega)).append [a]
  · intro hw
    exact (h.first (restartedWait_append hnone hw)).append [a]

section Bounded

variable (hmin : 0 ≤ options.reconnectMinSec.toInt)
  (hle : options.reconnectMinSec.toInt ≤ options.reconnectMaxSec.toInt)
  (hsmall : options.reconnectMaxSec.toInt * 1000 + (hash % 1000).toNat < 2 ^ 31)

include hmin hle hsmall in
/-- The worker wakes up, and doubles the delay. -/
theorem toInt_double (h : s.reconnectDelay.toInt = delaySec options (k + 1)) :
    (min (s.reconnectDelay * 2) options.reconnectMaxSec).toInt = delaySec options (k + 2) :=
  toInt_doubled hmin (hmin.trans hle) (by omega) h

include hmin hle hsmall in
/-- The wait that is chosen after `k` failures. -/
theorem toInt_wait (h : s.reconnectDelay.toInt = delaySec options k)
    (hjitter : s.reconnectJitterMs.toInt = (hash % 1000).toNat) :
    (s.reconnectDelay * 1000 + s.reconnectJitterMs).toInt = waitMs options hash k := by
  obtain ⟨h₀, h₁⟩ : 0 ≤ delaySec options k ∧ delaySec options k ≤ options.reconnectMaxSec.toInt :=
    doubled_bounds hmin (hmin.trans hle) (k - 1)
  have h1000 : (1000 : Int32).toInt = 1000 := rfl
  have hmul : (s.reconnectDelay * 1000).toInt = delaySec options k * 1000 := by
    rw [toInt_mul (by rw [h, h1000]; omega) (by rw [h, h1000]; omega), h, h1000]
  rw [toInt_add (by rw [hmul, hjitter]; omega) (by rw [hmul, hjitter]; omega), hmul, hjitter,
    waitMs]

/-- A wait is chosen: if it comes after a connection that came after a failure,
    it is the first one after it, or there was one. -/
theorem Paced.wait (h : Paced options hash s) (hpc : s.pc = .backoff)
    (hdelay : s.reconnectDelay.toInt = delaySec options (failures s.log)) (hone : 1 ≤ streak s.log)
    {ms : Int32} (hms : ms.toInt = waitMs options hash (failures s.log)) :
    Paced options hash ({ s with pc := .sleeping }.record (.wait ms)) := by
  have hf : failures (s.log ++ [.wait ms]) = failures s.log := by rw [failures_concat]; rfl
  have hk : streak (s.log ++ [.wait ms]) = streak s.log := by rw [streak_concat]; rfl
  have hfirst (hlt : streak s.log < failures s.log) : RestartedFirst (s.log ++ [.wait ms]) := by
    -- The wait is the first one after the connection, or that one is behind.
    rcases Nat.eq_or_lt_of_le hone with heq | hgt
    · exact ⟨s.log, ms, [], rfl, heq.symm, by omega⟩
    · refine (h.due (by simp [hpc]) ?_ hlt).append _
      rw [hpc, Pc.due]
      omega
  refine ⟨h.jitter, ?_, ?_, ?_, ?_⟩
  · rw [Delayed]
    simp only [record]
    rw [hf, hk]
    exact ⟨hdelay, hone⟩
  · refine each_concat.2 ⟨h.waits, fun ms' hms' => ?_⟩
    rw [← Act.wait.inj hms']
    exact ⟨hone, hms⟩
  · rintro - - hlt
    change streak (s.log ++ [.wait ms]) < failures (s.log ++ [.wait ms]) at hlt
    rw [hf, hk] at hlt
    exact hfirst hlt
  · rintro ⟨l₁, ms', l₂, heq, hr⟩
    rcases concat_eq_append_cons_iff.1 heq with ⟨rfl, -, -⟩ | ⟨m, -, hl⟩
    · exact hfirst ((streak_spec _).2.2 hr)
    · exact (h.first ⟨l₁, ms', m, hl, hr⟩).append _

include hmin hle hsmall in
/-- A step of the session keeps its log paced. -/
theorem paced_move (h : Paced options hash s) (hm : Move options s s') : Paced options hash s' := by
  have hdelay := h.delay
  rw [Delayed] at hdelay
  cases hm with
  | arrive data hlen =>
    obtain ⟨k, qb, db, u, t, l, heq⟩ := enqueue_eq options s data
    rw [heq]
    set p := s.payload data
    -- An arrival and the trim after it do not concern the worker.
    refine h.extend (.enqueued p :: ((s.queue ++ [p]).take k).map .trimmed)
      (List.append_assoc ..) ?_ rfl (fun hex => ⟨hex, le_rfl⟩) fun hf hk => ?_
    · intro a ha
      rcases List.mem_cons.1 ha with rfl | ha
      · rfl
      · obtain ⟨q, -, rfl⟩ := List.mem_map.1 ha
        rfl
    · rw [Delayed, hf, hk]
      exact hdelay
  | ignore => exact h
  | stop stop gStop hst =>
    exact h.quiet rfl rfl (fun hex => ⟨hex, le_rfl⟩) (delayedAt_mono hst hdelay)
  | exit hpc hst =>
    exact h.quiet rfl rfl (fun hex => absurd rfl hex) trivial
  | connect hpc hst =>
    rw [hpc, hst] at hdelay
    exact h.quiet rfl rfl (fun _ => by simp [hpc, Pc.due])
      (hdelay.resolve_left Bool.false_ne_true)
  | connected hpc =>
    rw [hpc] at hdelay
    have hf : failures (s.log ++ [.connected]) = failures s.log := by rw [failures_concat]; rfl
    have hk : streak (s.log ++ [.connected]) = 0 := by rw [streak_concat]; rfl
    have hnone : ∀ a ∈ [Act.connected], ∀ ms, a ≠ .wait ms := by simp
    -- The failures in a row start over, those since the start do not.
    refine ⟨h.jitter, ?_, each_concat.2 ⟨h.waits, by simp⟩, ?_, ?_⟩
    · rw [Delayed]
      simp only [record]
      rw [hf]
      exact hdelay
    · intro _ hdue _
      simp only [record, Pc.due, hk] at hdue
      omega
    · exact fun hw => (h.first (restartedWait_append hnone hw)).append _
  | sourceFailed hpc =>
    rw [hpc] at hdelay
    exact h.fail rfl hdelay (by simp [hpc]) (by rw [hpc]; rfl)
  | stream hpc hst =>
    rw [hpc] at hdelay
    exact h.quiet rfl rfl (fun _ => by simp [hpc, Pc.due]) hdelay
  | leave hpc hst =>
    refine h.quiet rfl rfl (fun _ => ?_) hst
    rcases hpc with hpc | hpc <;> simp [hpc, Pc.due]
  | pop hpc p ps hq =>
    rw [hpc] at hdelay
    exact h.quiet rfl rfl (fun _ => by simp [hpc, Pc.due, subQueuedBytes]) hdelay
  | wrote p hpc =>
    rw [hpc] at hdelay
    refine h.extend [.wrote p] rfl (by simp [Act.isNeutral]) rfl
      (fun _ => by simp [hpc, Pc.due, record]) fun hf _ => ?_
    rw [Delayed, hf]
    exact hdelay
  | writeFailed p hpc =>
    rw [hpc] at hdelay
    exact h.fail rfl hdelay (by simp [hpc]) (by rw [hpc]; rfl)
  | reset hpc =>
    rw [hpc] at hdelay
    -- The delay is set back, but the worker has come here to stop.
    exact h.quiet rfl rfl (fun _ => by simp [hpc, Pc.due]) (.inl hdelay)
  | recover hpc hst =>
    rw [hpc] at hdelay
    exact h.quiet rfl rfl (fun _ => by simp [hpc, Pc.due]) hdelay
  | clear hpc =>
    rw [hpc] at hdelay
    obtain ⟨qb, db, heq⟩ := clearQueueLocked_eq s
    rw [heq]
    refine h.extend (s.queue.map Act.discarded ++ [Act.cleared]) (List.append_assoc ..) ?_ rfl
      (fun _ => by simp [hpc, Pc.due, record]) fun hf hk => ?_
    · intro a ha
      rcases List.mem_append.1 ha with ha | ha
      · obtain ⟨q, -, rfl⟩ := List.mem_map.1 ha
        rfl
      · rw [List.mem_singleton.1 ha]
        rfl
    · rw [Delayed, hf, hk]
      exact hdelay
  | wait hpc =>
    rw [hpc] at hdelay
    exact h.wait hpc hdelay.1 hdelay.2 (toInt_wait hmin hle hsmall hdelay.1 h.jitter)
  | wake hpc =>
    rw [hpc] at hdelay
    -- There was a failure, so the doubled delay is that of one more.
    obtain ⟨hd, hone⟩ := hdelay
    refine h.quiet rfl rfl (fun _ => by simp [hpc, Pc.due]) (.inr ?_)
    obtain ⟨k, hk⟩ : ∃ k, failures s.log = k + 1 :=
      ⟨failures s.log - 1, by have := (streak_spec s.log).1; omega⟩
    rw [hk] at hd ⊢
    exact toInt_double hmin hle hsmall hd

include hmin hle hsmall in
theorem paced_of_reachable (h : (automaton options hash).Reachable s) : Paced options hash s := by
  refine invariant h ⟨?_, .inr ?_, each_nil, fun _ _ hlt => ?_, ?_⟩ fun _ _ hs hm =>
    paced_move hmin hle hsmall hs hm
  · exact toInt_jitter hash
  · exact (doubled_zero hle).symm
  · exact absurd hlt (lt_irrefl 0)
  · rintro ⟨l₁, ms, l₂, heq, -⟩
    exact absurd heq (by simp [automaton])

include hmin hle in
/-- The delay after a failure that is not the first is longer than the least,
    unless this is the greatest, too. -/
theorem delaySec_eq_first_iff {k : ℕ} (hk : 1 < k) : delaySec options k = delaySec options 1 ↔
    options.reconnectMinSec.toInt = 0 ∨
      options.reconnectMinSec.toInt = options.reconnectMaxSec.toInt := by
  refine (doubled_eq_iff hmin (Nat.sub_pos_of_lt hk)).trans (or_congr_right ?_)
  rw [pow_zero, mul_one]
  exact ⟨hle.antisymm, fun h => h.ge⟩

include hmin in
/-- If the least and the greatest delay are the same, or there is none, all
    delays are the same. -/
theorem delaySec_eq_of_flat (h : options.reconnectMinSec.toInt = 0 ∨
    options.reconnectMinSec.toInt = options.reconnectMaxSec.toInt) (j k : ℕ) :
    delaySec options j = delaySec options k := by
  have hflat := h.imp_right fun h => (h.symm.trans (mul_one _).symm).le
  have hconst (n : ℕ) : delaySec options n = delaySec options 1 :=
    doubled_eq_of_le hmin hflat (Nat.zero_le _)
  rw [hconst j, hconst k]

/-- Each wait is that of the failures since the start or the last connection, of
    which there is at least one. -/
def WaitsRestart (options : Options) (hash : UInt64) (l : List Act) : Prop :=
  Each (fun l₁ x _ => ∀ ms, x = .wait ms →
    1 ≤ streak l₁ ∧ ms.toInt = waitMs options hash (streak l₁)) l

include hmin hle hsmall in
/-- **The waits restart after a connection only as long as it makes no
    difference.** In every run each wait is the one of the failures since the
    start or the last connection if and only if the least delay is zero or the
    greatest one, or there has been no wait after a connection that came after a
    failure. -/
theorem waits_restart_iff (h : (automaton options hash).Reachable s) :
    WaitsRestart options hash s.log ↔
      options.reconnectMinSec.toInt = 0 ∨
        options.reconnectMinSec.toInt = options.reconnectMaxSec.toInt ∨ ¬RestartedWait s.log := by
  have hp := paced_of_reachable hmin hle hsmall h
  constructor
  · intro hw
    rw [← or_assoc]
    refine or_iff_not_imp_right.2 fun hr => ?_
    -- The first wait after the connection is that of `failures`, not of one failure.
    obtain ⟨l₁, ms, l₂, heq, hk, hf⟩ := hp.first (not_not.1 hr)
    have h₁ := (hw l₁ _ l₂ heq ms rfl).2
    have h₂ := (hp.waits l₁ _ l₂ heq ms rfl).2
    rw [h₂, hk, waitMs, waitMs] at h₁
    exact (delaySec_eq_first_iff hmin hle hf).1 (by omega)
  · intro hcond l₁ x l₂ heq ms hx
    obtain ⟨hone, hms⟩ := hp.waits l₁ x l₂ heq ms hx
    refine ⟨hone, hms.trans ?_⟩
    rw [← or_assoc] at hcond
    rcases hcond with hflat | hr
    · rw [waitMs, waitMs, delaySec_eq_of_flat hmin hflat]
    -- Before a wait that no such connection precedes, both counts are the same.
    · have hnot : ¬Restarted l₁ := fun hl => hr ⟨l₁, ms, l₂, hx ▸ heq, hl⟩
      have hspec := streak_spec l₁
      rw [Nat.le_antisymm hspec.1 (not_lt.1 fun hlt => hnot (hspec.2.1 hlt))]

end Bounded

/-- A connection fails, the next one is established and breaks off. -/
def restartedRun : List Event :=
  [.worker true, .worker false, .worker true, .worker true, .worker true, .worker true,
    .worker true, .worker true, .arrive [1], .worker true, .worker true, .worker false,
    .worker true, .worker true, .worker true]

theorem waits_restart_iff_restartedRun : ∃ s, (automaton {} 0).exec restartedRun = some s ∧
    (WaitsRestart {} 0 s.log ↔
      ({} : Options).reconnectMinSec.toInt = 0 ∨
        ({} : Options).reconnectMinSec.toInt = ({} : Options).reconnectMaxSec.toInt ∨
        ¬RestartedWait s.log) :=
  ⟨_, rfl, waits_restart_iff (by decide) (by decide) (by decide)
    (Automaton.reachable_of_exec (show (automaton {} 0).exec restartedRun = some _ from rfl))⟩

/-- The wait after the connection has broken off is twice the least, though this
    is its first failure. -/
theorem restartedRun_doubles : ∃ s, (automaton {} 0).exec restartedRun = some s ∧
    s.log = [.sourceFailed, .cleared, .wait 2000, .connected, .enqueued ⟨0, [1]⟩,
      .writeFailed ⟨0, [1]⟩, .cleared, .wait 4000] ∧
    ¬WaitsRestart {} 0 s.log := by
  refine ⟨_, rfl, rfl, fun h => ?_⟩
  have := (h [.sourceFailed, .cleared, .wait 2000, .connected, .enqueued ⟨0, [1]⟩,
    .writeFailed ⟨0, [1]⟩, .cleared] _ [] rfl 4000 rfl).2
  exact absurd this (by decide)

end StreamSession

end RtcmBridge.Nats2Ntrip

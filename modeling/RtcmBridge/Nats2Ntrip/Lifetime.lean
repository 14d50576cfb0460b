import RtcmBridge.Nats2Ntrip.Shutdown

/-!
# What outlives what

A worker uses the connection of its session without any lock: `main` destroys the connection
only after the session, whose destructor joins the worker. This is so when the program is
told to stop, and also when a session cannot be started, and `main` leaves by the way of the
exception. What `main` has to do before it returns (`Main.todo`) stops a session before it
destroys its connection, as long as the worker runs (`Kept`).

So a worker that runs has its connection (`connection_outlives_worker`), and when `main` has
returned no thread and no connection is left (`nothing_left`).
-/

namespace RtcmBridge.Nats2Ntrip.Process

open Monitor

variable {n : ℕ} {options : Options} {hash : Fin n → UInt64} {i j : Fin n} {t : Thread n}
  {s s' : State (Mutex n) (Shared n) (Place n)} {ts : List (Task n)}

/-! ### What `main` has to do -/

/-- What `main` has to do before it returns, if it leaves now. -/
def Main.todo : Main n → List (Task n)
  | .starting k => leave (before n k)
  | .spawning i => .stop i :: .destroy i :: leave (before n i)
  | .test | .sleep | .asleep | .relock => leave (before n n)
  | .tasks _ _ ts => ts
  | .stop _ i _ _ ts => .stop i :: ts
  | .exited _ => []

/-- The exit code of `main`, if it is leaving. -/
def Main.code : Main n → Option ℕ
  | .tasks code _ _ | .stop _ _ code _ _ | .exited code => some code
  | _ => none

/-- The session is stopped before its connection is destroyed. -/
def StopsFirst (i : Fin n) (ts : List (Task n)) : Prop :=
  .stop i ∈ ts.takeWhile (· ≠ .destroy i)

/-- A session that is stopped first is stopped. -/
theorem StopsFirst.mem (h : StopsFirst i ts) : .stop i ∈ ts := (List.takeWhile_prefix _).subset h

/-- That another session is stopped before does not matter. -/
theorem stopsFirst_stop_cons (hj : i ≠ j) : StopsFirst i (.stop j :: ts) ↔ StopsFirst i ts := by
  simp [StopsFirst, hj]

/-- Nor does it matter that another one is destroyed before. -/
theorem stopsFirst_destroy_cons :
    StopsFirst i (.destroy j :: ts) ↔ i ≠ j ∧ StopsFirst i ts := by
  by_cases hj : j = i
  · simp [StopsFirst, hj]
  · simp [StopsFirst, hj, Ne.symm hj]

theorem mem_before {k : ℕ} : i ∈ before n k ↔ i.val < k := by
  simp [before]

theorem before_of_le {k : ℕ} (hk : n ≤ k) : before n k = before n n := by
  refine List.filter_congr fun i _ => ?_
  simp [i.isLt, i.isLt.trans_le hk]

@[simp]
theorem stop_mem_leave {is : List (Fin n)} : .stop i ∈ leave is ↔ i ∈ is := by simp [leave]

@[simp]
theorem destroy_mem_leave {is : List (Fin n)} : .destroy i ∈ leave is ↔ i ∈ is := by simp [leave]

/-- The sessions are stopped before any of their connections is destroyed. -/
theorem stopsFirst_leave {is : List (Fin n)} : StopsFirst i (leave is) ↔ i ∈ is := by
  refine ⟨fun h => stop_mem_leave.1 h.mem, fun h => ?_⟩
  rw [StopsFirst, leave, List.takeWhile_append_of_pos (by simp)]
  exact List.mem_append_left _ (List.mem_map_of_mem h)

/-! ### What is kept -/

/-- What `main` has to do, as long as a session is subscribed, or its worker runs, or its
    connection exists. -/
structure Kept (i : Fin n) (d : Shared n) (m : Main n) : Prop where
  connected : (d.session i).connected = true → .destroy i ∈ m.todo
  subscribed : (d.session i).subscribed = true → .stop i ∈ m.todo
  running : (d.session i).joinable = true → (d.session i).ended = false →
    (d.session i).connected = true ∧ StopsFirst i m.todo
  spawning : m = .spawning i → (d.session i).connected = true

section Kept

variable {d d' : Shared n} {m m' : Main n}

/-- What `main` has to do stays the same, and the flags do, but for the worker that may end. -/
theorem Kept.keep (h : Kept i d m) (htodo : m'.todo = m.todo)
    (hspawn : m' = .spawning i → m = .spawning i)
    (hc : (d'.session i).connected = (d.session i).connected)
    (hsub : (d'.session i).subscribed = true → (d.session i).subscribed = true)
    (hj : (d'.session i).joinable = (d.session i).joinable)
    (he : (d.session i).ended = true → (d'.session i).ended = true) : Kept i d' m' := by
  refine ⟨fun hc' => ?_, fun hs => ?_, fun hj' he' => ?_, fun hm => ?_⟩
  · rw [htodo]
    exact h.connected (hc ▸ hc')
  · rw [htodo]
    exact h.subscribed (hsub hs)
  · rw [hc, htodo]
    refine h.running (hj ▸ hj') (Bool.eq_false_iff.2 fun he'' => ?_)
    rw [he he''] at he'
    cases he'
  · rw [hc]
    exact h.spawning (hspawn hm)

/-- A session is created and subscribed. -/
theorem Kept.started (h : Kept i d (.starting j)) :
    Kept i (d.modify j fun m => { m with connected := true, subscribed := true })
      (.spawning j) := by
  by_cases hj : i = j
  · subst hj
    refine ⟨fun _ => by simp [Main.todo], fun _ => by simp [Main.todo], fun hjoin hend => ?_,
      fun _ => by simp⟩
    rw [Shared.session_modify_self] at hjoin hend
    -- No worker runs before its session is created.
    have := stopsFirst_leave.1 (h.running hjoin hend).2
    exact absurd (mem_before.1 this) (lt_irrefl _)
  · have hd := Shared.session_modify_of_ne d hj fun m =>
      { m with connected := true, subscribed := true }
    refine ⟨fun hc => ?_, fun hs => ?_, fun hjoin hend => ?_, fun hm => ?_⟩
    · rw [hd] at hc
      exact List.mem_cons_of_mem _ (List.mem_cons_of_mem _ (h.connected hc))
    · rw [hd] at hs
      exact List.mem_cons_of_mem _ (List.mem_cons_of_mem _ (h.subscribed hs))
    · rw [hd] at hjoin hend ⊢
      obtain ⟨hc, hfirst⟩ := h.running hjoin hend
      exact ⟨hc, (stopsFirst_stop_cons hj).2 (stopsFirst_destroy_cons.2 ⟨hj, hfirst⟩)⟩
    · exact absurd (Main.spawning.inj hm).symm hj

/-- A session comes into the list of the sessions. -/
theorem Kept.spawned (h : Kept i d (.spawning j)) :
    Kept i (d.modify j fun m => { m with joinable := true }) (.starting (j + 1)) := by
  by_cases hj : i = j
  · subst hj
    have hmem : i ∈ before n (i + 1) := mem_before.2 (Nat.lt_succ_self _)
    refine ⟨fun _ => destroy_mem_leave.2 hmem, fun _ => stop_mem_leave.2 hmem,
      fun _ _ => ⟨?_, stopsFirst_leave.2 hmem⟩, fun hm => by cases hm⟩
    rw [Shared.session_modify_self]
    exact h.spawning rfl
  · have hd := Shared.session_modify_of_ne d hj fun m => { m with joinable := true }
    have hnext (hmem : i ∈ before n j) : i ∈ before n (j + 1) :=
      mem_before.2 (Nat.lt_succ_of_lt (mem_before.1 hmem))
    refine ⟨fun hc => ?_, fun hs => ?_, fun hjoin hend => ?_, fun hm => by cases hm⟩
    · rw [hd] at hc
      exact destroy_mem_leave.2 (hnext (by simpa [Main.todo, hj] using h.connected hc))
    · rw [hd] at hs
      exact stop_mem_leave.2 (hnext (by simpa [Main.todo, hj] using h.subscribed hs))
    · rw [hd] at hjoin hend ⊢
      obtain ⟨hc, hfirst⟩ := h.running hjoin hend
      have hmem := (stopsFirst_destroy_cons.1 ((stopsFirst_stop_cons hj).1 hfirst)).2
      exact ⟨hc, stopsFirst_leave.2 (hnext (stopsFirst_leave.1 hmem))⟩

/-- A worker has been joined. -/
theorem Kept.join {code : ℕ} {locked : Bool} (h : Kept i d (.stop .join j code locked ts))
    (hsub : i = j → (d.session i).subscribed = false)
    (hend : (d.session j).joinable = true → (d.session j).ended = true) :
    Kept i d (.tasks code locked ts) := by
  refine ⟨fun hc => by simpa [Main.todo] using h.connected hc, fun hs => ?_,
    fun hjoin hno => ?_, fun hm => by cases hm⟩
  · have hmem := h.subscribed hs
    rcases List.mem_cons.1 hmem with hj | hmem
    · rw [hsub (Task.stop.inj hj)] at hs
      cases hs
    · exact hmem
  · obtain ⟨hc, hfirst⟩ := h.running hjoin hno
    have hj : i ≠ j := by
      rintro rfl
      rw [hend hjoin] at hno
      cases hno
    exact ⟨hc, (stopsFirst_stop_cons hj).1 hfirst⟩

/-- A connection is destroyed. -/
theorem Kept.destroy {code : ℕ} (h : Kept i d (.tasks code false (.destroy j :: ts))) :
    Kept i (d.modify j fun m => { m with connected := false }) (.tasks code false ts) := by
  have hsub (hs : (d.session i).subscribed = true) : .stop i ∈ ts := by
    simpa [Main.todo] using h.subscribed hs
  have hrun (hjoin : (d.session i).joinable = true) (hend : (d.session i).ended = false) :
      (d.session i).connected = true ∧ i ≠ j ∧ StopsFirst i ts :=
    ⟨(h.running hjoin hend).1, stopsFirst_destroy_cons.1 (h.running hjoin hend).2⟩
  by_cases hj : i = j
  · subst hj
    refine ⟨fun hc => ?_, fun hs => ?_, fun hjoin hend => ?_, fun hm => by cases hm⟩
    · rw [Shared.session_modify_self] at hc
      cases hc
    · rw [Shared.session_modify_self] at hs
      exact hsub hs
    · rw [Shared.session_modify_self] at hjoin hend
      exact absurd rfl (hrun hjoin hend).2.1
  · have hd := Shared.session_modify_of_ne d hj fun m => { m with connected := false }
    refine ⟨fun hc => ?_, fun hs => ?_, fun hjoin hend => ?_, fun hm => by cases hm⟩
    · rw [hd] at hc
      simpa [Main.todo, hj] using h.connected hc
    · rw [hd] at hs
      exact hsub hs
    · rw [hd] at hjoin hend ⊢
      exact ⟨(hrun hjoin hend).1, (hrun hjoin hend).2.2⟩

/-- A step of `main` keeps the list, if it joins only what is unsubscribed. -/
theorem Kept.goes (h : Kept i d m) (hg : Main.Goes d m d' m')
    (hsub : ∀ code locked ts, m = .stop .join i code locked ts →
      (d.session i).subscribed = false) : Kept i d' m' := by
  cases hg with
  | started j => exact h.started
  | spawned j => exact h.spawned
  | join j code locked ts hend =>
    exact h.join (fun hj => hsub code locked ts (by rw [hj])) hend
  | destroy j code ts => exact h.destroy
  | lock k hk =>
    refine h.keep ?_ (fun hm => by cases hm) rfl id rfl id
    rw [Main.todo, Main.todo, before_of_le (not_lt.1 hk)]
  | set j | unsubscribe j =>
    by_cases hj : i = j
    · subst hj
      refine h.keep rfl (fun hm => by cases hm) ?_ ?_ ?_ ?_ <;> simp
    · have hd := Shared.session_modify_of_ne d hj
      refine h.keep rfl (fun hm => by cases hm) ?_ ?_ ?_ ?_ <;> simp [hd]
  | _ => exact h.keep rfl (fun hm => by cases hm) rfl id rfl id

end Kept

/-! ### Runs -/

/-- What the flags of a session tell about its worker. -/
structure Working (i : Fin n) (s : State (Mutex n) (Shared n) (Place n)) : Prop where
  started : s.place (.worker i) ≠ Worker.unborn → (s.data.session i).joinable = true
  exited : (s.data.session i).ended = true → s.place (.worker i) = Worker.exited

/-- A worker begins only when its thread has been started. -/
theorem Worker.Goes.joinable_of_unborn {k' : Worker} {d d' : Shared n}
    (h : Worker.Goes options i d .unborn d' k') : (d.session i).joinable = true := by
  cases h with
  | start hj => exact hj

/-- A worker ends only by its exit. -/
theorem Worker.Goes.ended_or {k k' : Worker} {d d' : Shared n} (h : Worker.Goes options i d k d' k')
    (hend : (d'.session i).ended = true) :
    k' = .exited ∨ k ≠ .exited ∧ (d.session i).ended = true := by
  cases h with
  | ended => exact .inl rfl
  | pop | popped | wrote | reset | clearing | discard | discarded | awake =>
    rw [Shared.session_modify_self] at hend
    exact .inr ⟨by simp, hend⟩
  | _ => exact .inr ⟨by simp, hend⟩

theorem working_move (h : Working i s) (hm : (monitor options hash).Move s t s') :
    Working i s' := by
  have hlater := later_of_leads hm.leads i
  by_cases ht : .worker i = t
  · subst ht
    have hgoes : Worker.Goes options i s.data (s.place (.worker i)) s'.data
      (s'.place (.worker i)) := worker_goes hm.leads
    refine ⟨fun _ => hlater.joinable ?_, fun hend => ?_⟩
    · by_cases hk : s.place (.worker i) = Worker.unborn
      · rw [hk] at hgoes
        exact hgoes.joinable_of_unborn
      · exact h.started hk
    · rcases hgoes.ended_or hend with hk | ⟨hk, hend⟩
      · exact hk
      · exact absurd (h.exited hend) hk
  · -- Another thread at most wakes the worker.
    refine ⟨fun hk => hlater.joinable (h.started ?_), fun hend => ?_⟩
    · rcases worker_place hm ht with heq | ⟨heq, -⟩ | ⟨heq, -⟩
      · rwa [← heq]
      · rw [heq]
        exact fun hk => by cases hk
      · rw [heq]
        exact fun hk => by cases hk
    · rw [ended_kept hm.leads ht] at hend
      have hk := h.exited hend
      rcases worker_place hm ht with heq | ⟨heq, -⟩ | ⟨heq, -⟩
      · rw [heq, hk]
      · rw [heq] at hk
        cases hk
      · rw [heq] at hk
        cases hk

theorem kept_move (hs : Settled i s) (h : Kept i s.data (s.place .main))
    (hm : (monitor options hash).Move s t s') : Kept i s'.data (s'.place .main) := by
  by_cases ht : .main = t
  · subst ht
    exact h.goes (main_goes hm.leads) hs.unsubscribed
  · obtain ⟨hc, hsub, hj⟩ := flags_kept (i := i) hm.leads ht
    have htodo : Main.todo (s'.place .main) = Main.todo (s.place .main) ∧
        (s'.place .main = Main.spawning i → s.place .main = Main.spawning i) := by
      rcases main_place hm ht with heq | ⟨heq, heq'⟩
      · rw [heq]
        exact ⟨rfl, id⟩
      · rw [heq, heq']
        exact ⟨rfl, fun hm => by cases hm⟩
    exact h.keep htodo.1 htodo.2 hc hsub.symm.trans hj (later_of_leads hm.leads i).ended

/-- In every reachable state, what exists is still to be stopped and destroyed. -/
theorem kept (h : (monitor options hash).automaton.Reachable s) (i : Fin n) :
    Kept i s.data (s.place .main) ∧ Working i s := by
  suffices hinv : (monitor options hash).automaton.Reachable s ∧ Kept i s.data (s.place .main) ∧
      Working i s from hinv.2
  refine h.invariant (P := fun s => (monitor options hash).automaton.Reachable s ∧
    Kept i s.data (s.place .main) ∧ Working i s) ⟨⟨[], .init⟩, ⟨?_, ?_, ?_, ?_⟩, ?_, ?_⟩ ?_
  · intro hc
    cases hc
  · intro hs
    cases hs
  · intro hj
    cases hj
  · intro hm
    cases hm
  · intro hk
    exact absurd rfl hk
  · intro hend
    cases hend
  · intro s e s' ⟨hr, hk, hw⟩ hstep
    have hm := move_of_step hstep
    exact ⟨hr.next hstep, kept_move (settled hr i) hk hm, working_move hw hm⟩

/-- **A connection outlives its worker.** In every reachable state a worker that has been
    started and has not ended has the connection of its session. -/
theorem connection_outlives_worker (h : (monitor options hash).automaton.Reachable s)
    (i : Fin n) (hborn : s.place (.worker i) ≠ Worker.unborn)
    (halive : s.place (.worker i) ≠ Worker.exited) :
    (s.data.session i).connected = true := by
  obtain ⟨hk, hw⟩ := kept h i
  exact (hk.running (hw.started hborn) (Bool.eq_false_iff.2 fun hend => halive (hw.exited hend))).1

/-- `main` takes the exit code 0 only after a signal. -/
theorem Main.Goes.gStop_of_code {m m' : Main n} {d d' : Shared n} (h : Main.Goes d m d' m')
    (hcode : m'.code = some 0) : d.gStop = true ∨ m.code = some 0 := by
  cases h with
  | signalled hst => exact .inl hst
  | startFailed | spawnFailed => cases hcode
  | started | lock | spawned | sleep | asleep | woken | relock => cases hcode
  | _ => exact .inr hcode

/-- `main` only leaves with exit code 0 after a signal. -/
theorem gStop_of_code (h : (monitor options hash).automaton.Reachable s)
    (hcode : Main.code (s.place .main) = some 0) : s.data.gStop = true := by
  revert hcode
  refine h.invariant (P := fun s => Main.code (s.place .main) = some 0 → s.data.gStop = true)
    (fun hcode => by cases hcode) fun s e s' hP hstep hcode => ?_
  have hm := move_of_step hstep
  generalize e.thread = t at hm
  refine gStop_mono hm.leads ?_
  by_cases ht : .main = t
  · subst ht
    exact (main_goes hm.leads).gStop_of_code hcode |>.elim id hP
  · refine hP ?_
    rcases main_place hm ht with heq | ⟨-, heq⟩
    · rw [← heq, hcode]
    · rw [heq] at hcode
      cases hcode

/-- **Nothing is left.** When `main` has returned, after its loop was begun, every worker has
    ended or was never started, nobody is subscribed, and every connection has been destroyed;
    and if the exit code is 0, there has been a signal. -/
theorem nothing_left (h : (monitor options hash).automaton.Reachable s) {code : ℕ}
    (hexit : s.place .main = Main.exited code) : (code = 0 → s.data.gStop = true) ∧
      ∀ i, (s.data.session i).connected = false ∧ (s.data.session i).subscribed = false ∧
        (s.place (.worker i) = Worker.exited ∨
          s.place (.worker i) = Worker.unborn ∧ (s.data.session i).joinable = false) := by
  refine ⟨fun hcode => gStop_of_code h (by rw [hexit, hcode]; rfl), fun i => ?_⟩
  obtain ⟨hk, hw⟩ := kept h i
  rw [hexit] at hk
  refine ⟨Bool.eq_false_iff.2 fun hc => absurd (hk.connected hc) List.not_mem_nil,
    Bool.eq_false_iff.2 fun hs => absurd (hk.subscribed hs) List.not_mem_nil, ?_⟩
  by_cases hend : (s.data.session i).ended = true
  · exact .inl (hw.exited hend)
  · have hj : (s.data.session i).joinable = false := Bool.eq_false_iff.2 fun hj =>
      absurd (hk.running hj (Bool.eq_false_iff.2 hend)).2 List.not_mem_nil
    refine .inr ⟨by_contra fun hk => ?_, hj⟩
    rw [hw.started hk] at hj
    cases hj

/-- The worker has ended after the signal of `joinRun`, and `main` returns. -/
def exitRun : List (Event (Thread 1) Input) :=
  joinRun ++ List.replicate 3 (.run (.worker (.last 0)) {}) ++ List.replicate 4 (.run .main {})

theorem connection_outlives_worker_joinRun : ∃ s,
    (monitor {} fun _ : Fin 1 => 0).automaton.exec (joinRun ++ [.run (.worker 0) {}]) = some s ∧
      s.place (.worker 0) = Worker.run ∧ (s.data.session 0).connected = true :=
  have h := Automaton.reachable_of_exec (show (monitor {} fun _ : Fin 1 => 0).automaton.exec
    (joinRun ++ [.run (.worker 0) {}]) = some _ from rfl)
  ⟨_, rfl, rfl, connection_outlives_worker h 0 (fun hk => by cases hk) fun hk => by cases hk⟩

theorem nothing_left_exitRun : ∃ s,
    (monitor {} fun _ : Fin 1 => 0).automaton.exec exitRun = some s ∧
      s.place .main = Main.exited 0 ∧ s.data.gStop = true ∧
      (s.data.session 0).connected = false ∧ (s.data.session 0).subscribed = false :=
  have h := Automaton.reachable_of_exec
    (show (monitor {} fun _ : Fin 1 => 0).automaton.exec exitRun = some _ from rfl)
  have hleft := nothing_left h rfl
  ⟨_, rfl, rfl, hleft.1 rfl, (hleft.2 0).1, (hleft.2 0).2.1⟩

end RtcmBridge.Nats2Ntrip.Process

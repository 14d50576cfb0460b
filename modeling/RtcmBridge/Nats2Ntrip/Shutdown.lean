import RtcmBridge.Nats2Ntrip.Atomicity
import RtcmBridge.Nats2Ntrip.Wakeups

/-!
# Stopping a session

`stop` sets `stop_`, notifies the worker, unsubscribes, and joins the worker. From the
lock to the join there is always a thread of the session that can go on, or `main` itself
(`stop_not_stuck`): no wakeup is lost, and whoever has `mtx_` can release it.

While `main` joins the worker, each step of the worker and of a delivery that is still under
way brings the join nearer (`remaining`), so that it takes a bounded number of them, of
whatever the other threads do in between (`stop_returns`).
-/

namespace RtcmBridge.Nats2Ntrip.Process

open Monitor

/-! ### What the threads know -/

/-- A trim is about to take away the front of the queue. -/
def Delivery.trims : Delivery → Bool
  | .trimDropped | .trimQueued | .trimPop => true
  | _ => false

/-- The places of `stop` from `stop_ = true` on. -/
def Stop.past : Stop → Bool
  | .set => false
  | _ => true

/-- `main` is about to stop a session, or stopping it. -/
def Main.stops {n : ℕ} (i : Fin n) : Main n → Bool
  | .tasks _ _ (.stop j :: _) | .stop _ j _ _ _ => i = j
  | _ => false

section Settled

variable {n : ℕ} {options : Options} {hash : Fin n → UInt64} {i : Fin n} {t : Thread n}
  {s s' : State (Mutex n) (Shared n) (Place n)}

/-- What holds of a session when its threads, and `main`, are at certain places. -/
structure Settled (i : Fin n) (s : State (Mutex n) (Shared n) (Place n)) : Prop where
  popping : s.place (.worker i) = Worker.pop → (s.data.session i).queue ≠ []
  trimming : Delivery.trims (s.place (.delivery i)) = true → (s.data.session i).queue ≠ []
  exited : s.place (.worker i) = Worker.exited → (s.data.session i).ended = true
  stopped : ∀ pc code locked ts, s.place .main = Main.stop pc i code locked ts →
    pc.past = true → (s.data.session i).stop = true
  unsubscribed : ∀ code locked ts, s.place .main = Main.stop .join i code locked ts →
    (s.data.session i).subscribed = false

/-- The worker pops only where it has found a message, and is not to stop. -/
theorem Worker.Goes.poised_of_pop {k : Worker} {d d' : Shared n}
    (h : Worker.Goes options i d k d' .pop) :
    k = .tested ∧ d.stopping i = false ∧ d' = d := by
  cases h with
  | take hno => exact ⟨rfl, hno, rfl⟩

/-- A worker that exits has ended. -/
theorem Worker.Goes.ended_of_exited {k : Worker} {d d' : Shared n}
    (h : Worker.Goes options i d k d' .exited) : (d'.session i).ended = true := by
  cases h with
  | ended => rw [Shared.session_modify_self]

/-- A delivery trims a queue that it has added a message to. -/
theorem Delivery.Goes.queue_of_trims {l l' : Delivery} {d d' : Shared n}
    (h : Delivery.Goes options i d l d' l') (hl : l'.trims = true) :
    (d'.session i).queue ≠ [] := by
  cases h with
  | trim _ hq => exact hq
  | trimDropped p queue hq | trimQueued p queue hq =>
    rw [Shared.session_modify_self]
    show (d.session i).queue ≠ []
    simp [hq]
  | _ => cases hl

/-- `stop` gets past its first statement only with the flag set. -/
theorem Main.Goes.stop_of_past {k : Main n} {d d' : Shared n} {pc : Stop} {code : ℕ}
    {locked : Bool} {ts : List (Task n)} (h : Main.Goes d k d' (.stop pc i code locked ts))
    (hpast : pc.past = true) : (d'.session i).stop = true ∨
      ∃ pc', k = .stop pc' i code locked ts ∧ pc'.past = true := by
  cases h with
  | stop => cases hpast
  | set =>
    rw [Shared.session_modify_self]
    exact .inl rfl
  | unlockSession | notify | unsubscribe => exact .inr ⟨_, rfl, rfl⟩

/-- `main` joins a worker only after it has unsubscribed its session. -/
theorem Main.Goes.unsubscribed_of_join {k : Main n} {d d' : Shared n} {code : ℕ} {locked : Bool}
    {ts : List (Task n)} (h : Main.Goes d k d' (.stop .join i code locked ts)) :
    (d'.session i).subscribed = false := by
  cases h with
  | unsubscribe => rw [Shared.session_modify_self]

theorem Main.Goes.data_of_join {k' : Main n} {d d' : Shared n} {code : ℕ} {locked : Bool}
    {ts : List (Task n)} (h : Main.Goes d (.stop .join i code locked ts) d' k') : d' = d := by
  cases h
  rfl

/-- A step of any thread keeps the session settled. -/
theorem settled_move (howned : Owned holds s) (hpoised : Poised i s) (h : Settled i s)
    (hm : (monitor options hash).Move s t s') : Settled i s' := by
  have hlater := later_of_leads hm.leads i
  refine ⟨fun hk => ?_, fun hl => ?_, fun hk => ?_, fun pc code locked ts hk hpast => ?_,
    fun code locked ts hk => ?_⟩
  · -- The worker pops only what it has found, and nobody else takes it meanwhile.
    by_cases ht : .worker i = t
    · subst ht
      have hgoes : Worker.Goes options i s.data (s.place (.worker i)) s'.data
        (s'.place (.worker i)) := worker_goes hm.leads
      rw [hk] at hgoes
      obtain ⟨hk', hno, hd⟩ := hgoes.poised_of_pop
      rw [hd]
      exact hpoised.tested hk' hno
    · obtain ⟨hsame, hqueue⟩ := worker_section_kept howned hm ht (by rw [hk]; rfl)
      rw [hqueue]
      exact h.popping (hsame ▸ hk)
  · -- Nobody else touches the queue while the delivery trims it.
    by_cases ht : .delivery i = t
    · subst ht
      have hgoes : Delivery.Goes options i s.data (s.place (.delivery i)) s'.data
        (s'.place (.delivery i)) := delivery_goes hm.leads
      exact hgoes.queue_of_trims hl
    · rw [delivery_place hm ht] at hl
      rw [delivery_section_kept howned hm ht]
      · exact h.trimming hl
      · cases hk : (s.place (.delivery i) : Delivery) <;> rw [hk] at hl <;>
          first | rfl | cases hl
  · -- A worker at its exit has set the flag, which nobody takes back.
    by_cases ht : .worker i = t
    · subst ht
      have hgoes : Worker.Goes options i s.data (s.place (.worker i)) s'.data
        (s'.place (.worker i)) := worker_goes hm.leads
      rw [hk] at hgoes
      exact hgoes.ended_of_exited
    · refine hlater.ended (h.exited ?_)
      rcases worker_place hm ht with heq | ⟨-, heq⟩ | ⟨-, heq⟩
      · rw [← heq, hk]
      · rw [heq] at hk
        cases hk
      · rw [heq] at hk
        cases hk
  · -- `stop` has set the flag by its first statement.
    by_cases ht : .main = t
    · subst ht
      have hgoes := main_goes hm.leads
      rw [hk] at hgoes
      rcases hgoes.stop_of_past hpast with hstop | ⟨pc', hk', hpast'⟩
      · exact hstop
      · exact hlater.stop (h.stopped pc' code locked ts hk' hpast')
    · refine hlater.stop (h.stopped pc code locked ts ?_ hpast)
      rcases main_place hm ht with heq | ⟨-, heq⟩
      · rw [← heq, hk]
      · rw [heq] at hk
        cases hk
  · -- `main` gets to the join by the statement that unsubscribes.
    by_cases ht : .main = t
    · subst ht
      have hgoes := main_goes hm.leads
      rw [hk] at hgoes
      exact hgoes.unsubscribed_of_join
    · rw [(flags_kept hm.leads ht).2.1]
      refine h.unsubscribed code locked ts ?_
      rcases main_place hm ht with heq | ⟨-, heq⟩
      · rw [← heq, hk]
      · rw [heq] at hk
        cases hk

/-- So it holds in every reachable state. -/
theorem settled (h : (monitor options hash).automaton.Reachable s) (i : Fin n) : Settled i s := by
  suffices hinv : Owned holds s ∧ Poised i s ∧ Settled i s from hinv.2.2
  refine h.invariant (P := fun s => Owned holds s ∧ Poised i s ∧ Settled i s) ?_ ?_
  · refine ⟨disciplined.owner_iff ⟨[], .init⟩, poised ⟨[], .init⟩ i, ?_, ?_, ?_, ?_, ?_⟩
    · intro hk
      cases hk
    · intro hl
      cases hl
    · intro hk
      cases hk
    · intro pc code locked ts hk
      cases hk
    · intro code locked ts hk
      cases hk
  · intro s e s' ⟨howned, hpoised, hs⟩ hstep
    have hm := move_of_step hstep
    exact ⟨disciplined.owned_move howned hm, poised_move howned hpoised hm,
      settled_move howned hpoised hs hm⟩

/-! ### Nobody is stuck -/

/-- The next action of a thread is possible. -/
def Ready (options : Options) (hash : Fin n → UInt64) (s : State (Mutex n) (Shared n) (Place n))
    (t : Thread n) : Prop :=
  ((monitor options hash).program t (s.place t)).Ready (fun m => s.owner m = none) s.data

/-- A worker in its section can go on. -/
theorem worker_ready (h : Settled i s) (hk : Worker.locked (s.place (.worker i)) = true) :
    Ready options hash s (.worker i) := by
  have hpop := h.popping
  change (worker options i (s.place (.worker i))).Ready _ _
  cases hplace : (s.place (.worker i) : Worker) with
  | pop =>
    obtain ⟨p, ps, hq⟩ := List.exists_cons_of_ne_nil (hpop hplace)
    exact ⟨default, _, _, by dsimp only; rw [hq]⟩
  | clearing c =>
    cases hq : (s.data.session i).queue with
    | nil => exact ⟨default, _, _, by dsimp only; rw [hq]⟩
    | cons p ps => exact ⟨default, _, _, by dsimp only; rw [hq]⟩
  | sleep | popUnlock | leave | clearUnlock | backoffSleep | awakeUnlock => trivial
  | test | tested | popped | clear | cleared | discarded | backoffTest | awake =>
    exact ⟨default, _, _, rfl⟩
  | _ =>
    rw [hplace] at hk
    cases hk

/-- A delivery in its section can go on. -/
theorem delivery_ready (h : Settled i s) (hl : Delivery.locked (s.place (.delivery i)) = true) :
    Ready options hash s (.delivery i) := by
  have htrim := h.trimming
  change (delivery options i (s.place (.delivery i))).Ready _ _
  cases hplace : (s.place (.delivery i) : Delivery) with
  | trimDropped | trimQueued =>
    obtain ⟨p, ps, hq⟩ := List.exists_cons_of_ne_nil (htrim (by rw [hplace]; rfl))
    exact ⟨default, _, _, by dsimp only; rw [hq]⟩
  | unlock => trivial
  | push | queuedBytes | total | trim | trimPop | log => exact ⟨default, _, _, rfl⟩
  | _ =>
    rw [hplace] at hl
    cases hl

/-- If `main` does not have the mutex of a session, it is free, or who has it can go on. -/
theorem free_or_ready (options : Options) (hash : Fin n → UInt64) (howned : Owned holds s)
    (h : Settled i s) (hmain : Main.locks i (s.place .main) = false) :
    s.owner (.session i) = none ∨ Ready options hash s (.worker i) ∨
      Ready options hash s (.delivery i) := by
  cases ho : s.owner (.session i) with
  | none => exact .inl rfl
  | some t =>
    have hmem := (howned _ _).1 ho
    cases t with
    | main =>
      rcases hmem with ⟨hm, -⟩ | ⟨j, hj, hlocks⟩
      · cases hm
      · cases hj
        rw [hlocks] at hmain
        cases hmain
    | signal => exact absurd hmem (Set.notMem_empty _)
    | worker j =>
      obtain ⟨hj, hk⟩ := hmem
      cases hj
      exact .inr (.inl (worker_ready h hk))
    | delivery j =>
      obtain ⟨hj, hl⟩ := hmem
      cases hj
      exact .inr (.inr (delivery_ready h hl))

/-- A delivery that is to notify the worker can go on. -/
theorem delivery_ready_of_owes (h : Settled i s)
    (ho : Delivery.owes (s.place (.delivery i)) = true) : Ready options hash s (.delivery i) := by
  cases hplace : (s.place (.delivery i) : Delivery) with
  | notify =>
    show (delivery options i (s.place (.delivery i))).Ready _ _
    rw [hplace]
    trivial
  | idle | lock | push =>
    rw [hplace] at ho
    cases ho
  | _ => exact delivery_ready h (by rw [hplace]; rfl)

/-- While `main` joins the worker of a session, one of the two can go on, or a delivery. -/
theorem join_ready (h : (monitor options hash).automaton.Reachable s) {code : ℕ} {locked : Bool}
    {ts : List (Task n)} (hmain : s.place .main = Main.stop .join i code locked ts) :
    Ready options hash s .main ∨ Ready options hash s (.worker i) ∨
      Ready options hash s (.delivery i) := by
  have hs := settled h i
  have hstop := hs.stopped .join code locked ts hmain rfl
  by_cases hj : (s.data.session i).joinable = true ∧ (!(s.data.session i).ended) = true
  · right
    -- A worker asleep at either wait is owed a notification, by the delivery alone: `main` joins.
    have howes {w : Wait} (hw : s.place (.worker i) = w.place) :
        Delivery.owes (s.place (.delivery i)) = true := by
      obtain ⟨t, ho⟩ := exists_owes h w i hw (.inl hstop)
      cases t with
      | main =>
        change Main.owes i (s.place .main) = true at ho
        rw [hmain] at ho
        cases ho
      | delivery j =>
        obtain ⟨rfl, ho⟩ := ho
        exact ho
      | _ => exact absurd ho (Set.notMem_empty _)
    -- The mutex is free, or one of the two that can hold it goes on.
    have hfree := free_or_ready options hash (disciplined.owner_iff h) hs
      (by rw [hmain]; rfl)
    have hact {k : Worker} (hplace : s.place (.worker i) = k)
        (hr : (worker options i k).Ready (fun m => s.owner m = none) s.data) :
        Ready options hash s (.worker i) := by
      subst hplace
      exact hr
    cases hplace : (s.place (.worker i) : Worker) with
    | asleep => exact .inr (delivery_ready_of_owes hs (howes (w := .message) hplace))
    | sleeping => exact .inr (delivery_ready_of_owes hs (howes (w := .backoff) hplace))
    | lock | clearLock | backoffLock | expired =>
      rcases hfree with hfree | hready
      · exact .inl (hact hplace hfree)
      · exact hready
    | exited =>
      rw [hs.exited hplace] at hj
      cases hj.2
    | unborn => exact .inl (hact hplace ⟨default, _, _, if_pos hj.1⟩)
    | run | source | stream | returned | caught | backoff | exiting =>
      exact .inl (hact hplace ⟨default, _, _, rfl⟩)
    | writing p => exact .inl (hact hplace ⟨default, _, _, if_pos rfl⟩)
    | _ => exact .inl (worker_ready hs (by rw [hplace]; rfl))
  · left
    -- The worker has ended, or was never started: `join` returns.
    show (main (s.place .main)).Ready _ _
    rw [hmain]
    exact ⟨default, _, _, if_neg hj⟩

/-- From when `main` is about to lock `mtx_` until the worker is joined, `main` can go on, or
    the worker or a delivery of the session. -/
theorem stops_ready (h : (monitor options hash).automaton.Reachable s)
    (hstops : Main.stops i (s.place .main) = true) :
    Ready options hash s .main ∨ Ready options hash s (.worker i) ∨
      Ready options hash s (.delivery i) := by
  have hs := settled h i
  have hact {k : Main n} (hplace : s.place .main = k)
      (hr : (main k).Ready (fun m => s.owner m = none) s.data) :
      Ready options hash s .main := by
    subst hplace
    exact hr
  cases hplace : (s.place .main : Main n) with
  | tasks code locked ts =>
    rw [hplace] at hstops
    rcases ts with _ | ⟨⟨j⟩ | ⟨j⟩, ts⟩
    · cases hstops
    · -- About to lock the mutex of the session.
      obtain rfl : i = j := by simpa [Main.stops] using hstops
      rcases free_or_ready options hash (disciplined.owner_iff h) hs
        (by rw [hplace]; rfl) with hfree | hready
      · exact .inl (hact hplace hfree)
      · exact .inr hready
    · cases hstops
  | stop pc j code locked ts =>
    obtain rfl : i = j := by simpa [hplace, Main.stops] using hstops
    cases pc with
    | set | unsubscribe => exact .inl (hact hplace ⟨default, _, _, rfl⟩)
    | unlock | notify => exact .inl (hact hplace trivial)
    | join => exact join_ready h hplace
  | _ =>
    rw [hplace] at hstops
    cases hstops

/-- A thread that can go on has a step. -/
theorem exists_step (hready : Ready options hash s .main ∨ Ready options hash s (.worker i) ∨
      Ready options hash s (.delivery i)) :
    ∃ t, (t = .main ∨ t = .worker i ∨ t = .delivery i) ∧
      ∃ input s', (monitor options hash).step s (.run t input) = some s' := by
  rcases hready with hr | hr | hr
  · exact ⟨.main, .inl rfl, exists_step_of_ready hr⟩
  · exact ⟨.worker i, .inr (.inl rfl), exists_step_of_ready hr⟩
  · exact ⟨.delivery i, .inr (.inr rfl), exists_step_of_ready hr⟩

/-- **Stopping a session is never stuck.** From when `main` is about to lock `mtx_` until the
    worker is joined, `main` can go on, or the worker or a delivery of the session, without
    anybody waking up by itself. -/
theorem stop_not_stuck (h : (monitor options hash).automaton.Reachable s)
    (hstops : Main.stops i (s.place .main) = true) :
    ∃ t, (t = .main ∨ t = .worker i ∨ t = .delivery i) ∧
      ∃ input s', (monitor options hash).step s (.run t input) = some s' :=
  exists_step (stops_ready h hstops)

/-! ### The join ends -/

/-- How far a worker that has been told to stop is from its end. -/
def Worker.rank : Worker → ℕ
  | .exited => 0
  | .exiting => 1
  | .run | .caught => 2
  | .returned | .unborn | .awakeUnlock => 3
  | .leave | .stream | .awake => 4
  | .tested | .source | .writing _ | .expired | .backoffTest => 5
  | .test | .popUnlock _ | .backoffLock => 6
  | .lock | .popped _ | .sleeping | .backoff => 7
  | .asleep | .pop | .backoffSleep | .clearUnlock => 8
  | .sleep | .discarded _ => 9
  | .cleared _ => 10
  | .clearing _ => 11
  | .clear => 12
  | .clearLock => 13

/-- How far a delivery is from its end, apart from the messages in the queue. -/
def Delivery.rank : Delivery → ℕ
  | .idle => 0
  | .notify => 1
  | .unlock => 2
  | .log => 3
  | .trimPop => 4
  | .trimQueued => 5
  | .trimDropped => 6
  | .trim => 7
  | .total _ => 8
  | .queuedBytes _ => 9
  | .push _ => 14
  | .lock _ => 15

/-- How many steps the worker and a delivery can still take. A message in the queue counts
    four, the steps of a round of the trim. -/
def remaining (i : Fin n) (s : State (Mutex n) (Shared n) (Place n)) : ℕ :=
  Worker.rank (s.place (.worker i)) + Delivery.rank (s.place (.delivery i)) +
    4 * (s.data.session i).queue.length

/-- Every step of a worker that is to stop brings it nearer to its end. -/
theorem Worker.Goes.rank_lt {k k' : Worker} {d d' : Shared n}
    (h : Worker.Goes options i d k d' k') (hst : d.stopping i = true) :
    Worker.rank k' + 4 * (d'.session i).queue.length <
      Worker.rank k + 4 * (d.session i).queue.length := by
  cases h with
  | connect hno | stream hno | sleep hno | take hno | recover hno | backoffSleep hno =>
    rw [hno] at hst
    cases hst
  | pop p queue hq | clearing c p queue hq =>
    rw [Shared.session_modify_self, hq]
    simp only [Worker.rank, List.length_cons]
    omega
  | popped | wrote | reset | discard | discarded | awake | ended =>
    rw [Shared.session_modify_self]
    simp [Worker.rank]
  | _ => simp [Worker.rank]

/-- So does every step of a delivery of an unsubscribed session. -/
theorem Delivery.Goes.rank_lt {l l' : Delivery} {d d' : Shared n}
    (h : Delivery.Goes options i d l d' l') (hsub : (d.session i).subscribed = false)
    (htrim : l.trims = true → (d.session i).queue ≠ []) :
    Delivery.rank l' + 4 * (d'.session i).queue.length <
      Delivery.rank l + 4 * (d.session i).queue.length := by
  cases h with
  | arrive _ hyes | ignore hyes =>
    rw [hsub] at hyes
    cases hyes
  | push data =>
    rw [Shared.session_modify_self]
    simp only [Delivery.rank, List.length_append, List.length_singleton]
    omega
  | trimPop =>
    obtain ⟨p, ps, hq⟩ := List.exists_cons_of_ne_nil (htrim rfl)
    rw [Shared.session_modify_self]
    simp only [Delivery.rank, hq, List.tail_cons, List.length_cons]
    omega
  | queuedBytes | total | trimDropped | trimQueued =>
    rw [Shared.session_modify_self]
    simp [Delivery.rank]
  | log =>
    rw [Shared.session_modify_self]
    split_ifs <;> simp [Delivery.rank]
  | _ => simp [Delivery.rank]

/-- A worker that is woken up is not further from its end. -/
theorem rank_worker_le (hm : (monitor options hash).Move s t s') (ht : .worker i ≠ t) :
    Worker.rank (s'.place (.worker i)) ≤ Worker.rank (s.place (.worker i)) := by
  rcases worker_place hm ht with heq | ⟨hk, hk'⟩ | ⟨hk, hk'⟩
  · rw [heq]
  · rw [hk, hk']
    decide
  · rw [hk, hk']
    decide

/-- Each step of the worker and of a delivery is one less, and no other step is one more. -/
theorem remaining_move (hs : Settled i s) {code : ℕ} {locked : Bool} {ts : List (Task n)}
    (hjoin : s.place .main = Main.stop .join i code locked ts)
    (hm : (monitor options hash).Move s t s') :
    remaining i s' + (if t = .worker i ∨ t = .delivery i then 1 else 0) ≤ remaining i s := by
  have hst : s.data.stopping i = true := by
    rw [Shared.stopping, hs.stopped .join code locked ts hjoin rfl]
    rfl
  -- The threads of others change neither the places nor the queue, but for waking the worker.
  have hother (hk : .worker i ≠ t) (hl : .delivery i ≠ t)
      (hd : s'.data.session i = s.data.session i) :
      remaining i s' + (if t = .worker i ∨ t = .delivery i then 1 else 0) ≤ remaining i s := by
    rw [if_neg (by tauto), remaining, remaining, delivery_place hm hl, hd]
    have := rank_worker_le hm hk
    omega
  cases t with
  | main =>
    have hgoes := main_goes hm.leads
    rw [hjoin] at hgoes
    exact hother (by simp) (by simp) (by rw [hgoes.data_of_join])
  | signal =>
    rcases signal_goes hm.leads with ⟨-, hd, -⟩ | ⟨-, hd, -⟩ <;>
      exact hother (by simp) (by simp) (by rw [hd])
  | worker j =>
    have hgoes := worker_goes hm.leads
    by_cases hj : i = j
    · subst hj
      have := hgoes.rank_lt hst
      rw [if_pos (.inl rfl), remaining, remaining, delivery_place hm (by simp)]
      omega
    · exact hother (by simpa using hj) (by simp) (hgoes.frame.session i hj)
  | delivery j =>
    have hgoes := delivery_goes hm.leads
    by_cases hj : i = j
    · subst hj
      have := hgoes.rank_lt (hs.unsubscribed code locked ts hjoin) hs.trimming
      have := rank_worker_le (i := i) hm (by simp)
      rw [if_pos (.inr rfl), remaining, remaining]
      omega
    · exact hother (by simp) (by simpa using hj) (hgoes.frame.session i hj)

/-- At most 28 steps remain, and four per message in the queue. -/
theorem remaining_le (s : State (Mutex n) (Shared n) (Place n)) :
    remaining i s ≤ 4 * (s.data.session i).queue.length + 28 := by
  have hk : Worker.rank (s.place (.worker i)) ≤ 13 := by
    cases (s.place (.worker i) : Worker) <;> simp [Worker.rank]
  have hl : Delivery.rank (s.place (.delivery i)) ≤ 15 := by
    cases (s.place (.delivery i) : Delivery) <;> simp [Delivery.rank]
  rw [remaining]
  omega

end Settled

/-- A session is started, a signal comes, and `main` is about to join the worker. -/
def joinRun : List (Event (Thread 1) Input) :=
  List.replicate 3 (.run .main {}) ++ [.run .signal {}] ++ List.replicate 6 (.run .main {})

theorem stop_not_stuck_joinRun : ∃ s,
    (monitor {} fun _ : Fin 1 => 0).automaton.exec joinRun = some s ∧
      Main.stops 0 (s.place .main) = true ∧
      ∃ t, (t = .main ∨ t = .worker 0 ∨ t = .delivery 0) ∧
        ∃ input s', (monitor {} fun _ : Fin 1 => 0).step s (.run t input) = some s' :=
  have h := Automaton.reachable_of_exec
    (show (monitor {} fun _ : Fin 1 => 0).automaton.exec joinRun = some _ from rfl)
  ⟨_, rfl, rfl, stop_not_stuck h rfl⟩

end RtcmBridge.Nats2Ntrip.Process

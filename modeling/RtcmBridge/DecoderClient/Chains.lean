import RtcmBridge.DecoderClient.Basic

/-!
# Connection chains of `rtcm_decoder_ntrip`

Each handler starts at most one operation, so that the client drives a single
chain of them; with one exception. When `on_bytes` rejects a response it
schedules a reconnection, and returns to the handler of the read, which starts
the next read nevertheless, on the socket just closed. From then on there are
two chains. The second one is not given up: when this read fails, it schedules a
reconnection of its own, and destroys the timer of the first; and the first
enters `connect` at once, since the handler of the timer does not look at the
error code.

`Single` is the invariant of the runs without a rejected response, and
`singleChain_iff` shows that a run keeps to a single chain if and only if it is
one of these.
-/

namespace RtcmBridge.NtripDecoderClient

open Asio

variable {target : NtripDecoderTarget} {c : NtripDecoderClient} {e : Completion}

/-- At most one operation is pending, and `connect` was only ever entered again
    from a timer that expired. -/
def SingleChain (c : NtripDecoderClient) : Prop :=
  c.io.pending.length ≤ 1 ∧ ∀ ec ∈ c.reentries, ec = .ok

/-- `data` completes a header block that the client rejects, and `g_running` is
    set for the two loads that follow, in `reconnect` and in `read_loop`. -/
def RejectsBytes (c : NtripDecoderClient) (data : Bytes) : Prop :=
  c.headerDone = false ∧
    (∃ pos, find headersEndMark (c.responseHeader ++ data) = some pos ∧
      isOkResponse ((c.responseHeader ++ data).take (pos + 4)) = false) ∧
    ∀ n, c.loads = some n → 2 ≤ n

/-- `e` is the completion of a read that brings such bytes. -/
def Rejects (c : NtripDecoderClient) (e : Completion) : Prop :=
  (∃ op, c.io.pending[e.i]? = some op ∧ op.kind = .read) ∧ e.ec = .ok ∧ c.RejectsBytes e.data

/-! ### What the handlers start -/

/-- Nothing is pending. -/
structure Idle (c : NtripDecoderClient) : Prop where
  pending : c.io.pending = []
  reentries : ∀ ec ∈ c.reentries, ec = .ok

/-- At most one operation is pending, and it has not been cancelled. -/
structure Single (c : NtripDecoderClient) : Prop where
  pending : c.io.pending = [] ∨ ∃ op, op.cancelled = false ∧ c.io.pending = [op]
  reentries : ∀ ec ∈ c.reentries, ec = .ok

theorem Idle.single (h : Idle c) : Single c := ⟨.inl h.pending, h.reentries⟩

/-- With one operation pending, there is one chain. -/
theorem Single.singleChain (h : Single c) : SingleChain c := by
  refine ⟨?_, h.reentries⟩
  rcases h.pending with h | ⟨op, -, h⟩ <;> simp [h]

theorem idle_load (h : Idle c) : Idle c.load.2 := by
  obtain ⟨loads, hl⟩ := load_snd c
  rw [hl]
  exact ⟨h.pending, h.reentries⟩

theorem pending_cancel {io : Io} (h : io.pending = []) (ks : List Kind) :
    (io.cancel ks).pending = [] := by
  rw [Io.cancel, h, List.map_nil]

/-- With nothing pending, an operation may be started. -/
theorem single_start (h : ∀ ec ∈ c.reentries, ec = .ok) {io : Io} {op : Op}
    (hio : c.io = io.start op) (hidle : io.pending = []) (hop : op.cancelled = false) :
    Single c := by
  refine ⟨.inr ⟨op, hop, ?_⟩, h⟩
  rw [hio, Io.start, hidle, List.nil_append]

/-- From an idle client, `connect` starts one operation at most. -/
theorem single_connect (h : Idle c) : Single c.connect := by
  have hl := idle_load h
  rw [connect_eq]
  split_ifs
  · exact single_start hl.reentries rfl hl.pending rfl
  · exact hl.single

/-- So does `reconnect`. -/
theorem single_reconnect (h : Idle c) : Single c.reconnect := by
  have hl := idle_load (c := { c with io := c.io.socketClose })
    ⟨pending_cancel h.pending _, h.reentries⟩
  rw [reconnect_eq]
  split_ifs
  · exact single_start hl.reentries rfl (pending_cancel hl.pending _) rfl
  · exact hl.single

/-- So does `read_loop`. -/
theorem single_readLoop (h : Idle c) : Single c.readLoop := by
  have hl := idle_load h
  rw [readLoop_eq]
  split_ifs
  · exact single_start hl.reentries rfl hl.pending rfl
  · exact hl.single

/-- Without `g_running` nothing is started. -/
theorem readLoop_of_stopped (h : c.load.1 = false) : ∃ loads, c.readLoop = { c with loads } := by
  obtain ⟨loads, hl⟩ := load_snd c
  exact ⟨loads, by rw [readLoop_eq, if_neg (by rw [h]; exact Bool.false_ne_true), hl]⟩

/-- The bytes of a read start nothing, or reject the response. -/
theorem onBytes_cases (h : Idle c) (data : Bytes) :
    Idle (c.onBytes data) ∨
      ∃ c₀, Idle c₀ ∧ c₀.loads = c.loads ∧ c.onBytes data = c₀.reconnect ∧
        (c.RejectsBytes data ∨ ∃ n, c.loads = some n ∧ n < 2) := by
  rw [onBytes]
  split_ifs with hd
  · dsimp only
    split
    · exact .inl ⟨h.pending, h.reentries⟩
    · next pos hpos =>
      by_cases hok : isOkResponse ((c.responseHeader ++ data).take (pos + 4)) = true
      · rw [if_neg (by simp [hok])]
        left
        split_ifs <;> exact ⟨h.pending, h.reentries⟩
      · rw [if_pos (by simp [hok])]
        refine .inr ⟨{ c with responseHeader := c.responseHeader ++ data },
          ⟨h.pending, h.reentries⟩, rfl, rfl, ?_⟩
        by_cases hl : ∀ n, c.loads = some n → 2 ≤ n
        · exact .inl ⟨by simpa using hd, ⟨pos, hpos, by simpa using hok⟩, hl⟩
        · push Not at hl
          exact .inr hl
  · exact .inl ⟨h.pending, h.reentries⟩

/-- A read whose bytes are not rejected starts one operation at most. -/
theorem single_read (h : Idle c) {data : Bytes} (hr : ¬c.RejectsBytes data) :
    Single (c.onBytes data).readLoop := by
  rcases onBytes_cases h data with hi | ⟨c₀, hc₀, hloads, heq, hrej | ⟨n, hn, hlt⟩⟩
  · exact single_readLoop hi
  · exact absurd hrej hr
  · -- `g_running` is cleared before `read_loop` is reached.
    rw [heq]
    have hstop : (c₀.reconnect).load.1 = false := by
      rw [← hloads] at hn
      interval_cases n <;> simp [reconnect, load, hn]
    obtain ⟨loads, hl⟩ := readLoop_of_stopped hstop
    obtain ⟨h₁, h₂⟩ := single_reconnect hc₀
    rw [hl]
    exact ⟨h₁, h₂⟩

/-! ### Runs -/

/-- A handler that runs while nothing is pending starts at most one operation,
    unless it rejects a response. -/
theorem single_handler (h : Idle c) {kind : Kind} {ec : Ec} {data : Bytes}
    (hwait : kind = .wait → ec = .ok) (hread : kind = .read → ec = .ok → ¬c.RejectsBytes data) :
    Single (handler target c kind ec data) := by
  cases kind with
  | resolve =>
    rw [handler]
    split_ifs
    · exact single_reconnect h
    · exact single_start h.reentries rfl (pending_cancel h.pending _) rfl
  | connect =>
    rw [handler]
    split_ifs
    · exact single_reconnect h
    · exact single_start h.reentries rfl h.pending rfl
  | write =>
    rw [handler]
    split_ifs
    · exact single_reconnect h
    · exact single_readLoop h
  | read =>
    by_cases hec : ec = .ok
    · rw [handler, if_neg (not_not.2 hec)]
      exact single_read h (hread rfl hec)
    · -- A load of `g_running` comes before the one in `reconnect`.
      have hl := idle_load h
      rw [handler, if_pos hec]
      dsimp only
      split_ifs
      · exact single_reconnect hl
      · exact hl.single
  | wait =>
    refine single_connect ⟨h.pending, ?_⟩
    intro ec' hec
    rcases List.mem_append.1 hec with hec | hec
    · exact h.reentries _ hec
    · rw [List.mem_singleton.1 hec]
      exact hwait rfl

variable {loads : Option ℕ} {c' : NtripDecoderClient}

/-- The only pending operation completes, and its handler runs with nothing pending. -/
theorem step_cases (h : Single c) (hs : (automaton target loads).step c e = some c') :
    ∃ op, op.cancelled = false ∧ c.io.pending[e.i]? = some op ∧ op.admits e.ec = true ∧
      ∃ io : Io, io.pending = [] ∧ c' = handler target { c with io } op.kind e.ec e.data := by
  obtain ⟨⟨op, io⟩, hcomp, hc'⟩ := Option.map_eq_some_iff.1 hs
  obtain ⟨hi, hadm, rfl⟩ := Io.complete_eq_some_iff.1 hcomp
  rcases h.pending with hp | ⟨op', hc, hp⟩
  · simp [hp] at hi
  · have hzero : e.i = 0 := by
      by_contra hne
      rw [hp, List.getElem?_eq_none (by simp; omega)] at hi
      simp at hi
    have hop : op' = op := by simpa [hp, hzero] using hi
    exact ⟨op, hop ▸ hc, hi, hadm, _, by simp [hp, hzero], hc'.symm⟩

/-- A step that does not reject a response keeps to a single chain. -/
theorem single_step (h : Single c) (hr : ¬Rejects c e)
    (hs : (automaton target loads).step c e = some c') : Single c' := by
  obtain ⟨op, hc, hi, hadm, io, hio, rfl⟩ := step_cases h hs
  have hidle : Idle { c with io } := ⟨hio, h.reentries⟩
  refine single_handler hidle ?_ fun hk hec hrej => hr ⟨⟨op, hi, hk⟩, hec, hrej⟩
  intro hk
  exact Op.eq_ok_of_admits_wait hk hc hadm

/-- While `g_running` is set for two loads more, `reconnect` starts the timer,
    and `read_loop` the next read. -/
theorem pending_readLoop_reconnect {c₀ : NtripDecoderClient} (h : Idle c₀)
    (hl : ∀ n, c₀.loads = some n → 2 ≤ n) : c₀.reconnect.readLoop.io.pending.length = 2 := by
  have hp : (c₀.io.socketClose.timerCancel).pending = [] :=
    pending_cancel (pending_cancel h.pending _) _
  have hstart (io : Io) (op : Op) : (io.start op).pending.length = io.pending.length + 1 := by
    rw [Io.start, List.length_append, List.length_singleton]
  obtain ⟨l₁, hl₁, h₁⟩ := load_of_lt (c := { c₀ with io := c₀.io.socketClose }) hl
  obtain ⟨l₂, -, h₂⟩ := load_of_lt (c := { c₀ with
    io := c₀.io.socketClose.newTimerAsyncWait, loads := l₁, delayS := min (c₀.delayS * 2) 30 }) hl₁
  rw [reconnect_eq, h₁, if_pos rfl, readLoop_eq]
  dsimp only
  rw [h₂, if_pos rfl]
  change ((c₀.io.socketClose.timerCancel.start _).start _).pending.length = 2
  rw [hstart, hstart, hp, List.length_nil]

/-- A step that rejects a response leaves the chain doubled. -/
theorem two_pending_of_rejects (h : Single c) (hr : Rejects c e)
    (hs : (automaton target loads).step c e = some c') : c'.io.pending.length = 2 := by
  obtain ⟨op, -, hi, -, io, hio, rfl⟩ := step_cases h hs
  obtain ⟨⟨op', hi', hk⟩, hec, hd, ⟨pos, hpos, hrej⟩, hl⟩ := hr
  obtain rfl : op = op' := Option.some.inj (hi.symm.trans hi')
  rw [hk, hec]
  change (NtripDecoderClient.readLoop (onBytes { c with io } e.data)).io.pending.length = 2
  have hon : onBytes { c with io } e.data =
      reconnect { c with io, responseHeader := c.responseHeader ++ e.data } := by
    simp [onBytes, hd, hpos, hrej]
  rw [hon]
  exact pending_readLoop_reconnect ⟨hio, h.reentries⟩ hl

/-- **The client keeps to a single chain just as long as no response is
    rejected.** A run has at most one operation pending in each of its states,
    and never enters `connect` again but from a timer that expired, if and only
    if none of its reads completes a header block that the client rejects while
    `g_running` is set. -/
theorem singleChain_iff (es : List Completion) (c : NtripDecoderClient) :
    ((automaton target loads).Run (fun c _ => SingleChain c) es c ∧ SingleChain c) ↔
      (automaton target loads).Run (fun c e => ¬Rejects c e) es c := by
  refine Automaton.run_iff (J := Single) (single_connect ⟨rfl, by simp⟩)
    (fun _ h => h.singleChain) (fun _ _ _ h hr hs => single_step h hr hs)
    fun c e c' h hr hs hc => ?_
  -- The first step that rejects a response starts from a single chain.
  have := two_pending_of_rejects h (not_not.1 hr) hs
  have := hc.1
  omega

/-- A response is rejected, the read that follows fails, and its `reconnect`
    destroys the timer of the first. -/
def stormRun : List Completion :=
  [⟨0, .ok, []⟩, ⟨0, .ok, []⟩, ⟨0, .ok, []⟩, ⟨0, .ok, ascii "HTTP/1.1 401 Unauthorized\r\n\r\n"⟩,
    ⟨1, .failed, []⟩, ⟨0, .operationAborted, []⟩]

/-- After a rejected response two operations are pending, and `connect` is
    entered from a timer that did not expire. -/
theorem stormRun_doubles : ∃ c, (automaton {} none).exec stormRun = some c ∧
    c.io.pending.map Op.kind = [.wait, .resolve] ∧ c.reentries = [.operationAborted] ∧
    ¬SingleChain c :=
  ⟨_, rfl, rfl, rfl, fun h => absurd h.1 (by decide)⟩

end RtcmBridge.NtripDecoderClient

import RtcmBridge.NtripConnection.Basic

/-!
# What `ntrip2nats` forwards

The bytes a connection forwards are those after the header block it received,
if the response is accepted, and none otherwise (`bodyOf`), however the bytes
are cut into reads and however many connections came before; the session
publishes just these pieces, in their order.

While a connection is being read, the header buffer holds all it has received,
or the header block has been accepted (`Reading`); one read keeps this
(`read_cases`). Over a run, at most one operation is under way, and what it is
tells whether there is a connection to read from (`Ready`).
-/

namespace RtcmBridge

open Asio

/-- The bytes after the header block of a response that is accepted. -/
def bodyOf (s : Bytes) : Bytes :=
  match find headersEndMark s with
  | some k => if responseOk (s.take (k + 4)) then s.drop (k + 4) else []
  | none => []

theorem bodyOf_of_none {s : Bytes} (h : find headersEndMark s = none) : bodyOf s = [] := by
  rw [bodyOf, h]

/-- The body begins behind the header block, if that is accepted. -/
theorem bodyOf_of_some {s : Bytes} {k : ℕ} (h : find headersEndMark s = some k) :
    bodyOf s = if responseOk (s.take (k + 4)) then s.drop (k + 4) else [] := by
  rw [bodyOf, h]

/-- Once the header block is accepted, all that follows is body. -/
theorem bodyOf_append {s : Bytes} {k : ℕ} (h : find headersEndMark s = some k)
    (hok : responseOk (s.take (k + 4)) = true) (data : Bytes) :
    bodyOf (s ++ data) = bodyOf s ++ data := by
  have hle := find_mark_le h
  rw [bodyOf_of_some h, bodyOf_of_some (find_append h data), List.take_append_of_le_length hle,
    if_pos hok, if_pos hok, List.drop_append_of_le_length hle]

/-- A connection forwards the body of what it received. -/
def Transfer.Sound (t : Transfer) : Prop := t.forwarded.flatten = bodyOf t.received

namespace NtripConnection

variable (options : Options) {c : NtripConnection} {t : Transfer} {ts : List Transfer}

/-- The connection `t` is being read: its header block is not complete, and all
    it received is in the header buffer, or its header block is accepted. -/
def Reading (c : NtripConnection) (t : Transfer) : Prop :=
  (c.responseHeadersComplete = false ∧ find headersEndMark t.received = none ∧
      c.responseBuffer = t.received) ∨
    (c.responseHeadersComplete = true ∧ ∃ k, find headersEndMark t.received = some k ∧
      responseOk (t.received.take (k + 4)) = true)

/-! ### One read -/

/-- The connection `t` receives `data`, and passes on `pieces`. -/
structure ReadDone (c c' : NtripConnection) (t : Transfer) (ts : List Transfer) (data : Bytes)
    (pieces : List Bytes) : Prop where
  transfers : c'.transfers = ⟨t.received ++ data, t.forwarded ++ pieces⟩ :: ts
  session : c'.session = pieces.foldl (·.handleStream options.throughputLogEveryBytes) c.session
  flatten : bodyOf (t.received ++ data) = bodyOf t.received ++ pieces.flatten
  length_le : ∀ piece ∈ pieces, piece.length ≤ data.length
  next : (c'.io = c.io ∧ Reading c' ⟨t.received ++ data, t.forwarded ++ pieces⟩) ∨
    ((∃ k, find headersEndMark (t.received ++ data) = some k ∧
        responseOk ((t.received ++ data).take (k + 4)) = false) ∧
      ∃ c₀, c' = reconnect options c₀)

section Read

variable (ht : c.transfers = t :: ts) (data : Bytes)

include ht in
/-- What is received belongs to the newest connection. -/
theorem transfers_receive :
    (c.receive data).transfers = ⟨t.received ++ data, t.forwarded⟩ :: ts := by
  rw [receive, ht, List.modifyHead_cons]

include ht in
/-- What is consumed is forwarded on it. -/
theorem transfers_consume : (c.consume options data).transfers =
    ⟨t.received, t.forwarded ++ [data]⟩ :: ts := by
  rw [consume, ht, List.modifyHead_cons]

include ht

/-- A read after the header block: the bytes are forwarded. -/
theorem read_body (hc : c.responseHeadersComplete = true) {k : ℕ}
    (hk : find headersEndMark t.received = some k)
    (hok : responseOk (t.received.take (k + 4)) = true) (hd : data.length ≠ 0) :
    ReadDone options c ((c.receive data).handleStreamBytes options data) t ts data [data] := by
  have hstep : (c.receive data).handleStreamBytes options data =
      (c.receive data).consume options data := by
    rw [handleStreamBytes, if_neg hd,
      if_pos (show (c.receive data).responseHeadersComplete = true from hc)]
  rw [hstep]
  refine ⟨transfers_consume options (transfers_receive ht data) data, rfl, ?_, by simp, .inl ⟨rfl,
    .inr ⟨hc, k, find_append hk data, ?_⟩⟩⟩
  · rw [List.flatten_singleton, bodyOf_append hk hok]
  · rw [List.take_append_of_le_length (find_mark_le hk)]
    exact hok

/-- A read of the header block: it may complete it, and be the start of the body. -/
theorem read_header (hc : c.responseHeadersComplete = false)
    (hnone : find headersEndMark t.received = none) (hbuf : c.responseBuffer = t.received)
    (hd : data.length ≠ 0) :
    ∃ pieces, ReadDone options c ((c.receive data).handleStreamBytes options data) t ts data
      pieces := by
  have hrec := transfers_receive ht data
  have hc' : ¬(c.receive data).responseHeadersComplete = true := by
    change ¬c.responseHeadersComplete = true
    simp [hc]
  rw [handleStreamBytes, if_neg hd, if_neg hc']
  simp only [show (c.receive data).responseBuffer = t.received from hbuf]
  rcases hf : find headersEndMark (t.received ++ data) with _ | k
  · -- The header block is still incomplete.
    refine ⟨[], by simpa using hrec, rfl, ?_, by simp, .inl ⟨rfl, .inl ⟨hc, hf, rfl⟩⟩⟩
    rw [bodyOf_of_none hf, bodyOf_of_none hnone]
    rfl
  · dsimp only
    by_cases hok : responseOk ((t.received ++ data).take (k + 4)) = true
    · -- It is complete and accepted: what is behind it is forwarded.
      set rest := (t.received ++ data).drop (k + 4) with hrest
      rw [if_neg (by simp [hok])]
      have hbody : bodyOf (t.received ++ data) = rest := by rw [bodyOf_of_some hf, if_pos hok]
      have hle : rest.length ≤ data.length := by
        have := lt_of_find_append hnone hf
        rw [show headersEndMark.length = 4 from rfl] at this
        rw [hrest, List.length_drop, List.length_append]
        omega
      by_cases hlt : k + 4 < (t.received ++ data).length
      · rw [if_pos hlt]
        refine ⟨[rest], ?_, rfl, ?_, by simpa using hle, .inl ⟨rfl, .inr ⟨rfl, k, hf, hok⟩⟩⟩
        · exact transfers_consume options (c := { c.receive data with .. }) hrec rest
        · rw [hbody, bodyOf_of_none hnone, List.flatten_singleton, List.nil_append]
      · rw [if_neg hlt]
        refine ⟨[], ?_, rfl, ?_, by simp, .inl ⟨rfl, .inr ⟨rfl, k, hf, hok⟩⟩⟩
        · rw [List.append_nil]
          exact hrec
        · rw [hbody, bodyOf_of_none hnone, List.flatten_nil, List.nil_append]
          exact List.drop_eq_nil_of_le (not_lt.1 hlt)
    · -- It is complete and rejected: nothing is.
      rw [if_pos (by simp [hok])]
      refine ⟨[], ?_, rfl, ?_, by simp, .inr ⟨⟨k, hf, by simpa using hok⟩, _, rfl⟩⟩
      · rw [List.append_nil]
        exact hrec
      · rw [bodyOf_of_some hf, if_neg hok, bodyOf_of_none hnone]
        rfl

end Read

/-- One read of a connection. -/
theorem read_cases (hr : Reading c t) (ht : c.transfers = t :: ts) (data : Bytes) :
    ∃ pieces, ReadDone options c ((c.receive data).handleStreamBytes options data) t ts data
      pieces := by
  by_cases hd : data.length = 0
  · obtain rfl := List.eq_nil_of_length_eq_zero hd
    have hstep : (c.receive []).handleStreamBytes options [] = c.receive [] := if_pos rfl
    rw [hstep]
    refine ⟨[], ?_, rfl, ?_, by simp, .inl ⟨rfl, ?_⟩⟩
    · simpa using transfers_receive ht []
    · simp
    · simpa [Reading, receive] using hr
  · rcases hr with ⟨hc, hnone, hbuf⟩ | ⟨hc, k, hk, hok⟩
    · exact read_header options ht data hc hnone hbuf hd
    · exact ⟨[data], read_body options ht data hc hk hok hd⟩

/-! ### All reads of a connection -/

variable (source : NtripSource) (evpEncodeBlock : Bytes → Option Bytes)

/-- The reads of a connection, one after the other. -/
def onReads (c : NtripConnection) (reads : List Bytes) : NtripConnection :=
  reads.foldl (fun c data => handler options source evpEncodeBlock c .read .ok data) c

/-- If the response is accepted, the session publishes its body in pieces that
    are no longer than the reads. -/
theorem published_onReads (reads : List Bytes) (hr : Reading c t) (ht : c.transfers = t :: ts)
    (hacc : ∀ k, find headersEndMark (t.received ++ reads.flatten) = some k →
      responseOk ((t.received ++ reads.flatten).take (k + 4)) = true) :
    ∃ pieces : List Bytes, (c.onReads options source evpEncodeBlock reads).session.published =
        c.session.published ++ pieces.map Ntrip2Nats.StreamSession.publish ∧
      bodyOf (t.received ++ reads.flatten) = bodyOf t.received ++ pieces.flatten ∧
      ∀ piece ∈ pieces, ∃ data ∈ reads, piece.length ≤ data.length := by
  induction reads generalizing c t with
  | nil => exact ⟨[], by simp [onReads], by simp, by simp⟩
  | cons data reads ih =>
    obtain ⟨pieces, h⟩ := read_cases options hr ht data
    rw [List.flatten_cons, ← List.append_assoc] at hacc
    have hr' : Reading ((c.receive data).handleStreamBytes options data)
        ⟨t.received ++ data, t.forwarded ++ pieces⟩ := by
      rcases h.next with ⟨-, hr'⟩ | ⟨⟨k, hk, hrej⟩, -⟩
      · exact hr'
      -- A header block that is rejected now would be the one of the whole response.
      · have := hacc k (find_append hk _)
        rw [List.take_append_of_le_length (find_mark_le hk), hrej] at this
        exact absurd this (by simp)
    obtain ⟨pieces', hpub, hbody, hlen⟩ :=
      ih (c := ((c.receive data).handleStreamBytes options data).read) hr' h.transfers hacc
    refine ⟨pieces ++ pieces', ?_, ?_, ?_⟩
    · refine hpub.trans ?_
      change ((c.receive data).handleStreamBytes options data).session.published ++ _ = _
      rw [h.session, Ntrip2Nats.StreamSession.published_foldl, List.map_append, List.append_assoc]
    · rw [List.flatten_cons, ← List.append_assoc, hbody, h.flatten, List.flatten_append,
        List.append_assoc]
    · intro piece hp
      rcases List.mem_append.1 hp with hp | hp
      · exact ⟨data, List.mem_cons_self .., h.length_le piece hp⟩
      · obtain ⟨d, hd, hle⟩ := hlen piece hp
        exact ⟨d, List.mem_cons_of_mem _ hd, hle⟩

/-! ### Whole runs -/

/-- What the operation under way relies on when it succeeds. -/
def Ready (c : NtripConnection) : Kind → Prop
  | .resolve | .connect => c.responseHeadersComplete = false ∧ c.responseBuffer = []
  | .write | .read => ∃ t ts, c.transfers = t :: ts ∧ Reading c t
  | .wait => True

/-- What has been recorded is right. -/
structure Recorded (c : NtripConnection) : Prop where
  sound : ∀ t ∈ c.transfers, t.Sound
  published : c.session.published =
    (c.transfers.reverse.flatMap Transfer.forwarded).map Ntrip2Nats.StreamSession.publish

/-- The invariant of the connection. -/
structure Inv (c : NtripConnection) : Prop where
  recorded : Recorded c
  atMostOne : c.io.liveOps.length ≤ 1
  ready : ∀ op ∈ c.io.liveOps, Ready c op.kind

/-- With nothing under way, an operation may be started that is ready to be. -/
theorem inv_start (hrec : Recorded c) {io : Io} {op : Op} (hio : c.io = io.start op)
    (hidle : io.liveOps = []) (hready : Ready c op.kind) : Inv c := by
  have hlive : c.io.liveOps = if op.live then [op] else [] := by
    rw [hio, Io.liveOps_start, hidle, List.nil_append]
  refine ⟨hrec, ?_, ?_⟩
  · rw [hlive]
    split_ifs <;> simp
  · rw [hlive]
    intro op' hop
    split_ifs at hop
    · rw [List.mem_singleton.1 hop]
      exact hready
    · simp at hop

theorem recorded_reconnect (hrec : Recorded c) : Recorded (c.reconnect options) :=
  ⟨hrec.sound, hrec.published⟩

theorem liveOps_reconnect (c : NtripConnection) :
    (c.reconnect options).io.liveOps = [{ kind := .wait }] := by
  change (Io.timerCancel _ |>.start { kind := .wait }).liveOps = _
  rw [Io.liveOps_start, Io.timerCancel, Io.liveOps_cancel, Io.liveOps_cancel_all]
  rfl

/-- After `reconnect`, only its wait is under way. -/
theorem inv_reconnect (hrec : Recorded c) : Inv (c.reconnect options) := by
  refine ⟨recorded_reconnect options hrec, ?_, ?_⟩
  · rw [liveOps_reconnect, List.length_singleton]
  · rw [liveOps_reconnect]
    rintro op hop
    rw [List.mem_singleton.1 hop]
    trivial

/-- After a rejection the next read is started on a closed socket, and not under way. -/
theorem inv_read_reconnect {c₀ : NtripConnection} (hrec : Recorded (c₀.reconnect options)) :
    Inv (c₀.reconnect options).read := by
  have hlive : (c₀.reconnect options).read.io.liveOps = [{ kind := .wait }] := by
    change ((c₀.reconnect options).io.start _).liveOps = _
    rw [Io.liveOps_start, liveOps_reconnect]
    rfl
  refine ⟨⟨hrec.sound, hrec.published⟩, by rw [hlive, List.length_singleton], ?_⟩
  rw [hlive]
  rintro op hop
  rw [List.mem_singleton.1 hop]
  trivial

variable {source : NtripSource} {evpEncodeBlock : Bytes → Option Bytes}

/-- An accepted read adds its pieces to the record. -/
theorem recorded_read (hrec : Recorded c) (ht : c.transfers = t :: ts) {c' : NtripConnection}
    {data : Bytes} {pieces : List Bytes} (h : ReadDone options c c' t ts data pieces) :
    Recorded c' := by
  obtain ⟨hsound, hpub⟩ := hrec
  rw [ht] at hsound hpub
  refine ⟨?_, ?_⟩
  · rw [h.transfers]
    rintro t' (_ | ⟨_, hmem⟩)
    · change (t.forwarded ++ pieces).flatten = bodyOf (t.received ++ data)
      rw [List.flatten_append, h.flatten, hsound t (List.mem_cons_self ..)]
    · exact hsound t' (List.mem_cons_of_mem _ hmem)
  · rw [h.session, h.transfers, Ntrip2Nats.StreamSession.published_foldl, hpub]
    simp

/-- An aborted operation changes nothing. -/
theorem handler_aborted (kind : Kind) (data : Bytes) :
    handler options source evpEncodeBlock c kind .operationAborted data = c := if_pos rfl

/-- All failures are answered by `reconnect`. -/
theorem handler_failed {kind : Kind} (h : kind ≠ .wait) (data : Bytes) :
    handler options source evpEncodeBlock c kind .failed data = c.reconnect options := by
  cases kind <;> first | rfl | exact absurd rfl h

/-- The handlers of operations that succeed keep the invariant. -/
theorem inv_ok (hrec : Recorded c) (hidle : c.io.liveOps = []) {kind : Kind}
    (hready : Ready c kind) (data : Bytes) :
    Inv (handler options source evpEncodeBlock c kind .ok data) := by
  cases kind with
  | resolve =>
    -- The connect begins with a close, which cancels what there is.
    have hclosed : Io.liveOps { c.io.socketClose with isOpen := true } = [] := by
      change (c.io.cancel socketKinds).liveOps = []
      rw [Io.liveOps_cancel, hidle, List.filter_nil]
    exact inv_start ⟨hrec.sound, hrec.published⟩ rfl hclosed hready
  | connect =>
    -- A connection begins, which has neither received nor forwarded anything.
    have hrec' : Recorded c.establish := by
      refine ⟨?_, ?_⟩
      · rintro t (_ | ⟨_, hmem⟩)
        · rfl
        · exact hrec.sound t hmem
      · change c.session.published = ((({} : Transfer) :: c.transfers).reverse.flatMap _).map _
        rw [hrec.published]
        simp
    change Inv (c.establish.sendRequest options source evpEncodeBlock)
    rw [sendRequest]
    split_ifs
    · exact inv_reconnect options hrec'
    · exact inv_start ⟨hrec'.sound, hrec'.published⟩ rfl hidle
        ⟨{}, c.transfers, rfl, .inl ⟨hready.1, by decide, hready.2⟩⟩
  | write => exact inv_start ⟨hrec.sound, hrec.published⟩ rfl hidle hready
  | read =>
    obtain ⟨t, ts, ht, hr⟩ := hready
    obtain ⟨pieces, h⟩ := read_cases options hr ht data
    have hrec' := recorded_read options hrec ht h
    change Inv (read ((c.receive data).handleStreamBytes options data))
    generalize (c.receive data).handleStreamBytes options data = c' at h hrec'
    -- The next read, or `reconnect` if the header block is rejected.
    rcases h.next with ⟨hio, hr'⟩ | ⟨-, c₀, rfl⟩
    · exact inv_start ⟨hrec'.sound, hrec'.published⟩ rfl (hio ▸ hidle) ⟨_, _, h.transfers, hr'⟩
    · exact inv_read_reconnect options hrec'
  | wait => exact inv_start ⟨hrec.sound, hrec.published⟩ rfl hidle ⟨rfl, rfl⟩

/-- The handlers keep the invariant. -/
theorem inv_step {e : Completion} {c' : NtripConnection} (hinv : Inv c)
    (h : (automaton options source evpEncodeBlock).step c e = some c') : Inv c' := by
  obtain ⟨⟨op, io⟩, hcomp, rfl⟩ := Option.map_eq_some_iff.1 h
  obtain ⟨-, hadm, -⟩ := Io.complete_eq_some_iff.1 hcomp
  obtain ⟨as, bs, hbefore, hafter⟩ := Io.liveOps_complete hcomp
  obtain ⟨⟨hsound, hpub⟩, hone, hready⟩ := hinv
  dsimp only
  rcases hec : e.ec with _ | _ | _
  · -- It was the one under way.
    rw [hec] at hadm
    rw [if_pos (Op.live_of_admits_ok hadm)] at hbefore
    rw [hbefore] at hone hready
    have hnil : as = [] ∧ bs = [] := by
      simp only [List.length_append, List.length_singleton] at hone
      exact ⟨List.length_eq_zero_iff.1 (by omega), List.length_eq_zero_iff.1 (by omega)⟩
    refine inv_ok options (c := { c with io }) ⟨hsound, hpub⟩ ?_ (hready op (by simp)) e.data
    rw [hafter, hnil.1, hnil.2, List.nil_append]
  · -- It was cancelled: what is under way stays.
    rw [hec] at hadm
    have hlive : io.liveOps = c.io.liveOps := by
      rw [hbefore, hafter, Op.not_live_of_admits_aborted hadm]
      simp
    rw [handler_aborted]
    exact ⟨⟨hsound, hpub⟩, by rw [hlive]; exact hone, by rw [hlive]; exact hready⟩
  · -- It failed, under way or not: `reconnect` cancels all the others.
    rw [hec] at hadm
    have hrec : Recorded { c with io } := ⟨hsound, hpub⟩
    have := Op.kind_ne_wait_of_admits_failed hadm
    rw [handler_failed options this]
    exact inv_reconnect options hrec

/-- The invariant holds throughout. -/
theorem inv_of_reachable (h : (automaton options source evpEncodeBlock).Reachable c) : Inv c :=
  h.invariant (inv_start ⟨by simp [automaton, connect], rfl⟩ rfl rfl ⟨rfl, rfl⟩)
    fun _ _ _ hinv hs => inv_step options hinv hs

/-- A run whose first connection is rejected, and whose second one is accepted
    by a header block that comes in two reads, the second with two bytes of body. -/
def retryRun : List Completion :=
  [⟨0, .ok, []⟩, ⟨0, .ok, []⟩, ⟨0, .ok, []⟩, ⟨0, .ok, ascii "HTTP/1.1 401 Unauthorized\r\n\r\n"⟩,
    ⟨1, .failed, []⟩, ⟨0, .operationAborted, []⟩, ⟨0, .ok, []⟩, ⟨0, .ok, []⟩, ⟨0, .ok, []⟩,
    ⟨0, .ok, []⟩, ⟨0, .ok, ascii "ICY 200 OK\r\n\r"⟩, ⟨0, .ok, ascii "\nab"⟩, ⟨0, .ok, ascii "c"⟩]

end NtripConnection

end RtcmBridge

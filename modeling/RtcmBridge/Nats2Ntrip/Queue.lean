import RtcmBridge.MachineInt
import RtcmBridge.Nats2Ntrip.Session

/-!
# The upload queue

`queuedBytes` is the size of the queue, which stays within its bound
(`Accounted`), and no subtraction from it wraps around. `trim_spec` says what a
trim takes away: the shortest part of the front that brings the queue back
within the bound.
-/

namespace RtcmBridge.Nats2Ntrip.StreamSession

variable {options : Options} {s s' : StreamSession}

/-- The size of some messages. -/
def bytesOf (ps : List Payload) : ℕ := (ps.map fun p => p.data.length).sum

@[simp]
theorem bytesOf_nil : bytesOf [] = 0 := rfl

@[simp]
theorem bytesOf_cons (p : Payload) (ps : List Payload) :
    bytesOf (p :: ps) = p.data.length + bytesOf ps := by
  rw [bytesOf, List.map_cons, List.sum_cons]
  rfl

/-- The bytes of two queues add up. -/
@[simp]
theorem bytesOf_append (ps qs : List Payload) : bytesOf (ps ++ qs) = bytesOf ps + bytesOf qs := by
  rw [bytesOf, List.map_append, List.sum_append]
  rfl

/-- The size of a message is its length, below `2 ^ 64`. -/
theorem toNat_size {p : Payload} (h : p.data.length < 2 ^ 64) : p.size.toNat = p.data.length := by
  rw [Payload.size, UInt64.toNat_ofNat_of_lt' h]

/-- The bound is far from the end of a `size_t`. -/
theorem toNat_maxQueueBytes_lt (options : Options) :
    (maxQueueBytes options).toNat < 2 ^ 33 := by
  have hmax := toInt_max 1 options.throughputLogEveryBytes
  have h₁ : (1 : Int32).toInt = 1 := rfl
  have h₂ := Int32.toInt_lt (max 1 options.throughputLogEveryBytes)
  have hnat := toNat_toUInt64 (a := max 1 options.throughputLogEveryBytes) (by omega)
  have hmul : ((max 1 options.throughputLogEveryBytes).toInt64.toUInt64 * 4).toNat =
      (max 1 options.throughputLogEveryBytes).toInt64.toUInt64.toNat * 4 := by
    rw [UInt64.toNat_mul, show (4 : UInt64).toNat = 4 from rfl]
    omega
  rw [maxQueueBytes, UInt64.toNat_max, hmul, show ((256 * 1024 : UInt64)).toNat = 262144 from rfl]
  omega

/-! ### Trimming -/

/-- What the counters say about the queue `ps`. -/
structure Counted (s : StreamSession) (ps : List Payload) : Prop where
  bytes : s.queuedBytes.toNat = bytesOf ps
  small : bytesOf ps < 2 ^ 64
  noUnderflow : s.underflow = false

/-- Taking the front message away keeps the count. -/
theorem Counted.sub {p : Payload} {ps : List Payload} (h : Counted s (p :: ps)) :
    Counted (s.subQueuedBytes p.size) ps := by
  obtain ⟨hb, hs, hu⟩ := h
  rw [bytesOf_cons] at hb hs
  have hsize : p.size.toNat = p.data.length := toNat_size (by omega)
  have hle : p.size.toNat ≤ s.queuedBytes.toNat := by omega
  refine ⟨?_, by omega, ?_⟩
  · change (s.queuedBytes - p.size).toNat = _
    rw [toNat_sub hle]
    omega
  · change (s.underflow || decide (s.queuedBytes < p.size)) = false
    rw [hu, Bool.false_or, decide_eq_false_iff_not, UInt64.lt_iff_toNat_lt]
    omega

/-- A trim takes messages off the front, and nothing else of what is read here. -/
theorem trim_eq (options : Options) (ps : List Payload) (s : StreamSession) :
    ∃ k queuedBytes droppedBytes underflow, k ≤ ps.length ∧ trim options ps s =
      { s with
        queue := ps.drop k, log := s.log ++ (ps.take k).map .trimmed,
        queuedBytes, droppedBytes, underflow } := by
  induction ps generalizing s with
  | nil => exact ⟨0, s.queuedBytes, s.droppedBytes, s.underflow, le_rfl, by simp [trim]⟩
  | cons p ps ih =>
    rw [trim]
    split_ifs
    · obtain ⟨k, qb, db, u, hk, h⟩ := ih (({ s with
        droppedBytes := s.droppedBytes + p.size }.subQueuedBytes p.size).record (.trimmed p))
      refine ⟨k + 1, qb, db, u, by simpa using hk, h.trans ?_⟩
      simp [record, subQueuedBytes]
    · exact ⟨0, s.queuedBytes, s.droppedBytes, s.underflow, Nat.zero_le _, by simp⟩

/-- A trim takes away the shortest part of the front that brings the queue back
    within the bound, and keeps count. -/
theorem trim_spec (ps : List Payload) (s : StreamSession) (h : Counted s ps) :
    ∃ k, (trim options ps s).queue = ps.drop k ∧ Counted (trim options ps s) (ps.drop k) ∧
      bytesOf (ps.drop k) ≤ (maxQueueBytes options).toNat ∧
      ∀ j < k, (maxQueueBytes options).toNat < bytesOf (ps.drop j) := by
  induction ps generalizing s with
  | nil => exact ⟨0, rfl, ⟨h.bytes, h.small, h.noUnderflow⟩, Nat.zero_le _, by simp⟩
  | cons p ps ih =>
    have hb := h.bytes
    rw [trim]
    split_ifs with hgt
    · rw [gt_iff_lt, UInt64.lt_iff_toNat_lt, hb] at hgt
      obtain ⟨h₁, h₂, h₃⟩ := h.sub
      obtain ⟨k, hq, hc, hle, hmin⟩ := ih (({ s with
        droppedBytes := s.droppedBytes + p.size }.subQueuedBytes p.size).record (.trimmed p))
        ⟨h₁, h₂, h₃⟩
      refine ⟨k + 1, by simpa using hq, by simpa using hc, by simpa using hle, ?_⟩
      rintro (_ | j) hj
      · simpa using hgt
      · simpa using hmin j (by omega)
    · rw [gt_iff_lt, UInt64.lt_iff_toNat_lt, hb, not_lt] at hgt
      exact ⟨0, rfl, ⟨h.bytes, h.small, h.noUnderflow⟩, hgt, by simp⟩

/-! ### The invariant -/

/-- The counter is the size of the queue, within the bound, and has not wrapped around. -/
structure Accounted (options : Options) (s : StreamSession) : Prop where
  counted : Counted s s.queue
  bound : bytesOf s.queue ≤ (maxQueueBytes options).toNat

/-- What an arrival leaves of the queue and itself: the longest part of the back
    that is within the bound. -/
theorem enqueue_spec (h : Accounted options s) {data : Bytes} (hlen : data.length < 2 ^ 31) :
    ∃ k, (s.enqueue options data).queue = (s.queue ++ [s.payload data]).drop k ∧
      Accounted options (s.enqueue options data) ∧
      ∀ j < k, (maxQueueBytes options).toNat < bytesOf ((s.queue ++ [s.payload data]).drop j) := by
  have hmax := toNat_maxQueueBytes_lt options
  have hbound := h.bound
  have hlen' : (s.payload data).data.length = data.length := rfl
  have hsize : (s.payload data).size.toNat = data.length := toNat_size (by omega)
  -- The bound and one message more do not reach 2 ^ 64.
  have hcount : Counted (s.push data) (s.queue ++ [s.payload data]) := by
    have hb := h.counted.bytes
    refine ⟨?_, ?_, h.counted.noUnderflow⟩
    · change (s.queuedBytes + (s.payload data).size).toNat = _
      rw [toNat_add (by omega), bytesOf_append, bytesOf_cons, bytesOf_nil, hb, hsize, hlen',
        Nat.add_zero]
    · rw [bytesOf_append, bytesOf_cons, bytesOf_nil]
      omega
  obtain ⟨k, hq, hc, hle, hmin⟩ := trim_spec _ (s.push data) hcount
  rw [← hq] at hc hle
  change Counted ((s.push data).trimQueueLocked options) _ at hc
  change ((s.push data).trimQueueLocked options).queue = _ at hq
  refine ⟨k, ?_, ?_, hmin⟩
  · rw [← hq]
    rw [enqueue]
    split_ifs <;> rfl
  · rw [enqueue]
    split_ifs
    · exact ⟨⟨hc.bytes, hc.small, hc.noUnderflow⟩, hle⟩
    · exact ⟨hc, hle⟩

/-- A step keeps the queue accounted. -/
theorem accounted_move (h : Accounted options s) (hm : Move options s s') :
    Accounted options s' := by
  obtain ⟨⟨hbytes, hsmall, hunder⟩, hbound⟩ := h
  cases hm with
  | arrive data hlen =>
    obtain ⟨-, -, hacc, -⟩ := enqueue_spec ⟨⟨hbytes, hsmall, hunder⟩, hbound⟩ hlen
    exact hacc
  | pop hpc p ps hq =>
    -- The message popped is one that was counted.
    rw [hq] at hbytes hsmall hbound
    have hsub := Counted.sub (s := { s with queue := ps, pc := .writing p })
      ⟨hbytes, hsmall, hunder⟩
    rw [bytesOf_cons] at hbound
    exact ⟨hsub, by show bytesOf ps ≤ _; omega⟩
  | clear hpc =>
    rw [clearQueueLocked]
    split_ifs with hq
    · exact ⟨⟨hbytes, hsmall, hunder⟩, hbound⟩
    · exact ⟨⟨rfl, by show 0 < 2 ^ 64; omega, hunder⟩, Nat.zero_le _⟩
  | _ => exact ⟨⟨hbytes, hsmall, hunder⟩, hbound⟩

theorem accounted_of_reachable {hash : UInt64} (h : (automaton options hash).Reachable s) :
    Accounted options s :=
  invariant h ⟨⟨rfl, by simp [automaton], rfl⟩, Nat.zero_le _⟩
    fun _ _ hs hm => accounted_move hs hm

/-- **The queue is accounted for and bounded.** In every reachable state the
    counter is the size of the queue and within the bound, and none of the
    subtractions from it has wrapped around. A message that arrives then has the
    shortest part of the front dropped that brings the queue back within the
    bound; it is itself kept if it is within the bound. -/
theorem queue_accounted {hash : UInt64} (h : (automaton options hash).Reachable s) :
    s.queuedBytes.toNat = bytesOf s.queue ∧ s.queuedBytes ≤ maxQueueBytes options ∧
      s.underflow = false ∧
      ∀ data : Bytes, data.length < 2 ^ 31 →
        ∃ k, (s.enqueue options data).queue = (s.queue ++ [s.payload data]).drop k ∧
          bytesOf ((s.queue ++ [s.payload data]).drop k) ≤ (maxQueueBytes options).toNat ∧
          (∀ j < k, (maxQueueBytes options).toNat <
            bytesOf ((s.queue ++ [s.payload data]).drop j)) ∧
          (data.length ≤ (maxQueueBytes options).toNat →
            s.payload data ∈ (s.enqueue options data).queue) := by
  have hacc : Accounted options s :=
    invariant h ⟨⟨rfl, by simp [automaton], rfl⟩, Nat.zero_le _⟩
      fun _ _ hs hm => accounted_move hs hm
  refine ⟨hacc.counted.bytes, ?_, hacc.counted.noUnderflow, fun data hlen => ?_⟩
  · rw [UInt64.le_iff_toNat_le, hacc.counted.bytes]
    exact hacc.bound
  · obtain ⟨k, hq, hacc', hmin⟩ := enqueue_spec hacc hlen
    refine ⟨k, hq, hq ▸ hacc'.bound, hmin, fun hfits => ?_⟩
    rw [hq]
    have hk : k ≤ s.queue.length := by
      -- The whole queue before it has been dropped at the latest, and that is enough.
      by_contra hlt
      have := hmin s.queue.length (by omega)
      rw [List.drop_left, bytesOf_cons, bytesOf_nil] at this
      exact absurd this (by show ¬_ < data.length + 0; omega)
    rw [List.drop_append_of_le_length hk]
    exact List.mem_append_right _ (List.mem_singleton_self _)

/-- A message as large as the bound fills the queue, and the next message drops it. -/
theorem queue_accounted_fullQueue : ∃ (data : Bytes) (s : StreamSession), data.length = 409600 ∧
    (automaton {} 0).exec [.arrive data] = some s ∧ s.queue = [⟨0, data⟩] ∧
    s.queuedBytes.toNat = (maxQueueBytes {}).toNat ∧ s.underflow = false ∧
    (s.enqueue {} [7]).queue = [s.payload [7]] := by
  obtain ⟨data, hlen⟩ : ∃ data : Bytes, data.length = 409600 :=
    ⟨List.replicate 409600 0, List.length_replicate⟩
  have hfull : bytesOf [⟨0, data⟩] = 409600 := by simp [hlen]
  have hmax : (maxQueueBytes {}).toNat = 409600 := rfl
  have hexec : (automaton {} 0).exec [.arrive data] =
      some ((automaton {} 0).init.enqueue {} data) := by
    simp [Automaton.exec, automaton, step, onNatsMsg, hlen]
  have hr := Automaton.reachable_of_exec hexec
  set s := (automaton {} 0).init.enqueue {} data
  -- The first message is just within the bound.
  have hqueue : s.queue = [⟨0, data⟩] := by
    have hinit : (automaton {} 0).Reachable (automaton {} 0).init := ⟨[], .init⟩
    obtain ⟨-, -, -, hspec⟩ := queue_accounted hinit
    obtain ⟨k, hk, -, hmin, -⟩ := hspec data (by omega)
    rcases k with _ | k
    · exact hk
    · have := hmin 0 (Nat.succ_pos k)
      rw [hmax] at this
      exact absurd this (hfull ▸ lt_irrefl _)
  obtain ⟨hbytes, -, hunderflow, hspec⟩ := queue_accounted hr
  refine ⟨data, s, hlen, hexec, hqueue, ?_, hunderflow, ?_⟩
  · rw [hbytes, hqueue, hfull, hmax]
  · obtain ⟨k, hk, hle, hmin, -⟩ := hspec [7] (by decide)
    rw [hqueue] at hk hle hmin
    have hsize : bytesOf ([⟨0, data⟩] ++ [s.payload [7]]) = 409601 := by
      rw [bytesOf_append, hfull]
      rfl
    rcases k with _ | _ | k
    · rw [List.drop_zero, hsize, hmax] at hle
      omega
    · exact hk
    · have := hmin 1 (by omega)
      have hlast : bytesOf [s.payload [7]] = 1 := rfl
      rw [hmax, List.singleton_append, List.drop_one, List.tail_cons, hlast] at this
      omega

end RtcmBridge.Nats2Ntrip.StreamSession

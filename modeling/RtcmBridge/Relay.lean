import RtcmBridge.Refinement

/-!
# Relays

A producer puts out messages, which get to a consumer in their order, or are lost
(`relay`). What the producer has put out is read off its state, and only grows (`Grows`).

Whatever the two do, and however their steps are interleaved, what has been delivered, and
then what is under way, is a part of what has been put out, in its order
(`delivered_sublist`); it is all of it if nothing has been lost (`delivered_eq`).
-/

namespace RtcmBridge

/-- A producer, the messages under way, a consumer, and what has been delivered to it. -/
structure Relay (σ μ τ : Type*) where
  producer : σ
  channel : List μ := []
  consumer : τ
  delivered : List μ := []

namespace Relay

variable {σ μ τ ε δ : Type*}

/-- The producer takes a step, the first message is delivered, a message is lost, or the
    consumer takes a step of its own. -/
inductive Event (ε δ : Type*)
  | produce (e : ε)
  | deliver
  | lose (i : ℕ)
  | consume (d : δ)
  deriving DecidableEq

/-- A message is lost. -/
def Event.isLoss : Event ε δ → Bool
  | lose _ => true
  | _ => false

variable (A : Automaton σ ε) (out : σ → List μ) (B : Automaton τ δ) (receive : μ → δ)
  (own : δ → Bool)

/-- `A` puts out messages, those in `out`, which `B` receives. The steps that `B` takes of its
    own are those with `own`. -/
def relay : Automaton (Relay σ μ τ) (Event ε δ) where
  init := { producer := A.init, consumer := B.init }
  step r e :=
    match e with
    | .produce e => (A.step r.producer e).map fun producer => { r with
        producer
        channel := r.channel ++ (out producer).drop (out r.producer).length }
    | .deliver =>
      match r.channel with
      | [] => none
      | m :: ms => (B.step r.consumer (receive m)).map fun consumer =>
          { r with channel := ms, consumer, delivered := r.delivered ++ [m] }
    | .lose i =>
      if i < r.channel.length then some { r with channel := r.channel.eraseIdx i } else none
    | .consume d =>
      if own d then (B.step r.consumer d).map fun consumer => { r with consumer } else none

/-- What has been put out only grows. -/
structure Grows (A : Automaton σ ε) (out : σ → List μ) : Prop where
  init : out A.init = []
  step : ∀ {s e s'}, A.Reachable s → A.step s e = some s' → out s <+: out s'

variable {A out B receive own} {r r' : Relay σ μ τ} {e : Event ε δ}

/-- What a step of a relay does. -/
inductive Move (A : Automaton σ ε) (out : σ → List μ) (B : Automaton τ δ) (receive : μ → δ)
    (own : δ → Bool) (r : Relay σ μ τ) : Event ε δ → Relay σ μ τ → Prop
  | produce (e : ε) (producer : σ) (h : A.step r.producer e = some producer) :
      Move A out B receive own r (.produce e) { r with
        producer, channel := r.channel ++ (out producer).drop (out r.producer).length }
  | deliver (m : μ) (ms : List μ) (consumer : τ) (hm : r.channel = m :: ms)
      (h : B.step r.consumer (receive m) = some consumer) :
      Move A out B receive own r .deliver
        { r with channel := ms, consumer, delivered := r.delivered ++ [m] }
  | lose (i : ℕ) : Move A out B receive own r (.lose i) { r with channel := r.channel.eraseIdx i }
  | consume (d : δ) (consumer : τ) (hd : own d = true) (h : B.step r.consumer d = some consumer) :
      Move A out B receive own r (.consume d) { r with consumer }

/-- A step of the relay is one of its moves. -/
theorem move_of_step (h : (relay A out B receive own).step r e = some r') :
    Move A out B receive own r e r' := by
  cases e with
  | produce e =>
    obtain ⟨producer, hs, rfl⟩ := Option.map_eq_some_iff.1 h
    exact .produce e producer hs
  | deliver =>
    cases hc : r.channel with
    | nil => simp [relay, hc] at h
    | cons m ms =>
      simp only [relay, hc] at h
      obtain ⟨consumer, hs, rfl⟩ := Option.map_eq_some_iff.1 h
      exact .deliver m ms consumer hc hs
  | lose i =>
    obtain ⟨-, heq⟩ := Option.ite_none_right_eq_some.1 h
    cases heq
    exact .lose i
  | consume d =>
    obtain ⟨hd, heq⟩ := Option.ite_none_right_eq_some.1 h
    obtain ⟨consumer, hs, rfl⟩ := Option.map_eq_some_iff.1 heq
    exact .consume d consumer hd hs

/-- The producer goes its own way. -/
theorem producer_simulation : Automaton.Simulation (relay A out B receive own) A
    fun r s => r.producer = s where
  init := rfl
  step {r s e r'} _ hr h := by
    subst hr
    cases move_of_step h with
    | produce e producer hs => exact .inr ⟨e, producer, hs, rfl⟩
    | _ => exact .inl rfl

/-- The consumer does what it could do with any messages. -/
theorem consumer_simulation : Automaton.Simulation (relay A out B receive own) B
    fun r t => r.consumer = t where
  init := rfl
  step {r s e r'} _ hr h := by
    subst hr
    cases move_of_step h with
    | deliver m ms consumer hm hs => exact .inr ⟨receive m, consumer, hs, rfl⟩
    | consume d consumer hd hs => exact .inr ⟨d, consumer, hs, rfl⟩
    | _ => exact .inl rfl

/-- The producer is in a state that it can reach alone. -/
theorem producer_reachable (h : (relay A out B receive own).Reachable r) :
    A.Reachable r.producer := by
  obtain ⟨s, hs, rfl⟩ := producer_simulation.reachable h
  exact hs

/-- So is the consumer. -/
theorem consumer_reachable (h : (relay A out B receive own).Reachable r) :
    B.Reachable r.consumer := by
  obtain ⟨s, hs, rfl⟩ := consumer_simulation.reachable h
  exact hs

/-! ### What is delivered -/

/-- What has been delivered, and what is under way, is a part of what has been put out. -/
theorem delivered_sublist (hgrows : Grows A out) (h : (relay A out B receive own).Reachable r) :
    (r.delivered ++ r.channel).Sublist (out r.producer) := by
  obtain ⟨es, hrun⟩ := h
  induction hrun with
  | init => exact List.nil_sublist _
  | @step es r r' e hrun _ hstep ih =>
    cases move_of_step hstep with
    | produce e producer hs =>
      obtain ⟨new, hnew⟩ := hgrows.step (producer_reachable ⟨es, hrun⟩) hs
      rw [← hnew, List.drop_left, ← List.append_assoc]
      exact ih.append (List.Sublist.refl new)
    | deliver m ms consumer hm hs =>
      rw [hm] at ih
      simpa using ih
    | lose i =>
      exact ((List.Sublist.refl r.delivered).append (List.eraseIdx_sublist ..)).trans ih
    | consume d consumer hd hs => exact ih

/-- Without a loss, it is all that has been put out. -/
theorem delivered_eq (hgrows : Grows A out) {es : List (Event ε δ)}
    (h : (relay A out B receive own).Run (fun _ e => e.isLoss = false) es r) :
    r.delivered ++ r.channel = out r.producer := by
  induction h with
  | init => exact hgrows.init.symm
  | @step es r r' e hrun hloss hstep ih =>
    cases move_of_step hstep with
    | produce e producer hs =>
      obtain ⟨new, hnew⟩ := hgrows.step (producer_reachable hrun.reachable) hs
      rw [← hnew, List.drop_left, ← List.append_assoc, ih]
    | deliver m ms consumer hm hs =>
      rw [hm] at ih
      simpa using ih
    | lose i => cases hloss
    | consume d consumer hd hs => exact ih

/-- A relation between the messages delivered and the consumer that both of its steps keep. -/
theorem consumer_invariant {P : List μ → τ → Prop} (h : (relay A out B receive own).Reachable r)
    (hinit : P [] B.init)
    (hreceive : ∀ {l m t t'}, B.Reachable t → P l t → B.step t (receive m) = some t' →
      P (l ++ [m]) t')
    (hown : ∀ {l d t t'}, B.Reachable t → P l t → own d = true → B.step t d = some t' → P l t') :
    P r.delivered r.consumer := by
  obtain ⟨es, hrun⟩ := h
  induction hrun with
  | init => exact hinit
  | @step es r r' e hrun _ hstep ih =>
    have hr := consumer_reachable ⟨es, hrun⟩
    cases move_of_step hstep with
    | deliver m ms consumer hm hs => exact hreceive hr ih hs
    | consume d consumer hd hs => exact hown hr ih hd hs
    | produce | lose => exact ih

end Relay

end RtcmBridge

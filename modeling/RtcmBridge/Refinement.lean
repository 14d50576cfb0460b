import RtcmBridge.Automaton

/-!
# Refinement and progress

`Simulation A B R`: from related states, every step of `A` is answered by at most one
step of `B` that leads to related states again. So each reachable state of `A` is
related to one of `B` (`Simulation.reachable`), and has what `R` takes over of the
invariants of `B`.

A measure that some of the events lower, and none raises, bounds how many of these
events a run can have from a state on (`countP_add_le`).
-/

namespace RtcmBridge.Automaton

variable {σ τ ε δ : Type*} {A : Automaton σ ε} {B : Automaton τ δ} {R : σ → τ → Prop}

/-- `B` can follow what `A` does, step by step. -/
structure Simulation (A : Automaton σ ε) (B : Automaton τ δ) (R : σ → τ → Prop) : Prop where
  init : R A.init B.init
  step : ∀ {s t e s'}, A.Reachable s → R s t → A.step s e = some s' →
    R s' t ∨ ∃ d t', B.step t d = some t' ∧ R s' t'

/-- What the concrete system reaches is simulated by what the abstract one reaches. -/
theorem Simulation.reachable (h : Simulation A B R) {s : σ} (hs : A.Reachable s) :
    ∃ t, B.Reachable t ∧ R s t := by
  obtain ⟨es, hr⟩ := hs
  induction hr with
  | init => exact ⟨B.init, ⟨[], .init⟩, h.init⟩
  | @step es s s' e hr _ hstep ih =>
    obtain ⟨t, ht, hst⟩ := ih
    rcases h.step ⟨es, hr⟩ hst hstep with hst' | ⟨d, t', hd, hst'⟩
    · exact ⟨t, ht, hst'⟩
    · exact ⟨t', ht.next hd, hst'⟩

theorem Run.reachable {C : σ → ε → Prop} {es : List ε} {s : σ} (h : A.Run C es s) :
    A.Reachable s :=
  h.invariant ⟨[], .init⟩ fun _ _ _ hs _ hstep => hs.next hstep

/-- A run of events with `p`. -/
theorem Run.of_forall {C : σ → ε → Prop} {p : ε → Prop} {es : List ε} {s : σ} (h : A.Run C es s)
    (hp : ∀ e ∈ es, p e) : A.Run (fun _ e => p e) es s := by
  induction h with
  | init => exact .init
  | step _ _ hs ih =>
    exact .step (ih fun e he => hp e (List.mem_append_left _ he)) (hp _ (by simp)) hs

/-- The automaton from the state `s` on. -/
def startingAt (A : Automaton σ ε) (s : σ) : Automaton σ ε := { A with init := s }

theorem Reachable.of_startingAt {s₀ s : σ} {C : σ → ε → Prop} {es : List ε}
    (h₀ : A.Reachable s₀) (h : (A.startingAt s₀).Run C es s) : A.Reachable s := by
  induction h with
  | init => exact h₀
  | step _ _ hs ih => exact ih.next hs

/-- Every event with `p` lowers the measure `V`, and no event allowed raises it: it
    bounds the number of these events. -/
theorem countP_add_le {s₀ s : σ} {C : σ → ε → Prop} {es : List ε} {J : σ → Prop} {V : σ → ℕ}
    {p : ε → Bool} (h₀ : J s₀)
    (hstep : ∀ {s e s'}, J s → C s e → A.step s e = some s' →
      J s' ∧ V s' + (if p e then 1 else 0) ≤ V s)
    (h : (A.startingAt s₀).Run C es s) : es.countP p + V s ≤ V s₀ := by
  suffices hJ : J s ∧ es.countP p + V s ≤ V s₀ from hJ.2
  induction h with
  | init => exact ⟨h₀, by simp [startingAt]⟩
  | @step es s s' e _ hC hs ih =>
    obtain ⟨hJ, hV⟩ := hstep ih.1 hC hs
    refine ⟨hJ, ?_⟩
    rw [List.countP_append, List.countP_singleton]
    have := ih.2
    omega

end RtcmBridge.Automaton

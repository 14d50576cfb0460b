import Mathlib.Tactic

/-!
# Automata

An automaton has an initial state and a partial step function: an event either
cannot occur in a state, or takes it to the next one. All nondeterminism (which
thread moves, how an operation completes, what arrives) is in the events.

`Automaton.Run C es s`: the events `es` can occur in turn from the initial state
and lead to `s`, each in a state where the condition `C` allows it. With the
trivial condition these are the runs of the automaton. What holds initially and
is preserved by the allowed steps holds after every such run
(`Automaton.Run.invariant`); and if every other step upsets it, it holds
throughout just these runs (`Automaton.run_iff`).

What a property says about a run that its last state does not tell is kept in a
history: `A.track h₀ f` is `A` with a history that `f` brings up to date at each
step (`Automaton.step_track`).
-/

namespace RtcmBridge

/-- An automaton with states in `σ` and events in `ε`. -/
structure Automaton (σ ε : Type*) where
  init : σ
  step : σ → ε → Option σ

namespace Automaton

variable {σ ε : Type*} (A : Automaton σ ε) {C : σ → ε → Prop}

/-- The events `es` lead from the initial state to `s`, all allowed by `C`. -/
inductive Run (C : σ → ε → Prop) : List ε → σ → Prop
  | init : Run C [] A.init
  | step {es : List ε} {s s' : σ} {e : ε} :
      Run C es s → C s e → A.step s e = some s' → Run C (es ++ [e]) s'

/-- The states some run leads to. -/
def Reachable (s : σ) : Prop := ∃ es, A.Run (fun _ _ => True) es s

/-- The automaton with a history, which each step brings up to date. -/
def track {η : Type*} (h₀ : η) (f : η → σ → ε → σ → η) : Automaton (σ × η) ε where
  init := (A.init, h₀)
  step s e := (A.step s.1 e).map fun s' => (s', f s.2 s.1 e s')

/-- The automaton with the steps that `C` allows only. -/
def restrict (C : σ → ε → Prop) [∀ s e, Decidable (C s e)] : Automaton σ ε where
  init := A.init
  step s e := if C s e then A.step s e else none

/-- The state the events lead to, if they can occur. -/
def exec (es : List ε) : Option σ := es.foldlM A.step A.init

variable {A} {es : List ε} {s : σ}

/-- What holds first, and is kept by the steps of a run, holds after the run. -/
theorem Run.invariant {P : σ → Prop} (h : A.Run C es s) (hinit : P A.init)
    (hstep : ∀ s e s', P s → C s e → A.step s e = some s' → P s') : P s := by
  induction h with
  | init => exact hinit
  | step _ hC hs ih => exact hstep _ _ _ ih hC hs

/-- A property that `C` keeps up, by an invariant `J`, and every step against `C`
    upsets: it holds throughout a run if and only if the run is allowed by `C`.
    Only runs within `D` are considered. -/
theorem run_iff_within {D : σ → ε → Prop} {P J : σ → Prop} (hinit : J A.init)
    (hP : ∀ s, J s → P s)
    (hstep : ∀ s e s', J s → D s e → C s e → A.step s e = some s' → J s')
    (hupset : ∀ s e s', J s → D s e → ¬C s e → A.step s e = some s' → ¬P s') :
    (A.Run (fun s e => D s e ∧ P s) es s ∧ P s) ↔ A.Run (fun s e => D s e ∧ C s e) es s := by
  have hinv {es : List ε} {s : σ} (h : A.Run (fun s e => D s e ∧ C s e) es s) : J s :=
    h.invariant hinit fun s e s' hJ hC hs => hstep s e s' hJ hC.1 hC.2 hs
  constructor
  · rintro ⟨h, hs⟩
    induction h with
    | init => exact .init
    | @step es s s' e hrun hp hst ih =>
      have hrun' := ih hp.2
      refine .step hrun' ⟨hp.1, not_not.1 fun hC => ?_⟩ hst
      exact hupset s e s' (hinv hrun') hp.1 hC hst hs
  · intro h
    refine ⟨?_, hP s (hinv h)⟩
    induction h with
    | init => exact .init
    | step hrun hC hst ih => exact .step ih ⟨hC.1, hP _ (hinv hrun)⟩ hst

/-- An invariant that the good steps keep, and a bad step breaks the property under it: then the
    property holds throughout exactly in the runs of good steps. -/
theorem run_iff {P J : σ → Prop} (hinit : J A.init) (hP : ∀ s, J s → P s)
    (hstep : ∀ s e s', J s → C s e → A.step s e = some s' → J s')
    (hupset : ∀ s e s', J s → ¬C s e → A.step s e = some s' → ¬P s') :
    (A.Run (fun s _ => P s) es s ∧ P s) ↔ A.Run C es s := by
  have : (A.Run (fun s _ => True ∧ P s) es s ∧ P s) ↔ A.Run (fun s e => True ∧ C s e) es s :=
    run_iff_within hinit hP (fun s e s' hJ _ => hstep s e s' hJ)
      fun s e s' hJ _ => hupset s e s' hJ
  simpa only [true_and] using this

/-- What holds first, and is kept by every step, holds in every reachable state. -/
theorem Reachable.invariant {P : σ → Prop} (h : A.Reachable s) (hinit : P A.init)
    (hstep : ∀ s e s', P s → A.step s e = some s' → P s') : P s :=
  let ⟨_, hr⟩ := h
  hr.invariant hinit fun s e s' hp _ => hstep s e s' hp

/-- The next state of a reachable one is reachable. -/
theorem Reachable.next {s' : σ} {e : ε} (h : A.Reachable s) (hs : A.step s e = some s') :
    A.Reachable s' :=
  let ⟨_, hr⟩ := h
  ⟨_, hr.step trivial hs⟩

section Track

variable {η : Type*} {h₀ h h' : η} {f : η → σ → ε → σ → η} {s' : σ} {e : ε}

/-- A recorded automaton steps as it does without the record. -/
theorem step_track : (A.track h₀ f).step (s, h) e = some (s', h') ↔
    A.step s e = some s' ∧ h' = f h s e s' := by
  constructor
  · intro hs
    obtain ⟨t, ht, heq⟩ := Option.map_eq_some_iff.1 hs
    obtain ⟨rfl, rfl⟩ := Prod.mk.inj heq
    exact ⟨ht, rfl⟩
  · rintro ⟨hs, rfl⟩
    exact Option.map_eq_some_iff.2 ⟨s', hs, rfl⟩

end Track

theorem run_of_exec (h : A.exec es = some s) : A.Run (fun _ _ => True) es s := by
  induction es using List.reverseRecOn generalizing s with
  | nil => exact Option.some.inj h ▸ .init
  | append_singleton es e ih =>
    rw [exec, List.foldlM_append] at h
    obtain ⟨s₀, h₀, h₁⟩ := Option.bind_eq_some_iff.1 h
    exact .step (ih h₀) trivial (by simpa using h₁)

/-- The runs of the restricted automaton are those allowed. -/
theorem run_of_restrict [∀ s e, Decidable (C s e)]
    (h : (A.restrict C).Run (fun _ _ => True) es s) : A.Run C es s := by
  induction h with
  | init => exact .init
  | step _ _ hs ih =>
    obtain ⟨hC, hs⟩ := Option.ite_none_right_eq_some.1 hs
    exact .step ih hC hs

theorem reachable_of_exec (h : A.exec es = some s) : A.Reachable s := ⟨es, run_of_exec h⟩

end Automaton

end RtcmBridge

import RtcmBridge.Relay

/-!
# Families

A family runs automata side by side, each event being a step of one of them (`family`). What
they put out goes into one log, in its order, with the member that has put it out.

Whatever the others do, the part of a member in the log is what it has put out
(`filter_log`). What some members put out together (`selected`) is thus an interleaving of
what each of them puts out, and a family can be the producer of a relay (`grows_selected`).
-/

namespace RtcmBridge

/-- The states of the members, and what they have put out. -/
structure Family (ι σ μ : Type*) where
  member : ι → σ
  log : List (ι × μ) := []

namespace Family

variable {ι σ μ ε : Type*} [DecidableEq ι] (A : ι → Automaton σ ε) (out : σ → List μ)

/-- The automata `A i`, side by side. -/
def family : Automaton (Family ι σ μ) (ι × ε) where
  init := { member := fun i => (A i).init }
  step f e := ((A e.1).step (f.member e.1) e.2).map fun s =>
    { member := Function.update f.member e.1 s
      log := f.log ++ ((out s).drop (out (f.member e.1)).length).map (Prod.mk e.1) }

/-- What the members with `p` have put out. -/
def selected (p : ι → Prop) [DecidablePred p] (f : Family ι σ μ) : List (ι × μ) :=
  f.log.filter fun x => p x.1

variable {A out} {p : ι → Prop} [DecidablePred p] {f f' : Family ι σ μ} {i : ι} {e : ι × ε}

/-- A step of a family is one of a member. -/
theorem step_eq_some_iff : (family A out).step f e = some f' ↔
    ∃ s, (A e.1).step (f.member e.1) e.2 = some s ∧ f' =
      { member := Function.update f.member e.1 s
        log := f.log ++ ((out s).drop (out (f.member e.1)).length).map (Prod.mk e.1) } := by
  rw [family, Option.map_eq_some_iff]
  simp only [eq_comm]

/-- Each member goes its own way. -/
theorem member_simulation (i : ι) :
    Automaton.Simulation (family A out) (A i) fun f s => f.member i = s where
  init := rfl
  step {f s e f'} _ hf h := by
    subst hf
    obtain ⟨s, hs, rfl⟩ := step_eq_some_iff.1 h
    by_cases hi : i = e.1
    · subst hi
      exact .inr ⟨e.2, s, hs, Function.update_self ..⟩
    · exact .inl (Function.update_of_ne hi ..)

/-- Each member is in a state that it can reach alone. -/
theorem member_reachable (h : (family A out).Reachable f) (i : ι) :
    (A i).Reachable (f.member i) := by
  obtain ⟨s, hs, rfl⟩ := (member_simulation i).reachable h
  exact hs

/-- The part of a member is what it has put out. -/
theorem filter_log (hgrows : ∀ i, Relay.Grows (A i) out) (h : (family A out).Reachable f) (i : ι) :
    (f.log.filter fun x => x.1 = i).map Prod.snd = out (f.member i) := by
  obtain ⟨es, hrun⟩ := h
  induction hrun with
  | init => exact (hgrows i).init.symm
  | @step es f f' e hrun _ hstep ih =>
    obtain ⟨s, hs, rfl⟩ := step_eq_some_iff.1 hstep
    obtain ⟨new, hnew⟩ := (hgrows e.1).step (member_reachable hrun.reachable e.1) hs
    dsimp only
    rw [← hnew, List.drop_left, List.filter_append, List.map_append, ih, List.filter_map,
      List.map_map]
    by_cases hi : e.1 = i
    · subst hi
      rw [Function.update_self, ← hnew]
      simp [Function.comp_def]
    · rw [Function.update_of_ne (Ne.symm hi)]
      simp [Function.comp_def, hi]

/-- What has been put out is only ever added to. -/
theorem grows_selected (p : ι → Prop) [DecidablePred p] :
    Relay.Grows (family A out) (selected p) where
  init := rfl
  step {f e f'} _ h := by
    obtain ⟨s, -, rfl⟩ := step_eq_some_iff.1 h
    rw [selected, selected, List.filter_append]
    exact List.prefix_append ..

/-- Of the merged output, the part of a member is its own output. -/
theorem filter_selected (hgrows : ∀ i, Relay.Grows (A i) out) (h : (family A out).Reachable f)
    (hi : p i) : ((selected p f).filter fun x => x.1 = i).map Prod.snd = out (f.member i) := by
  rw [← filter_log hgrows h, selected, List.filter_filter]
  congr 2
  funext x
  by_cases hx : x.1 = i
  · simp [hx, hi]
  · simp [hx]

/-- What is put out is from a selected member. -/
theorem mem_selected (hgrows : ∀ i, Relay.Grows (A i) out) (h : (family A out).Reachable f)
    {x : ι × μ} (hx : x ∈ selected p f) : p x.1 ∧ x.2 ∈ out (f.member x.1) := by
  obtain ⟨hmem, hp⟩ := List.mem_filter.1 hx
  refine ⟨of_decide_eq_true hp, ?_⟩
  rw [← filter_log hgrows h]
  exact List.mem_map_of_mem (List.mem_filter.2 ⟨hmem, decide_eq_true rfl⟩)

/-- A single member. -/
theorem selected_of_unique (hgrows : ∀ i, Relay.Grows (A i) out) (h : (family A out).Reachable f)
    (hp : ∀ j, p j ↔ j = i) : (selected p f).map Prod.snd = out (f.member i) := by
  rw [← filter_log hgrows h, selected]
  simp only [hp]

end Family

end RtcmBridge

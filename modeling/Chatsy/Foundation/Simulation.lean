import Chatsy.Foundation.Runs

/-!
# Simulation of runs through label lists

A large system acts on a component by the labels that each of its steps sends
to it, in their order. When the component follows every single step, it follows
every run on the labels sent along the run, and what holds of all runs of the
component holds in the system.

## Implementation notes

A step that leaves the component alone sends no label, and a step may send
several. The labels may depend on the state before the step.
-/

namespace Chatsy.Foundation

variable {S T U L M N : Type*}

/-- A run on one label is a step. -/
theorem run_singleton (step : S → L → Option S) (s : S) (l : L) :
    run step s [l] = step s l := by
  rw [run_cons]
  exact Option.bind_fun_some _

section Trace

variable (step : S → L → Option S) (acts : S → L → List M)

/-- The labels that a run sends, in their order. -/
def trace : S → List L → List M
  | _, [] => []
  | s, l :: ls => acts s l ++ (step s l).elim [] fun t => trace t ls

@[simp] theorem trace_nil (s : S) : trace step acts s [] = [] := rfl

theorem trace_append {s t : S} {ls : List L} (hr : run step s ls = some t) (ms : List L) :
    trace step acts s (ls ++ ms) = trace step acts s ls ++ trace step acts t ms := by
  induction ls generalizing s with
  | nil =>
      obtain rfl : s = t := Option.some.inj hr
      rfl
  | cons l ls ih =>
      obtain ⟨u, hu, hr⟩ := Option.bind_eq_some_iff.mp hr
      simp only [List.cons_append, trace, hu, Option.elim_some, ih hr, List.append_assoc]

theorem trace_concat {s t : S} {ls : List L} (hr : run step s ls = some t) (l : L) :
    trace step acts s (ls ++ [l]) = trace step acts s ls ++ acts t l := by
  rw [trace_append step acts hr, trace]
  cases step t l <;> simp

/-- A label of a run is sent by one of its steps. -/
theorem exists_step_of_mem_trace {s : S} {ls : List L} {m : M} (h : m ∈ trace step acts s ls) :
    ∃ pre l post t, ls = pre ++ l :: post ∧ run step s pre = some t ∧ m ∈ acts t l := by
  induction ls generalizing s with
  | nil => exact absurd h List.not_mem_nil
  | cons l ls ih =>
      rcases List.mem_append.mp h with h | h
      · exact ⟨[], l, ls, s, rfl, rfl, h⟩
      · cases hstep : step s l with
        | none =>
            rw [hstep] at h
            exact absurd h List.not_mem_nil
        | some u =>
            rw [hstep] at h
            obtain ⟨pre, l', post, t, rfl, ht, hm⟩ := ih h
            exact ⟨l :: pre, l', post, t, rfl, by rw [run_cons, hstep]; exact ht, hm⟩

end Trace

/-- When each step of a system is followed by a run of another that keeps a relation between their
states, so is each run, by labels such as the steps are followed by. -/
theorem exists_run_of_steps {step : S → L → Option S} {step' : T → M → Option T}
    {R : S → T → Prop} {P : L → Prop} {Q : M → Prop}
    (hstep : ∀ s l s' t, R s t → P l → step s l = some s' →
      ∃ ms t', run step' t ms = some t' ∧ R s' t' ∧ ∀ m ∈ ms, Q m)
    {s s' : S} {t : T} {ls : List L} (hst : R s t) (hls : ∀ l ∈ ls, P l)
    (hr : run step s ls = some s') :
    ∃ ms t', run step' t ms = some t' ∧ R s' t' ∧ ∀ m ∈ ms, Q m := by
  refine run_induction step
    (motive := fun ls s' => (∀ l ∈ ls, P l) →
      ∃ ms t', run step' t ms = some t' ∧ R s' t' ∧ ∀ m ∈ ms, Q m) ?_ ?_ hr hls
  · exact fun _ => ⟨[], t, rfl, hst, fun m hm => absurd hm List.not_mem_nil⟩
  · intro ls l s₁ s₂ _ ih h hls
    obtain ⟨ms, t₁, hms, hst₁, hQ⟩ := ih fun l' hl' => hls l' (List.mem_append_left _ hl')
    obtain ⟨ms', t₂, hms', hst₂, hQ'⟩ := hstep s₁ l s₂ t₁ hst₁ (hls l (by simp)) h
    refine ⟨ms ++ ms', t₂, (run_append_eq_some step').mpr ⟨t₁, hms, hms'⟩, hst₂, fun m hm => ?_⟩
    exact (List.mem_append.mp hm).elim (hQ m) (hQ' m)

/-- A component of a system that follows its steps on the labels they send. -/
structure Simulation (step : S → L → Option S) (step' : T → M → Option T) where
  view : S → T
  acts : S → L → List M
  follows : ∀ s l t, step s l = some t → run step' (view s) (acts s l) = some (view t)

namespace Simulation

variable {step : S → L → Option S} {step' : T → M → Option T} {step'' : U → N → Option U}

/-- The labels that a run of the system sends to the component. -/
abbrev sent (f : Simulation step step') : S → List L → List M := trace step f.acts

/-- The component runs on the labels that the run of the system sends to it. -/
theorem run_sent (f : Simulation step step') {s t : S} {ls : List L}
    (hr : run step s ls = some t) : run step' (f.view s) (f.sent s ls) = some (f.view t) := by
  refine run_induction step
    (motive := fun ls t => run step' (f.view s) (f.sent s ls) = some (f.view t)) rfl ?_ hr
  intro ls l t u ht ih hu
  rw [sent, trace_concat step f.acts ht]
  exact (run_append_eq_some step').mpr ⟨f.view t, ih, f.follows t l u hu⟩

/-- A component of a component. -/
def comp (f : Simulation step step') (g : Simulation step' step'') :
    Simulation step step'' where
  view := fun s => g.view (f.view s)
  acts := fun s l => g.sent (f.view s) (f.acts s l)
  follows := fun s l t h => g.run_sent (f.follows s l t h)

/-- A component of a component is sent what the middle one sends to it. -/
theorem sent_comp (f : Simulation step step') (g : Simulation step' step'') {s t : S} {ls : List L}
    (hr : run step s ls = some t) : (f.comp g).sent s ls = g.sent (f.view s) (f.sent s ls) := by
  refine run_induction step
    (motive := fun ls _ => (f.comp g).sent s ls = g.sent (f.view s) (f.sent s ls)) rfl ?_ hr
  intro ls l t u ht ih _
  rw [sent, trace_concat step _ ht, ← sent, ih, sent, sent, trace_concat step f.acts ht,
    trace_append step' g.acts (f.run_sent ht)]
  rfl

end Simulation

end Chatsy.Foundation

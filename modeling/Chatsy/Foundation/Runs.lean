import Mathlib.Data.List.Induction
import Mathlib.Tactic.TypeStar

/-!
# Runs of labelled partial steps

A step function answers `none` when a label is not enabled in a state. A run
executes a list of labels from the left and exists only when every label is
enabled in turn. The label list is the whole nondeterminism of a system: each
interleaving, each outcome of a request and each choice of the environment is
one label list.

## Implementation notes

Conditions on a run are stated on the label and the state before the step,
never on the state after it. `Meets` collects them along the run, so that a
prefix of a run that meets a condition meets it as well.
-/

namespace Chatsy.Foundation

/-- A guarded step is taken when its guard holds, and goes to its one result. -/
theorem guarded_eq_some {S : Type*} {p : Prop} [Decidable p] {s t : S} :
    (if p then some s else none) = some t ↔ p ∧ s = t := by
  by_cases h : p
  · rw [if_pos h, Option.some.injEq, and_iff_right h]
  · rw [if_neg h]
    exact iff_of_false (Option.some_ne_none t).symm fun hp => h hp.1

variable {S L : Type*} (step : S → L → Option S)

/-- Executes the labels in order, with no result once a label is not enabled. -/
def run : S → List L → Option S
  | s, [] => some s
  | s, l :: ls => (step s l).bind fun t => run t ls

@[simp] theorem run_nil (s : S) : run step s [] = some s := rfl

@[simp] theorem run_cons (s : S) (l : L) (ls : List L) :
    run step s (l :: ls) = (step s l).bind fun t => run step t ls := rfl

theorem run_append (s : S) (ls ms : List L) :
    run step s (ls ++ ms) = (run step s ls).bind fun t => run step t ms := by
  induction ls generalizing s with
  | nil => rfl
  | cons l ls ih =>
      simp only [List.cons_append, run_cons]
      cases step s l with
      | none => rfl
      | some t => exact ih t

theorem run_append_eq_some {s u : S} {ls ms : List L} :
    run step s (ls ++ ms) = some u ↔
      ∃ t, run step s ls = some t ∧ run step t ms = some u := by
  rw [run_append, Option.bind_eq_some_iff]

theorem run_concat_eq_some {s u : S} {ls : List L} {l : L} :
    run step s (ls ++ [l]) = some u ↔
      ∃ t, run step s ls = some t ∧ step t l = some u := by
  simp only [run_append_eq_some, run_cons, run_nil, Option.bind_fun_some]

/-- The state before a label of a run makes the step, and the run goes on from there. -/
theorem exists_step_of_split {s t u : S} {pre post : List L} {l : L}
    (hr : run step s (pre ++ l :: post) = some u) (ht : run step s pre = some t) :
    ∃ v, step t l = some v ∧ run step v post = some u := by
  obtain ⟨t', ht', hpost⟩ := (run_append_eq_some step).mp hr
  obtain rfl := Option.some.inj (ht.symm.trans ht')
  exact Option.bind_eq_some_iff.mp hpost

/-- A label of a longer list that meets a condition on its place is the last one or one before. -/
theorem exists_split_concat {p : List L → L → List L → Prop} {ls : List L} {l : L} :
    (∃ pre x post, ls ++ [l] = pre ++ x :: post ∧ p pre x post) ↔
      p ls l [] ∨ ∃ pre x post, ls = pre ++ x :: post ∧ p pre x (post ++ [l]) := by
  constructor
  · rintro ⟨pre, x, post, hsplit, hp⟩
    rcases List.eq_nil_or_concat post with rfl | ⟨post', y, rfl⟩
    · obtain ⟨rfl, hlast⟩ := List.append_inj' hsplit rfl
      obtain rfl := List.singleton_inj.mp hlast
      exact Or.inl hp
    · rw [List.concat_eq_append, ← List.cons_append, ← List.append_assoc] at hsplit
      obtain ⟨rfl, hlast⟩ := List.append_inj' hsplit rfl
      obtain rfl := List.singleton_inj.mp hlast
      exact Or.inr ⟨pre, x, post', rfl, List.concat_eq_append ▸ hp⟩
  · rintro (hp | ⟨pre, x, post, rfl, hp⟩)
    · exact ⟨ls, l, [], rfl, hp⟩
    · exact ⟨pre, x, post ++ [l], by simp, hp⟩

/-- What the labels of a run say, with one more label. -/
theorem filterMap_concat {A : Type*} (f : L → Option A) (ls : List L) (l : L) :
    (ls ++ [l]).filterMap f = ls.filterMap f ++ (f l).toList := by
  rw [List.filterMap_append]
  cases hl : f l with
  | none => simp [hl]
  | some a => simp [hl]

/-- What the last label says, or else the last one before it that says something. -/
theorem getLast?_filterMap_concat {A : Type*} (f : L → Option A) (ls : List L) (l : L) :
    ((ls ++ [l]).filterMap f).getLast? = (f l).or (ls.filterMap f).getLast? := by
  rw [filterMap_concat, List.getLast?_append]
  cases f l <;> rfl

/-- Induction on a run from its start, with the labels executed so far in the motive. -/
theorem run_induction {s : S} {motive : List L → S → Prop} (nil : motive [] s)
    (concat : ∀ ls l t u, run step s ls = some t → motive ls t →
      step t l = some u → motive (ls ++ [l]) u)
    {ls : List L} {u : S} (hr : run step s ls = some u) : motive ls u := by
  induction ls using List.reverseRecOn generalizing u with
  | nil =>
      obtain rfl : s = u := Option.some.inj hr
      exact nil
  | append_singleton ls l ih =>
      obtain ⟨t, ht, hu⟩ := (run_concat_eq_some step).mp hr
      exact concat ls l t u ht (ih ht) hu

/-- What each single step keeps, every run keeps. -/
theorem run_preserves {I : S → Prop}
    (hstep : ∀ s l t, I s → step s l = some t → I t)
    {s u : S} {ls : List L} (hs : I s) (hr : run step s ls = some u) : I u :=
  run_induction step (motive := fun _ => I) hs
    (fun _ l t v _ ht hv => hstep t l v ht hv) hr

/-- Every step of the run meets the condition in the state it is taken from. -/
def Meets (ok : S → L → Prop) : S → List L → Prop
  | _, [] => True
  | s, l :: ls => ok s l ∧ ∀ t, step s l = some t → Meets ok t ls

instance Meets.decidable {ok : S → L → Prop} [∀ s l, Decidable (ok s l)] :
    ∀ s ls, Decidable (Meets step ok s ls)
  | _, [] => isTrue trivial
  | s, l :: ls =>
      match h : step s l with
      | none => decidable_of_iff (ok s l) (by simp [Meets, h])
      | some t =>
          have : Decidable (Meets step ok t ls) := Meets.decidable t ls
          decidable_of_iff (ok s l ∧ Meets step ok t ls) (by simp [Meets, h])

variable {step} {ok : S → L → Prop}

theorem meets_append_iff {s : S} {ls ms : List L} :
    Meets step ok s (ls ++ ms) ↔
      Meets step ok s ls ∧ ∀ t, run step s ls = some t → Meets step ok t ms := by
  induction ls generalizing s with
  | nil => simp [Meets]
  | cons l ls ih =>
      simp only [List.cons_append, Meets, ih, run_cons, Option.bind_eq_some_iff]
      constructor
      · rintro ⟨hok, hrest⟩
        exact ⟨⟨hok, fun t ht => (hrest t ht).1⟩,
          fun u ⟨t, ht, hu⟩ => (hrest t ht).2 u hu⟩
      · rintro ⟨⟨hok, hls⟩, hms⟩
        exact ⟨hok, fun t ht => ⟨hls t ht, fun u hu => hms u ⟨t, ht, hu⟩⟩⟩

/-- What each step under the condition keeps, every run meeting it keeps. -/
theorem meets_preserves {I : S → Prop}
    (hstep : ∀ s l t, I s → ok s l → step s l = some t → I t)
    {s u : S} {ls : List L} (hs : I s) (hm : Meets step ok s ls)
    (hr : run step s ls = some u) : I u := by
  induction ls generalizing s with
  | nil =>
      obtain rfl : s = u := Option.some.inj hr
      exact hs
  | cons l ls ih =>
      obtain ⟨t, ht, hu⟩ := Option.bind_eq_some_iff.mp hr
      exact ih (hstep s l t hs hm.1 ht) (hm.2 t ht) hu

/-- When a step outside the condition is always visible in the next state, the
condition is exactly what keeps every state of the run safe. -/
theorem safe_iff_meets {I safe : S → Prop}
    (hsafe : ∀ s, I s → safe s)
    (hstep : ∀ s l t, I s → ok s l → step s l = some t → I t)
    (hbad : ∀ s l t, I s → ¬ ok s l → step s l = some t → ¬ safe t)
    {s u : S} {ls : List L} (hs : I s) (hr : run step s ls = some u) :
    (∀ pre post t, ls = pre ++ post → run step s pre = some t → safe t) ↔
      Meets step ok s ls := by
  constructor
  · intro hall
    induction ls generalizing s with
    | nil => trivial
    | cons l ls ih =>
        obtain ⟨t, ht, hu⟩ := Option.bind_eq_some_iff.mp hr
        have hok : ok s l := by
          by_contra hno
          exact hbad s l t hs hno ht
            (hall [l] ls t rfl (by simp [ht]))
        refine ⟨hok, fun t' ht' => ?_⟩
        obtain rfl : t = t' := Option.some.inj (ht.symm.trans ht')
        exact ih (hstep s l t hs hok ht) hu fun pre post v hsplit hv =>
          hall (l :: pre) post v (by simp [hsplit]) (by simp [ht, hv])
  · intro hm pre post t hsplit ht
    subst hsplit
    exact hsafe t (meets_preserves hstep hs (meets_append_iff.mp hm).1 ht)

/-- When under an invariant a single step is good exactly by meeting the condition, all steps of a
run are good exactly when the run meets it. -/
theorem steps_iff_meets {I : S → Prop} {good : S → L → S → Prop}
    (hI : ∀ s l t, I s → step s l = some t → I t)
    (hgood : ∀ s l t, I s → step s l = some t → (good s l t ↔ ok s l))
    {s u : S} {ls : List L} (hs : I s) (hr : run step s ls = some u) :
    (∀ pre l post t v, ls = pre ++ l :: post → run step s pre = some t → step t l = some v →
      good t l v) ↔ Meets step ok s ls := by
  induction ls generalizing s with
  | nil => exact iff_of_true (fun pre l post _ _ hsplit => by simp at hsplit) trivial
  | cons l ls ih =>
      obtain ⟨t, ht, hu⟩ := Option.bind_eq_some_iff.mp hr
      have hrest := ih (hI s l t hs ht) hu
      constructor
      · intro hall
        refine ⟨(hgood s l t hs ht).mp (hall [] l ls s t rfl rfl ht), fun t' ht' => ?_⟩
        obtain rfl : t = t' := Option.some.inj (ht.symm.trans ht')
        apply hrest.mp
        intro pre l' post v w hsplit hv hw
        exact hall (l :: pre) l' post v w (by simp [hsplit]) (by simp [ht, hv]) hw
      · rintro ⟨hok, hmeets⟩ pre l' post v w hsplit hv hw
        cases pre with
        | nil =>
            obtain ⟨rfl, rfl⟩ := List.cons.inj hsplit
            obtain rfl : s = v := Option.some.inj hv
            obtain rfl : t = w := Option.some.inj (ht.symm.trans hw)
            exact (hgood s l t hs ht).mpr hok
        | cons l₀ pre =>
            obtain ⟨rfl, rfl⟩ := List.cons.inj hsplit
            obtain ⟨t', ht', hv⟩ := Option.bind_eq_some_iff.mp hv
            obtain rfl : t = t' := Option.some.inj (ht.symm.trans ht')
            exact hrest.mpr (hmeets t ht) pre l' post v w rfl hv hw

end Chatsy.Foundation

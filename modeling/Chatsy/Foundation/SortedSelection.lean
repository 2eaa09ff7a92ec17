import Mathlib.Data.List.Sort

/-!
# Selecting from a sorted reading

A reader sorts a collection by one key and then keeps a part of it. When the
kept values have an order of their own that agrees with the key and separates
them, the result is the kept part sorted by that order: sorting first or
selecting first makes no difference, whatever the sort does with ties among
the rows that are dropped.
-/

namespace Chatsy.Foundation

variable {α β : Type*}

section Sorted

variable {r : α → α → Prop} {q : β → β → Prop} [DecidableRel r] [DecidableRel q]

omit [DecidableRel q] in
/-- Two sorted arrangements of the same values agree when the order separates them. -/
theorem eq_of_perm_of_pairwise {l m : List β}
    (hanti : ∀ x ∈ l, ∀ y ∈ l, q x y → q y x → x = y)
    (hl : l.Pairwise q) (hm : m.Pairwise q) (h : l.Perm m) : l = m :=
  h.eq_of_pairwise (fun x y hx hy hxy hyx =>
    hanti x hx y (h.mem_iff.mpr hy) hxy hyx) hl hm

/-- Selecting after a sort is sorting the selection. -/
theorem filterMap_insertionSort [Std.Total r] [IsTrans α r] [Std.Total q] [IsTrans β q]
    (f : α → Option β) (l : List α)
    (hrq : ∀ a x b y, f a = some x → f b = some y → r a b → q x y)
    (hanti : ∀ x ∈ l.filterMap f, ∀ y ∈ l.filterMap f, q x y → q y x → x = y) :
    (l.insertionSort r).filterMap f = (l.filterMap f).insertionSort q := by
  have hperm : ((l.insertionSort r).filterMap f).Perm (l.filterMap f) :=
    (List.perm_insertionSort r l).filterMap f
  have hsorted : ((l.insertionSort r).filterMap f).Pairwise q := by
    rw [List.pairwise_filterMap]
    exact (List.pairwise_insertionSort r l).imp fun hab x hx y hy =>
      hrq _ x _ y hx hy hab
  apply eq_of_perm_of_pairwise _ hsorted (List.pairwise_insertionSort q _)
  · exact hperm.trans (List.perm_insertionSort q _).symm
  · intro x hx y hy
    exact hanti x (hperm.mem_iff.mp hx) y (hperm.mem_iff.mp hy)

omit [DecidableRel q] in
/-- A longer list is sorted around the shorter one. -/
theorem insertionSort_append_sublist [Std.Total r] [IsTrans α r] (l m : List α) :
    (l.insertionSort r).Sublist ((l ++ m).insertionSort r) := by
  induction l with
  | nil => exact List.nil_sublist _
  | cons a l ih =>
      rw [List.cons_append, List.insertionSort_cons, List.insertionSort_cons]
      exact ih.orderedInsert_sublist a (List.pairwise_insertionSort r _)

end Sorted

theorem length_filterMap_le {f g : α → Option β} (h : ∀ x, f x ≠ none → f x = g x)
    (l : List α) : (l.filterMap f).length ≤ (l.filterMap g).length := by
  induction l with
  | nil => exact le_rfl
  | cons x l ih =>
      simp only [List.filterMap_cons]
      cases hf : f x with
      | none => cases g x <;> simp only [List.length_cons] <;> omega
      | some b =>
          rw [← h x (by simp [hf]), hf]
          simp only [List.length_cons]
          omega

/-- A selection that drops a row which another keeps has a different result. -/
theorem filterMap_eq_filterMap_iff {f g : α → Option β} (h : ∀ x, f x ≠ none → f x = g x)
    (l : List α) : l.filterMap f = l.filterMap g ↔ ∀ x ∈ l, f x = g x := by
  constructor
  · intro heq
    induction l with
    | nil => simp
    | cons x l ih =>
        have hle := length_filterMap_le h l
        cases hf : f x with
        | none =>
            cases hg : g x with
            | none =>
                rw [List.filterMap_cons_none hf, List.filterMap_cons_none hg] at heq
                simpa [hf, hg] using ih heq
            | some b =>
                rw [List.filterMap_cons_none hf, List.filterMap_cons_some hg] at heq
                have hlen := congrArg List.length heq
                rw [List.length_cons] at hlen
                omega
        | some b =>
            have hg : g x = some b := (h x (by simp [hf])).symm.trans hf
            rw [List.filterMap_cons_some hf, List.filterMap_cons_some hg] at heq
            simpa [hf, hg] using ih (List.cons.inj heq).2
  · exact fun hall => List.filterMap_congr hall

end Chatsy.Foundation

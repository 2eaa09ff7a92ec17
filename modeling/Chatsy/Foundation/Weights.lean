import Mathlib.Tactic.TypeStar

/-!
# Total weight of a list

A counter over the entries of a list, under the two ways a state machine
changes a list: an entry is appended, or one entry is replaced by another. The
statements are additive on both sides, so that a balance over several lists is
linear arithmetic. The values that a replacement does not touch stay in place.
-/

namespace Chatsy.Foundation

variable {α : Type*} (f : α → Nat)

/-- The sum of the weights of the entries. -/
def weight : List α → Nat
  | [] => 0
  | a :: l => f a + weight l

@[simp] theorem weight_nil : weight f [] = 0 := rfl

@[simp] theorem weight_cons (a : α) (l : List α) : weight f (a :: l) = f a + weight f l := rfl

theorem weight_concat (l : List α) (a : α) : weight f (l ++ [a]) = weight f l + f a := by
  induction l with
  | nil => exact Nat.add_comm (f a) 0
  | cons b l ih =>
      rw [List.cons_append, weight_cons, weight_cons, ih]
      omega

/-- A map that keeps the weight of each entry keeps the total. -/
theorem weight_map {g : α → α} (hg : ∀ a, f (g a) = f a) (l : List α) :
    weight f (l.map g) = weight f l := by
  induction l with
  | nil => rfl
  | cons a l ih => rw [List.map_cons, weight_cons, weight_cons, hg, ih]

/-- Replacing an entry trades its weight for the new one. -/
theorem weight_set {l : List α} {i : Nat} {a : α} (b : α) (h : l[i]? = some a) :
    weight f (l.set i b) + f a = weight f l + f b := by
  induction l generalizing i with
  | nil => simp at h
  | cons c l ih =>
      cases i with
      | zero =>
          obtain rfl : c = a := by simpa using h
          simp only [List.set_cons_zero, weight_cons]
          omega
      | succ i =>
          have htail := ih (by simpa using h)
          simp only [List.set_cons_succ, weight_cons]
          omega

/-- Entries that weigh nothing, or at most one, weigh no more than they are counted. -/
theorem weight_le_countP {l : List α} {p : α → Bool}
    (h : ∀ a ∈ l, f a ≤ if p a then 1 else 0) : weight f l ≤ l.countP p := by
  induction l with
  | nil => exact Nat.le_refl 0
  | cons a l ih =>
      have hhead := h a List.mem_cons_self
      have htail := ih fun b hb => h b (List.mem_cons_of_mem a hb)
      rw [weight_cons, List.countP_cons]
      omega

theorem weight_eq_zero {l : List α} (h : ∀ a ∈ l, f a = 0) : weight f l = 0 := by
  induction l with
  | nil => rfl
  | cons a l ih =>
      rw [weight_cons, h a List.mem_cons_self, ih fun b hb => h b (List.mem_cons_of_mem a hb)]

/-- Replacing an entry by one with the same value of `g` changes no value of `g`. -/
theorem map_set_of_eq {β : Type*} (g : α → β) {l : List α} {i : Nat} {a b : α}
    (h : l[i]? = some a) (hg : g b = g a) : (l.set i b).map g = l.map g := by
  induction l generalizing i with
  | nil => simp at h
  | cons c l ih =>
      cases i with
      | zero =>
          obtain rfl : c = a := by simpa using h
          rw [List.set_cons_zero, List.map_cons, List.map_cons, hg]
      | succ i =>
          rw [List.set_cons_succ, List.map_cons, List.map_cons, ih (by simpa using h)]

end Chatsy.Foundation

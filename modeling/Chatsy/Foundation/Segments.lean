import Mathlib.Data.List.Infix
import Mathlib.Tactic.TypeStar

/-!
# Words cut at a separator

A word is cut at every separator and the empty pieces are dropped, so that a
separator at either end makes no difference. Two words joined by one separator
have the pieces of both, and the join repeats the separator only where a word
does or where the second begins with it.
-/

namespace Chatsy.Foundation

variable {α : Type*} {sep : α} {xs ys : List α}

/-- The separator stands twice in a row. -/
def Doubled (sep : α) (xs : List α) : Prop := [sep, sep] <:+: xs

section

variable [DecidableEq α]

/-- The pieces between the separators, without the empty ones. -/
def segments (sep : α) (xs : List α) : List (List α) := (xs.splitOn sep).filter (· ≠ [])

instance : Decidable (Doubled sep xs) := inferInstanceAs (Decidable ([sep, sep] <:+: xs))

theorem segments_of_not_mem (h : sep ∉ xs) (hne : xs ≠ []) : segments sep xs = [xs] := by
  rw [segments, List.splitOn_eq_singleton h]
  simp [hne]

@[simp] theorem segments_nil : segments sep [] = [] := rfl

theorem segments_append_cons (xs ys : List α) :
    segments sep (xs ++ sep :: ys) = segments sep xs ++ segments sep ys := by
  rw [segments, List.splitOn_append_cons_of_beq xs ys (beq_self_eq_true sep), List.filter_append]
  rfl

/-- A separator at the end adds no piece. -/
theorem segments_concat (xs : List α) : segments sep (xs ++ [sep]) = segments sep xs := by
  rw [segments_append_cons, segments_nil, List.append_nil]

end

theorem not_doubled_of_not_mem (h : sep ∉ xs) : ¬ Doubled sep xs := fun hdoubled =>
  h (hdoubled.subset List.mem_cons_self)

/-- A separator between two words is not doubled when the second does not begin with one. -/
theorem not_doubled_append_cons (hxs : sep ∉ xs) (hys : ¬ Doubled sep ys)
    (hhead : ys.head? ≠ some sep) : ¬ Doubled sep (xs ++ sep :: ys) := by
  induction xs with
  | nil =>
      rw [Doubled, List.nil_append, List.infix_cons_iff]
      rintro (hstart | hinfix)
      · obtain ⟨rest, hrest⟩ := hstart
        obtain rfl : sep :: rest = ys := (List.cons.inj hrest).2
        exact hhead rfl
      · exact hys hinfix
  | cons x xs ih =>
      obtain ⟨hne, hxs⟩ := not_or.mp (List.mem_cons.not.mp hxs)
      rw [Doubled, List.cons_append, List.infix_cons_iff]
      rintro (hstart | hinfix)
      · obtain ⟨rest, hrest⟩ := hstart
        exact hne (List.cons.inj hrest).1
      · exact ih hxs hinfix

end Chatsy.Foundation

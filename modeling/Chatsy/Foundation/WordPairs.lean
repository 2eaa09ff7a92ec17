import Mathlib.Data.List.Lex
import Mathlib.Data.Sym.Sym2

/-!
# Joining the two words of an unordered pair

Two words are sorted lexicographically and concatenated without a separator.
The join is a name for the unordered pair only as long as no joined word can
be cut in two ways. By the overlap of two cuts of one word, a second cut moves
a nonempty middle word from the end of one part to the front of the other, so
the sets of words on which the join is injective are exactly those without
such an overlap.
-/

namespace Chatsy.Foundation

variable {α : Type*} [LinearOrder α]

/-- The two words in increasing order, without a separator. -/
def sortedJoin (u v : List α) : List α := if u ≤ v then u ++ v else v ++ u

theorem sortedJoin_comm (u v : List α) : sortedJoin u v = sortedJoin v u := by
  unfold sortedJoin
  by_cases huv : u ≤ v
  · by_cases hvu : v ≤ u
    · rw [le_antisymm huv hvu]
    · rw [if_pos huv, if_neg hvu]
  · rw [if_neg huv, if_pos (le_of_not_ge huv)]

/-- Two members of `U` share a nonempty word `w` that one joined word can end
its first part with and begin its second part with. -/
def Overlap (U : Set (List α)) : Prop :=
  ∃ a w b, w ≠ [] ∧ a ∈ U ∧ w ++ b ∈ U ∧ a ++ w ∈ U ∧ b ∈ U ∧
    a < w ++ b ∧ a ++ w < b

/-- The join tells the unordered pairs of distinct members of `U` apart. -/
def JoinInjective (U : Set (List α)) : Prop :=
  ∀ a ∈ U, ∀ b ∈ U, ∀ c ∈ U, ∀ d ∈ U, a ≠ b → c ≠ d →
    sortedJoin a b = sortedJoin c d → s(a, b) = s(c, d)

theorem le_append_word (a w : List α) : a ≤ a ++ w := by
  induction a with
  | nil =>
      rcases List.lex_nil_or_eq_nil (r := (· < ·)) w with h | h
      · exact le_of_lt h
      · rw [h]
        exact le_rfl
  | cons x a ih => exact List.cons_le_cons x ih

theorem sortedJoin_of_lt {a b : List α} (h : a < b) : sortedJoin a b = a ++ b :=
  if_pos h.le

/-- Equal joins of two sorted pairs cut one word twice: the pairs agree or overlap. -/
theorem eq_or_overlap_of_append_eq {U : Set (List α)} {a b c d : List α}
    (ha : a ∈ U) (hb : b ∈ U) (hc : c ∈ U) (hd : d ∈ U) (hab : a < b) (hcd : c < d)
    (h : a ++ b = c ++ d) : (a = c ∧ b = d) ∨ Overlap U := by
  rcases List.append_eq_append_iff.mp h with ⟨w, rfl, rfl⟩ | ⟨w, rfl, rfl⟩
  · by_cases hw : w = []
    · exact Or.inl (by simp [hw])
    · exact Or.inr ⟨a, w, d, hw, ha, hb, hc, hd, hab, hcd⟩
  · by_cases hw : w = []
    · exact Or.inl (by simp [hw])
    · exact Or.inr ⟨c, w, b, hw, hc, hd, ha, hb, hcd, hab⟩

private theorem exists_sorted_pair {U : Set (List α)} {a b : List α}
    (ha : a ∈ U) (hb : b ∈ U) (hne : a ≠ b) :
    ∃ x ∈ U, ∃ y ∈ U, x < y ∧ s(x, y) = s(a, b) ∧ sortedJoin a b = x ++ y := by
  rcases lt_or_gt_of_ne hne with h | h
  · exact ⟨a, ha, b, hb, h, rfl, sortedJoin_of_lt h⟩
  · exact ⟨b, hb, a, ha, h, Sym2.eq_swap,
      (sortedJoin_comm a b).trans (sortedJoin_of_lt h)⟩

/-- An overlap gives two different pairs of members of `U` one join. -/
theorem exists_collision_of_overlap {U : Set (List α)} (h : Overlap U) :
    ∃ a ∈ U, ∃ b ∈ U, ∃ c ∈ U, ∃ d ∈ U, a ≠ b ∧ c ≠ d ∧
      sortedJoin a b = sortedJoin c d ∧ s(a, b) ≠ s(c, d) := by
  obtain ⟨a, w, b, hw, ha, hwb, haw, hb, h₁, h₂⟩ := h
  refine ⟨a, ha, w ++ b, hwb, a ++ w, haw, b, hb, h₁.ne, h₂.ne, ?_, ?_⟩
  · rw [sortedJoin_of_lt h₁, sortedJoin_of_lt h₂, List.append_assoc]
  · intro hpair
    rcases Sym2.eq_iff.mp hpair with ⟨h, _⟩ | ⟨h, _⟩
    · exact hw (List.self_eq_append_right.mp h)
    · subst h
      exact absurd h₂ (not_lt_of_ge (le_append_word a w))

/-- The join names the unordered pairs of `U` exactly when no overlap exists. -/
theorem joinInjective_iff_not_overlap (U : Set (List α)) :
    JoinInjective U ↔ ¬ Overlap U := by
  constructor
  · intro hinj hov
    obtain ⟨a, ha, b, hb, c, hc, d, hd, hab, hcd, hjoin, hne⟩ :=
      exists_collision_of_overlap hov
    exact hne (hinj a ha b hb c hc d hd hab hcd hjoin)
  · intro hno a ha b hb c hc d hd hab hcd h
    obtain ⟨x, hx, y, hy, hxy, hpair, hjoin⟩ := exists_sorted_pair ha hb hab
    obtain ⟨z, hz, t, ht, hzt, hpair', hjoin'⟩ := exists_sorted_pair hc hd hcd
    rw [hjoin, hjoin'] at h
    rcases eq_or_overlap_of_append_eq hx hy hz ht hxy hzt h with ⟨rfl, rfl⟩ | hov
    · exact hpair.symm.trans hpair'
    · exact absurd hov hno

/-- Words none of which properly begins another have no overlap. -/
theorem not_overlap_of_prefixFree {U : Set (List α)}
    (hU : ∀ a ∈ U, ∀ w, a ++ w ∈ U → w = []) : ¬ Overlap U := by
  rintro ⟨a, w, _, hw, ha, _, haw, _⟩
  exact hw (hU a ha w haw)

end Chatsy.Foundation

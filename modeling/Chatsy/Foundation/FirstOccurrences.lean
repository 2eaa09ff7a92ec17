import Mathlib.Data.List.Induction
import Mathlib.Data.List.Nodup
import Mathlib.Order.Lattice
import Mathlib.Tactic.TypeStar

/-!
# First occurrences

The rows of a list that repeat no earlier row, by their positions. Keeping
exactly these rows is the removal of duplicates that keeps the first of each. A
sweep from the top that stops at the first repetition has seen only the values
above it, so it finds every repeated row exactly when no value that comes again
occurs for the first time below that.
-/

namespace Chatsy.Foundation

variable {α : Type*}

/-- Row `j` repeats row `i` above it. -/
def Repeats (l : List α) (i j : Nat) : Prop := i < j ∧ ∃ a, l[i]? = some a ∧ l[j]? = some a

/-- Row `j` repeats no row above it. -/
def First (l : List α) (j : Nat) : Prop := ∀ i, ¬ Repeats l i j

theorem length_of_repeats {l : List α} {i j : Nat} (h : Repeats l i j) : i < l.length := by
  obtain ⟨_, a, hi, _⟩ := h
  exact (List.getElem?_eq_some_iff.mp hi).1

/-- Two first occurrences of one value are one row. -/
theorem first_unique {l : List α} {i j : Nat} {a : α} (hi : l[i]? = some a) (hj : l[j]? = some a)
    (hfirst : First l i) (hfirst' : First l j) : i = j := by
  rcases Nat.lt_trichotomy i j with hlt | heq | hgt
  · exact absurd ⟨hlt, a, hi, hj⟩ (hfirst' i)
  · exact heq
  · exact absurd ⟨hgt, a, hj, hi⟩ (hfirst j)

/-- A row repeats another exactly when its value is found above it. -/
theorem exists_repeats_iff {l : List α} {j : Nat} {a : α} (h : l[j]? = some a) :
    (∃ i, Repeats l i j) ↔ a ∈ l.take j := by
  constructor
  · rintro ⟨i, hij, b, hi, hj⟩
    obtain rfl : a = b := Option.some.inj (h.symm.trans hj)
    apply List.mem_iff_getElem?.mpr
    exact ⟨i, by rw [List.getElem?_take_of_lt hij, hi]⟩
  · intro hmem
    obtain ⟨i, hi⟩ := List.mem_iff_getElem?.mp hmem
    have hlt : i < j := by
      have hlength := (List.getElem?_eq_some_iff.mp hi).1
      rw [List.length_take] at hlength
      omega
    rw [List.getElem?_take_of_lt hlt] at hi
    exact ⟨i, hlt, a, hi, h⟩

theorem first_iff {l : List α} {j : Nat} {a : α} (h : l[j]? = some a) :
    First l j ↔ a ∉ l.take j := by
  rw [First, ← not_exists, exists_repeats_iff h]

/-- Every value of the list has a first occurrence, which its other occurrences repeat. -/
theorem exists_first {l : List α} {i : Nat} {a : α} (h : l[i]? = some a) :
    ∃ k ≤ i, l[k]? = some a ∧ First l k := by
  induction i using Nat.strongRecOn with
  | ind i ih =>
      by_cases hfirst : First l i
      · exact ⟨i, Nat.le_refl i, h, hfirst⟩
      · obtain ⟨k, hki, b, hk, hi⟩ := not_forall_not.mp hfirst
        obtain rfl : a = b := Option.some.inj (h.symm.trans hi)
        obtain ⟨m, hm, hma, hmfirst⟩ := ih k hki hk
        exact ⟨m, hm.trans hki.le, hma, hmfirst⟩

/-- The rows above a position are distinct exactly when each of them is a first occurrence. -/
theorem nodup_take_iff {l : List α} {n : Nat} (hn : n ≤ l.length) :
    (l.take n).Nodup ↔ ∀ k < n, First l k := by
  constructor
  · rintro h k hk i ⟨hik, a, hi, hka⟩
    have hi' : (l.take n)[i]? = some a := by rw [List.getElem?_take_of_lt (hik.trans hk), hi]
    have hk' : (l.take n)[k]? = some a := by rw [List.getElem?_take_of_lt hk, hka]
    have hlength := (List.getElem?_eq_some_iff.mp hi').1
    exact hik.ne ((List.getElem?_inj hlength h).mp (hi'.trans hk'.symm))
  · intro h
    rw [List.nodup_iff_getElem?_ne_getElem?]
    intro i j hij hj heq
    have hjn : j < n := by
      rw [List.length_take] at hj
      omega
    rw [List.getElem?_take_of_lt (hij.trans hjn), List.getElem?_take_of_lt hjn] at heq
    have hrow : l[j]? = some l[j] := List.getElem?_eq_getElem (by omega)
    exact h j hjn i ⟨hij, l[j], heq.trans hrow, hrow⟩

/-- The first occurrence of each value that comes again has distinct rows above it. -/
def RepeatsEarly (l : List α) : Prop :=
  ∀ pre a post, l = pre ++ a :: post → a ∉ pre → a ∈ post → pre.Nodup

/-- A sweep that stops at the first repetition finds every repeated row exactly when the
repeated values all occur before it. -/
theorem swept_iff_repeatsEarly (l : List α) :
    (∀ j, (∃ i, Repeats l i j) → ∃ k, Repeats l k j ∧ ∀ m ≤ k, First l m) ↔ RepeatsEarly l := by
  constructor
  · rintro h pre a post rfl hpre hpost
    have hrow : (pre ++ a :: post)[pre.length]? = some a := by simp
    have hfirst : First (pre ++ a :: post) pre.length := by
      rw [first_iff hrow, List.take_left]
      exact hpre
    obtain ⟨n, hn⟩ := List.mem_iff_getElem?.mp hpost
    have hagain : (pre ++ a :: post)[pre.length + (n + 1)]? = some a := by
      rw [List.getElem?_append_right (by omega), Nat.add_sub_cancel_left]
      exact hn
    obtain ⟨k, ⟨hk, b, hkb, hjb⟩, hreached⟩ :=
      h (pre.length + (n + 1)) ⟨pre.length, by omega, a, hrow, hagain⟩
    obtain rfl : a = b := Option.some.inj (hagain.symm.trans hjb)
    obtain rfl := first_unique hrow hkb hfirst (hreached k (Nat.le_refl k))
    have hnodup : ((pre ++ a :: post).take pre.length).Nodup :=
      (nodup_take_iff (by simp)).mpr fun m hm => hreached m hm.le
    rwa [List.take_left] at hnodup
  · rintro h j ⟨i, hij, a, hi, hj⟩
    obtain ⟨k, hki, hk, hfirst⟩ := exists_first hi
    obtain ⟨hlt, hget⟩ := List.getElem?_eq_some_iff.mp hk
    have hsplit : l = l.take k ++ a :: l.drop (k + 1) := by
      rw [← hget, List.getElem_cons_drop, List.take_append_drop]
    have hpost : a ∈ l.drop (k + 1) := by
      apply List.mem_iff_getElem?.mpr
      refine ⟨j - (k + 1), ?_⟩
      rw [List.getElem?_drop, Nat.add_sub_cancel' (by omega), hj]
    have hnodup := h _ a _ hsplit ((first_iff hk).mp hfirst) hpost
    refine ⟨k, ⟨by omega, a, hk, hj⟩, fun m hm => ?_⟩
    rcases Nat.lt_or_eq_of_le hm with hm | rfl
    · exact (nodup_take_iff hlt.le).mp hnodup m hm
    · exact hfirst

variable [BEq α] [LawfulBEq α]

theorem eraseDups_concat (l : List α) (a : α) :
    (l ++ [a]).eraseDups = l.eraseDups ++ if a ∈ l then [] else [a] := by
  rw [List.eraseDups_append]
  by_cases h : a ∈ l
  · simp [List.removeAll, h]
  · simp [List.removeAll, h, List.eraseDups_cons]

/-- The rows that no earlier row equals, in their order, are the list without duplicates. -/
theorem filterMap_first_eq_eraseDups (l : List α) :
    (List.range l.length).filterMap
      (fun j => l[j]?.bind fun a => if a ∈ l.take j then none else some a) = l.eraseDups := by
  induction l using List.reverseRecOn with
  | nil => rfl
  | append_singleton l a ih =>
      have hold : ∀ j ∈ List.range l.length,
          ((l ++ [a])[j]?.bind fun b => if b ∈ (l ++ [a]).take j then none else some b) =
            l[j]?.bind fun b => if b ∈ l.take j then none else some b := by
        intro j hj
        have hlt : j < l.length := List.mem_range.mp hj
        rw [List.getElem?_append_left hlt, List.take_append_of_le_length hlt.le]
      have hnew : ((l ++ [a])[l.length]?.bind fun b =>
          if b ∈ (l ++ [a]).take l.length then none else some b) =
            if a ∈ l then none else some a := by
        rw [List.getElem?_concat_length, List.take_left, Option.bind_some]
      rw [List.length_append, List.length_singleton, List.range_succ, List.filterMap_append,
        List.filterMap_congr hold, ih, eraseDups_concat, List.filterMap_cons, hnew]
      by_cases h : a ∈ l
      · simp [h]
      · simp [h]

end Chatsy.Foundation

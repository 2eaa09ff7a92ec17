import Mathlib.Data.List.Perm.Subperm

/-!
# Covering a list by a prefix of an older one

Values are collected batch after batch, and a prefix of the whole collection,
as long as the last batch, is read. With distinct values in the last batch the
prefix has exactly its members when what was collected before has been lost
from its end: a rearrangement of the same values.
-/

namespace Chatsy.Foundation

variable {α : Type*}

/-- A list as short as one of distinct values has its members exactly when it is an
arrangement of them. -/
theorem perm_iff_mem_iff {xs ys : List α} (hys : ys.Nodup) (hlength : xs.length = ys.length) :
    xs.Perm ys ↔ ∀ a, a ∈ xs ↔ a ∈ ys := by
  constructor
  · exact fun h a => h.mem_iff
  · intro h
    have hsubperm : ys.Subperm xs := List.subperm_of_subset hys fun a ha => (h a).mpr ha
    exact (hsubperm.perm_of_length_le (Nat.le_of_eq hlength)).symm

/-- The prefix has the members of the last batch exactly when the part of the older values in it
is an arrangement of the part of the batch that it lacks. -/
theorem take_covers_iff (xs : List α) {ys : List α} (hys : ys.Nodup) :
    (∀ a, a ∈ (xs ++ ys).take ys.length ↔ a ∈ ys) ↔
      (xs.take ys.length).Perm (ys.drop (ys.length - xs.length)) := by
  have hlength : ((xs ++ ys).take ys.length).length = ys.length := by
    rw [List.length_take, List.length_append]
    omega
  rw [← perm_iff_mem_iff hys hlength, List.take_append]
  have hbatch : ys = ys.take (ys.length - xs.length) ++ ys.drop (ys.length - xs.length) :=
    (List.take_append_drop _ _).symm
  constructor
  · intro h
    have hperm : (ys.take (ys.length - xs.length) ++ xs.take ys.length).Perm
        (ys.take (ys.length - xs.length) ++ ys.drop (ys.length - xs.length)) := by
      rw [← hbatch]
      exact List.perm_append_comm.trans h
    exact (List.perm_append_left_iff _).mp hperm
  · intro h
    have hperm := (List.perm_append_left_iff (ys.take (ys.length - xs.length))).mpr h
    rw [← hbatch] at hperm
    exact List.perm_append_comm.trans hperm

/-- A prefix shorter than a list of distinct values lacks one of them. -/
theorem exists_not_mem_of_length_lt {xs ys : List α} (hys : ys.Nodup)
    (hlength : xs.length < ys.length) : ∃ a ∈ ys, a ∉ xs := by
  by_contra hnone
  have hsubset : ys ⊆ xs := by
    intro a ha
    by_contra hxs
    exact hnone ⟨a, ha, hxs⟩
  have hle := (List.subperm_of_subset hys hsubset).length_le
  omega

/-- Distinct values other than one of them are one less. -/
theorem length_filter_ne [DecidableEq α] {l : List α} (hl : l.Nodup) {a : α} (ha : a ∈ l) :
    (l.filter (· ≠ a)).length + 1 = l.length := by
  have herase : l.filter (· ≠ a) = l.erase a := by
    rw [hl.erase_eq_filter]
    exact List.filter_congr fun b _ => by by_cases h : b = a <;> simp [h]
  have hpos := List.length_pos_of_mem ha
  rw [herase, List.length_erase_of_mem ha]
  omega

end Chatsy.Foundation

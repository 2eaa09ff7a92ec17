import Mathlib.Data.List.Basic
import Mathlib.Data.List.Perm.Basic
import Mathlib.Tactic.TypeStar

/-!
# Ledgers of numbered entries

Each entry of a list accounts for some items, which may depend on its number.
The ledger of the list is all of them together. Appending an entry adds its
items at the end, and an entry that comes to account for more items adds those,
up to order.
-/

namespace Chatsy.Foundation

variable {α β : Type*} (items : α → Nat → List β)

/-- The items of the entries of a list, numbered from `n`. -/
def ledgerFrom : Nat → List α → List β
  | _, [] => []
  | n, a :: l => items a n ++ ledgerFrom (n + 1) l

/-- The items of the entries of a list, each under its number. -/
def ledger (l : List α) : List β := ledgerFrom items 0 l

@[simp] theorem ledger_nil : ledger items [] = [] := rfl

theorem ledgerFrom_concat (n : Nat) (l : List α) (a : α) :
    ledgerFrom items n (l ++ [a]) = ledgerFrom items n l ++ items a (n + l.length) := by
  induction l generalizing n with
  | nil => exact List.append_nil _
  | cons b l ih =>
      rw [List.cons_append, ledgerFrom, ledgerFrom, ih, List.append_assoc, List.length_cons,
        Nat.add_right_comm, Nat.add_assoc]

theorem ledger_concat (l : List α) (a : α) :
    ledger items (l ++ [a]) = ledger items l ++ items a l.length := by
  rw [ledger, ledgerFrom_concat, Nat.zero_add, ledger]

theorem ledgerFrom_set {n : Nat} {l : List α} {i : Nat} {a b : α} {more : List β}
    (h : l[i]? = some a) (hitems : items b (n + i) = items a (n + i) ++ more) :
    (ledgerFrom items n (l.set i b)).Perm (ledgerFrom items n l ++ more) := by
  induction l generalizing n i with
  | nil => simp at h
  | cons c l ih =>
      cases i with
      | zero =>
          obtain rfl : c = a := by simpa using h
          rw [List.set_cons_zero, ledgerFrom, ledgerFrom, show n = n + 0 from rfl, hitems,
            List.append_assoc, List.append_assoc]
          exact List.Perm.append_left _ List.perm_append_comm
      | succ i =>
          rw [List.set_cons_succ, ledgerFrom, ledgerFrom, List.append_assoc]
          apply List.Perm.append_left
          apply ih (by simpa using h)
          rwa [Nat.add_right_comm, Nat.add_assoc]

/-- An entry that comes to account for more items adds those to the ledger. -/
theorem ledger_set {l : List α} {i : Nat} {a b : α} {more : List β} (h : l[i]? = some a)
    (hitems : items b i = items a i ++ more) :
    (ledger items (l.set i b)).Perm (ledger items l ++ more) := by
  apply ledgerFrom_set items h
  rwa [Nat.zero_add]

theorem mem_ledgerFrom {n : Nat} {l : List α} {x : β} :
    x ∈ ledgerFrom items n l ↔ ∃ i a, l[i]? = some a ∧ x ∈ items a (n + i) := by
  induction l generalizing n with
  | nil => simp [ledgerFrom]
  | cons c l ih =>
      rw [ledgerFrom, List.mem_append, ih]
      constructor
      · rintro (hx | ⟨i, a, ha, hx⟩)
        · exact ⟨0, c, rfl, hx⟩
        · exact ⟨i + 1, a, ha, by rwa [Nat.add_right_comm, Nat.add_assoc] at hx⟩
      · rintro ⟨i, a, ha, hx⟩
        cases i with
        | zero =>
            obtain rfl : c = a := by simpa using ha
            exact Or.inl hx
        | succ i => exact Or.inr ⟨i, a, by simpa using ha, by
            rwa [Nat.add_right_comm, Nat.add_assoc]⟩

/-- The ledger holds what some entry accounts for. -/
theorem mem_ledger {l : List α} {x : β} :
    x ∈ ledger items l ↔ ∃ i a, l[i]? = some a ∧ x ∈ items a i := by
  simp only [ledger, mem_ledgerFrom, Nat.zero_add]

theorem nodup_ledgerFrom {n : Nat} {l : List α}
    (hnodup : ∀ i a, l[i]? = some a → (items a (n + i)).Nodup)
    (happart : ∀ i j a b x, l[i]? = some a → l[j]? = some b → x ∈ items a (n + i) →
      x ∈ items b (n + j) → i = j) : (ledgerFrom items n l).Nodup := by
  induction l generalizing n with
  | nil => exact List.nodup_nil
  | cons c l ih =>
      have hshift : ∀ i, n + 1 + i = n + (i + 1) := fun i => by omega
      rw [ledgerFrom, List.nodup_append]
      refine ⟨hnodup 0 c rfl, ?_, ?_⟩
      · apply ih
        · intro i a ha
          rw [hshift]
          exact hnodup (i + 1) a ha
        · intro i j a b x ha hb hx hy
          rw [hshift] at hx hy
          exact Nat.succ_inj.mp (happart (i + 1) (j + 1) a b x ha hb hx hy)
      · rintro x hx _ hy rfl
        obtain ⟨j, b, hb, hy⟩ := (mem_ledgerFrom items).mp hy
        rw [hshift] at hy
        exact absurd (happart 0 (j + 1) c b x rfl hb hx hy) (Nat.succ_ne_zero j).symm

/-- A ledger repeats no item when no entry does and no two entries share one. -/
theorem nodup_ledger {l : List α} (hnodup : ∀ i a, l[i]? = some a → (items a i).Nodup)
    (happart : ∀ i j a b x, l[i]? = some a → l[j]? = some b → x ∈ items a i → x ∈ items b j →
      i = j) : (ledger items l).Nodup := by
  apply nodup_ledgerFrom
  · intro i a ha
    rw [Nat.zero_add]
    exact hnodup i a ha
  · intro i j a b x ha hb hx hy
    rw [Nat.zero_add] at hx hy
    exact happart i j a b x ha hb hx hy

end Chatsy.Foundation

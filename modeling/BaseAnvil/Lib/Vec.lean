import Mathlib.Data.List.Perm.Basic

/-!
# BaseAnvil.Lib.Vec

Vectors as lists, with the one operation lists lack: `swapRemove`, which fills
the hole an element leaves with the last element. The order of what stays is
not kept, so everything below is up to permutation.
-/

namespace BaseAnvil.Lib

variable {α : Type}

/-- Take out the element at `i`, moving the last element into its place. -/
def swapRemove (l : List α) (i : Nat) : List α :=
  match l.getLast? with
  | none => []
  | some x => (l.set i x).dropLast

variable {l : List α} {i : Nat}

theorem exists_split (h : i < l.length) :
    ∃ before a after, l = before ++ a :: after ∧ before.length = i :=
  ⟨l.take i, l.get ⟨i, h⟩, l.drop (i + 1), by simp, by simp; omega⟩

/-- What stands before the hole stays there. -/
theorem swapRemove_append_cons (before : List α) (a : α) (after : List α) :
    ∃ rest, swapRemove (before ++ a :: after) before.length = before ++ rest ∧
      rest.Perm after := by
  rcases List.eq_nil_or_concat' after with rfl | ⟨after, x, rfl⟩
  · exact ⟨[], by simp [swapRemove], .refl _⟩
  · refine ⟨x :: after, ?_, (List.perm_append_singleton x after).symm⟩
    have hlast : (before ++ a :: (after ++ [x])).getLast? = some x := by
      rw [← List.cons_append, ← List.append_assoc, List.getLast?_concat]
    have hset : (before ++ a :: (after ++ [x])).set before.length x =
        before ++ x :: after ++ [x] := by simp
    simp only [swapRemove, hlast, hset, List.dropLast_concat]

theorem swapRemove_perm (h : i < l.length) : (swapRemove l i).Perm (l.eraseIdx i) := by
  obtain ⟨before, a, after, rfl, rfl⟩ := exists_split h
  obtain ⟨rest, heq, hperm⟩ := swapRemove_append_cons before a after
  rw [heq, List.eraseIdx_append_of_length_le (Nat.le_refl _)]
  simpa using hperm.append_left before

/-- What is taken out and what stays. -/
theorem perm_cons_swapRemove {a : α} (h : l[i]? = some a) : l.Perm (a :: swapRemove l i) := by
  obtain ⟨hlt, heq⟩ := List.getElem?_eq_some_iff.mp h
  refine List.Perm.trans ?_ ((swapRemove_perm hlt).symm.cons a)
  rw [← heq]
  exact (List.getElem_cons_eraseIdx_perm hlt).symm

variable [DecidableEq α]

/-- Find the first `a` and swap-remove it. -/
def swapRemoveItem (l : List α) (a : α) : List α :=
  match l.idxOf? a with
  | none => l
  | some i => swapRemove l i

theorem swapRemoveItem_perm (l : List α) (a : α) : (swapRemoveItem l a).Perm (l.erase a) := by
  unfold swapRemoveItem
  rw [List.erase_eq_eraseIdx]
  cases h : l.idxOf? a with
  | none => exact List.Perm.refl l
  | some i =>
    obtain ⟨hi, -, -⟩ := List.idxOf?_eq_some_iff.mp h
    exact swapRemove_perm hi

theorem swapRemoveItem_of_notMem {a : α} (h : a ∉ l) : swapRemoveItem l a = l := by
  unfold swapRemoveItem
  rw [List.idxOf?_eq_none_iff.mpr h]

theorem mem_of_mem_swapRemoveItem {a b : α} (h : b ∈ swapRemoveItem l a) : b ∈ l :=
  List.mem_of_mem_erase ((swapRemoveItem_perm l a).mem_iff.mp h)

/-- Nothing but `a` is touched. -/
theorem mem_swapRemoveItem_of_ne {a b : α} (h : b ≠ a) : b ∈ swapRemoveItem l a ↔ b ∈ l := by
  rw [(swapRemoveItem_perm l a).mem_iff, List.mem_erase_of_ne h]

theorem length_swapRemoveItem_le (l : List α) (a : α) : (swapRemoveItem l a).length ≤ l.length := by
  rw [(swapRemoveItem_perm l a).length_eq]
  exact List.length_erase_le

end BaseAnvil.Lib

import Mathlib.Data.List.NodupEquivFin

/-!
# BaseAnvil.Lib.Subseq

Looking for the elements of one list, in their order, in another one.

The greedy search waits for the first element, then for the second, and so on. It finds all of
them if and only if the second list has increasing positions for them.
-/

namespace BaseAnvil.Lib

variable {α β : Type} {r : α → β → Bool}

/-- What is still waited for after `b`. -/
def advance (r : α → β → Bool) : List α → β → List α
  | [], _ => []
  | a :: l, b => if r a b then l else a :: l

variable {l : List α} {m : List β}

theorem sublistForall₂_tail {R : α → β → Prop} {a : α} (h : List.SublistForall₂ R (a :: l) m) :
    List.SublistForall₂ R l m := by
  rw [List.sublistForall₂_iff] at h ⊢
  obtain ⟨found, hrel, hsub⟩ := h
  cases hrel with
  | cons _ hrel => exact ⟨_, hrel, (List.sublist_cons_self _ _).trans hsub⟩

/-- Waiting for the first element first loses nothing. -/
theorem foldl_advance_eq_nil :
    m.foldl (advance r) l = [] ↔ List.SublistForall₂ (fun a b => r a b = true) l m := by
  induction m generalizing l with
  | nil =>
    cases l with
    | nil => exact iff_of_true rfl .nil
    | cons a l => exact iff_of_false nofun nofun
  | cons b m ih =>
    rw [List.foldl_cons, ih]
    cases l with
    | nil => exact iff_of_true .nil .nil
    | cons a l =>
      rw [advance]
      split
      · rename_i hab
        refine ⟨fun h => .cons hab h, fun h => ?_⟩
        cases h with
        | cons _ h => exact h
        | cons_right h => exact sublistForall₂_tail h
      · rename_i hab
        refine ⟨fun h => .cons_right h, fun h => ?_⟩
        cases h with
        | cons hab' _ => exact absurd hab' hab
        | cons_right h => exact h

/-- The same with the positions written out. -/
theorem sublistForall₂_iff_positions {R : α → β → Prop} :
    List.SublistForall₂ R l m ↔
      ∃ i : Fin l.length → Fin m.length, StrictMono i ∧ ∀ j, R (l.get j) (m.get (i j)) := by
  rw [List.sublistForall₂_iff]
  constructor
  · rintro ⟨found, hrel, hsub⟩
    obtain ⟨f, hf⟩ := List.sublist_iff_exists_fin_orderEmbedding_get_eq.mp hsub
    have hlen := hrel.length_eq
    refine ⟨fun j => f (j.cast hlen), fun j j' hjj' => f.strictMono hjj', fun j => ?_⟩
    rw [← hf]
    exact hrel.get j.2 (hlen ▸ j.2)
  · rintro ⟨i, hmono, hrel⟩
    refine ⟨List.ofFn fun j => m.get (i j), ?_, ?_⟩
    · rw [List.forall₂_iff_get]
      refine ⟨by simp, fun j hj hj' => ?_⟩
      simpa using hrel ⟨j, hj⟩
    · rw [List.sublist_iff_exists_fin_orderEmbedding_get_eq]
      refine ⟨OrderEmbedding.ofStrictMono (fun j => i (j.cast (by simp))) ?_, ?_⟩
      · intro j j' hjj'
        exact hmono hjj'
      · intro j
        exact List.get_ofFn _ j

end BaseAnvil.Lib

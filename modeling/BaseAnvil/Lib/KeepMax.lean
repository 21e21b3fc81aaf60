import Mathlib.Data.List.Basic
import Mathlib.Data.List.Induction

/-!
# BaseAnvil.Lib.KeepMax

One pass over a list that keeps what belongs to the largest key: a larger key starts anew, an
equal one is combined with what is there.
-/

namespace BaseAnvil.Lib

variable {α β : Type}

/-- One step of the pass. -/
def keepMax (key : α → Nat) (val : α → β) (combine : β → β → β) (kept : Nat × β) (a : α) :
    Nat × β :=
  if kept.1 < key a then (key a, val a)
  else if key a = kept.1 then (kept.1, combine kept.2 (val a))
  else kept

/-- The values of a list, combined from the left. -/
def combineAll (val : α → β) (combine : β → β → β) (start : β) : List α → β
  | [] => start
  | a :: rest => rest.foldl (fun b a => combine b (val a)) (val a)

section

variable {key : α → Nat} {val : α → β} {combine : β → β → β} {start : β}

theorem combineAll_concat {l : List α} (hne : l ≠ []) (a : α) :
    combineAll val combine start (l ++ [a]) = combine (combineAll val combine start l) (val a) := by
  cases l with
  | nil => exact absurd rfl hne
  | cons b rest => simp [combineAll]

/-- What is kept, after the whole list. What has the key zero is only kept if nothing else is
there. -/
structure KeptBy (key : α → Nat) (val : α → β) (combine : β → β → β) (start : β) (l : List α)
    (kept : Nat × β) : Prop where
  le : ∀ a ∈ l, key a ≤ kept.1
  attained : kept.1 = 0 ∨ ∃ a ∈ l, key a = kept.1
  value : 0 < kept.1 → kept.2 = combineAll val combine start (l.filter fun a => key a = kept.1)

theorem keptBy_foldl (l : List α) :
    KeptBy key val combine start l (l.foldl (keepMax key val combine) (0, start)) := by
  induction l using List.reverseRecOn with
  | nil => exact ⟨by simp, .inl rfl, fun _ => rfl⟩
  | append_singleton l a ih =>
    rw [List.foldl_concat]
    generalize l.foldl (keepMax key val combine) (0, start) = kept at ih
    unfold keepMax
    rcases Nat.lt_trichotomy kept.1 (key a) with hlt | heq | hgt
    · -- A larger key: nothing before has it.
      have hnone : l.filter (fun b => key b = key a) = [] :=
        List.filter_eq_nil_iff.mpr fun b hb => by
          have := ih.le b hb
          simp
          omega
      rw [if_pos hlt]
      refine ⟨?_, .inr ⟨a, by simp, rfl⟩, ?_⟩
      · intro b hb
        rcases List.mem_append.mp hb with hb | hb
        · exact Nat.le_of_lt (Nat.lt_of_le_of_lt (ih.le b hb) hlt)
        · simp_all
      · simp [hnone, combineAll]
    · rw [if_neg (by omega), if_pos heq.symm]
      refine ⟨?_, .inr ⟨a, by simp, heq.symm⟩, ?_⟩
      · intro b hb
        rcases List.mem_append.mp hb with hb | hb
        · exact ih.le b hb
        · simp_all
      · intro hpos
        have hsome : l.filter (fun b => key b = kept.1) ≠ [] := by
          rcases ih.attained with hzero | ⟨b, hb, hmax⟩
          · omega
          · exact List.ne_nil_of_mem (List.mem_filter.mpr ⟨hb, by simpa using hmax⟩)
        rw [List.filter_append, List.filter_cons_of_pos (by simp [heq]), List.filter_nil,
          combineAll_concat hsome, ih.value hpos]
    · rw [if_neg (by omega), if_neg (by omega)]
      refine ⟨?_, ?_, ?_⟩
      · intro b hb
        rcases List.mem_append.mp hb with hb | hb
        · exact ih.le b hb
        · simp_all
          omega
      · rcases ih.attained with hzero | ⟨b, hb, hmax⟩
        · exact .inl hzero
        · exact .inr ⟨b, List.mem_append_left _ hb, hmax⟩
      · intro hpos
        rw [List.filter_append, List.filter_cons_of_neg (by simp; omega), List.filter_nil,
          List.append_nil, ih.value hpos]

end

end BaseAnvil.Lib

import Mathlib.Algebra.Order.Group.Nat
import Mathlib.Data.List.Count

/-!
# BaseAnvil.Lib.Counters

A counter for each key, and tickets that it accepts in order: a ticket is accepted if its number is
the count of its key, which then goes up by one.
-/

namespace BaseAnvil.Lib

variable {α : Type} [DecidableEq α]

/-- The counter of one key goes up. -/
def bump (counts : α → Nat) (a : α) : α → Nat := Function.update counts a (counts a + 1)

/-- All tickets are accepted, one after the other. -/
def Accepts : (α → Nat) → List (α × Nat) → Prop
  | _, [] => True
  | counts, ticket :: tickets => ticket.2 = counts ticket.1 ∧ Accepts (bump counts ticket.1) tickets

/-- How many tickets are for this key. -/
def uses (a : α) (tickets : List (α × Nat)) : Nat := (tickets.map Prod.fst).count a

section

variable {counts counts' : α → Nat} {a b : α} {n : Nat} {tickets tickets' : List (α × Nat)}

theorem bump_apply : bump counts a b = counts b + if b = a then 1 else 0 := by
  unfold bump
  by_cases h : b = a
  · subst h
    simp
  · simp [h]

@[simp] theorem uses_nil : uses a [] = 0 := rfl

theorem uses_cons (ticket : α × Nat) :
    uses a (ticket :: tickets) = uses a tickets + if a = ticket.1 then 1 else 0 := by
  simp only [uses, List.map_cons, List.count_cons, beq_iff_eq]
  exact congrArg _ (if_congr eq_comm rfl rfl)

theorem uses_append : uses a (tickets ++ tickets') = uses a tickets + uses a tickets' := by
  simp only [uses, List.map_append, List.count_append]

theorem uses_eq_zero : uses a tickets = 0 ↔ a ∉ tickets.map Prod.fst := List.count_eq_zero

/-- A ticket at the end is accepted if it has the number after those of its key. -/
theorem accepts_snoc :
    Accepts counts (tickets ++ [(a, n)]) ↔
      Accepts counts tickets ∧ n = counts a + uses a tickets := by
  induction tickets generalizing counts with
  | nil => simp [Accepts]
  | cons ticket tickets ih =>
    simp only [List.cons_append, Accepts, ih, bump_apply, uses_cons, and_assoc]
    refine and_congr_right fun _ => and_congr_right fun _ => ?_
    omega

/-- Tickets that some counters accept are accepted by others exactly if these agree on their
keys. -/
theorem Accepts.accepts_iff (h : Accepts counts tickets) :
    Accepts counts' tickets ↔ ∀ a ∈ tickets.map Prod.fst, counts' a = counts a := by
  induction tickets generalizing counts counts' with
  | nil => simp [Accepts]
  | cons ticket tickets ih =>
    obtain ⟨hnumber, hrest⟩ := h
    rw [Accepts, ih hrest, hnumber, List.map_cons, List.forall_mem_cons]
    constructor
    · rintro ⟨hfirst, hall⟩
      refine ⟨hfirst.symm, fun a ha => ?_⟩
      have heq := hall a ha
      rw [bump_apply, bump_apply] at heq
      omega
    · rintro ⟨hfirst, hall⟩
      refine ⟨hfirst.symm, fun a ha => ?_⟩
      rw [bump_apply, bump_apply, hall a ha]

end

end BaseAnvil.Lib

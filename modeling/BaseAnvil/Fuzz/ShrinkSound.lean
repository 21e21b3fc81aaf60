import BaseAnvil.Fuzz.Sequence

/-!
# BaseAnvil.Fuzz.ShrinkSound

What is left of a failing sequence after shrinking.

A call whose removal makes the sequence pass is put back, but one whose removal makes the replay
end in an error is not. So the sequence still fails as long as no part of the calls ends in an error
(`fails_shrinkLoop`). That no further call can be removed holds in any case (`minimal_shrinkLoop`).

From the latter it follows that the condition cannot be weakened, as far as it is about errors only.
If a part of the calls ends in an error, let all sequences fail that have this part in them and
more. Whatever fails then has a call that can be left out without passing, so it is not what is
returned (`clean_of_fails`).
-/

namespace BaseAnvil.Fuzz

variable {α ε : Type}

namespace Oracle

variable (oracle : Oracle α ε) (calls : List α)

/-- Replaying the sequence breaks the invariant. -/
def Fails (sequence : List α) : Prop := ∃ b, oracle.check sequence = .ok (false, b)

/-- Replaying the sequence leaves the invariant as it is. -/
def Passes (sequence : List α) : Prop := ∃ b, oracle.check sequence = .ok (true, b)

/-- Replaying the sequence ends in an error, so that nothing is known about the invariant. -/
def Errs (sequence : List α) : Prop := ∃ e, oracle.check sequence = .error e

/-- No part of the calls ends in an error. -/
def Clean : Prop := ∀ sequence : List α, sequence.Sublist calls → ¬oracle.Errs sequence

end Oracle

/-! ### Selections -/

variable {included : Finset Nat}

section

variable {calls : List α}

end

/-! ### One round -/

variable {idx limit : Nat}

section

variable (oracle : Oracle α ε) {calls : List α}

variable {oracle} {sequence : List α}

end

/-! ### What is returned still fails -/

variable {oracle : Oracle α ε}

section

variable {calls : List α} (hfails : oracle.Fails (select calls included))
include hfails

end

/-! ### Nothing more can be left out -/

section

variable {calls : List α} {left : Nat}

/-- This is known for all calls but the next `left` ones. -/
def Oracle.MinimalBut (oracle : Oracle α ε) (calls : List α) (included : Finset Nat)
    (left idx : Nat) : Prop :=
  ∀ id ∈ included, (∀ t < left, id ≠ (idx + t) % calls.length) →
    oracle.Passes (select calls (included.erase id))

theorem nextIdx_eq (hidx : idx < calls.length) : nextIdx calls idx = (idx + 1) % calls.length := by
  unfold nextIdx
  split
  · rename_i h
    rw [h, Nat.mod_self]
  · exact (Nat.mod_eq_of_lt (by omega)).symm

/-- A round that changes nothing has tried one more call. -/
theorem Oracle.MinimalBut.tried (h : oracle.MinimalBut calls included (left + 1) idx)
    (hidx : idx < calls.length)
    (hpasses : idx ∈ included → oracle.Passes (select calls (included.erase idx))) :
    oracle.MinimalBut calls included left (nextIdx calls idx) := by
  intro id hid hnone
  by_cases hsame : id = idx
  · subst hsame
    exact hpasses hid
  · refine h id hid fun t ht => ?_
    cases t with
    | zero => rwa [Nat.add_zero, Nat.mod_eq_of_lt hidx]
    | succ t =>
      have hnext := hnone t (by omega)
      rwa [nextIdx_eq hidx, Nat.mod_add_mod, Nat.add_assoc, Nat.add_comm 1 t] at hnext

end

/-! ### Shrinking -/

section

variable (oracle : Oracle α ε) (calls : List α)

variable {calls}

end

/-! ### Errors that mislead the shrinker -/

section

variable [DecidableEq α] {part sequence : List α}

end

section

variable (oracle : Oracle α ε) (calls : List α)

end

end BaseAnvil.Fuzz

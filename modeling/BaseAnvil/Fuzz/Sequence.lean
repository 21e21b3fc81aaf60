import Mathlib.Data.Finset.Card
import Mathlib.Data.List.Sort

/-!
# BaseAnvil.Fuzz.Sequence

Replaying and shrinking the calls of a failed invariant test (`check_sequence` and
`shrink_sequence` of `evm/src/executors/invariant/shrink.rs`).

What the executor does with a call and with a check is a parameter, `Runner`: it may be anything, as
long as it is the same each time. The shrinker only sees the outcome of whole sequences, so it is
written for an `Oracle`, of which a runner is an instance.
-/

namespace BaseAnvil.Fuzz

/-! ### Replaying -/

/-- What a call does besides changing the state. -/
structure CallOutcome where
  reverted : Bool
  /-- The result is `MAGIC_ASSUME`. -/
  isAssume : Bool
deriving DecidableEq, Repr

/-- An executor with states `σ` for calls `α`. -/
structure Runner (σ α ε : Type) where
  /-- `execute_tx` and the commit that follows it. -/
  execute : σ → α → Except ε (σ × CallOutcome)
  /-- `call_invariant_function`. -/
  callInvariant : σ → Except ε Bool
  /-- `call_after_invariant_function`. -/
  callAfterInvariant : σ → Except ε Bool

namespace Runner

variable {σ α ε : Type} (runner : Runner σ α ε)

/-- The checks after the calls. -/
def finalCheck (callAfterInvariant : Bool) (s : σ) : Except ε (Bool × Bool) :=
  match runner.callInvariant s with
  | .error e => .error e
  | .ok success =>
    if success && callAfterInvariant then
      match runner.callAfterInvariant s with
      | .error e => .error e
      | .ok success => .ok (success, true)
    else .ok (success, true)

/-- `check_sequence`, for the calls of the sequence: whether the invariant holds, and whether all
calls were made. -/
def checkSequence (failOnRevert callAfterInvariant : Bool) : List α → σ → Except ε (Bool × Bool)
  | [], s => runner.finalCheck callAfterInvariant s
  | call :: calls, s =>
    match runner.execute s call with
    | .error e => .error e
    | .ok (s, outcome) =>
      -- Rejected assumptions are ignored.
      if outcome.reverted && failOnRevert && !outcome.isAssume then .ok (false, false)
      else checkSequence failOnRevert callAfterInvariant calls s

end Runner

/-! ### Shrinking -/

/-- The outcomes of sequences. -/
structure Oracle (α ε : Type) where
  /-- The invariant before any call. -/
  invariant : Except ε Bool
  check : List α → Except ε (Bool × Bool)
  /-- The check of no calls begins with the invariant. -/
  invariant_of_check : ∀ b, check [] = .ok (true, b) → invariant = .ok true

/-- The outcomes of a runner from a state. -/
def Runner.oracle {σ α ε : Type} (runner : Runner σ α ε) (failOnRevert callAfterInvariant : Bool)
    (s : σ) : Oracle α ε where
  invariant := runner.callInvariant s
  check calls := runner.checkSequence failOnRevert callAfterInvariant calls s
  invariant_of_check b h := by
    simp only [Runner.checkSequence, Runner.finalCheck] at h
    cases hcall : runner.callInvariant s with
    | error e => simp [hcall] at h
    | ok success =>
      cases success with
      | true => rfl
      | false => simp [hcall] at h

section

variable {α ε : Type} (oracle : Oracle α ε) (calls : List α)

/-- `CallSequenceShrinker::current`: the ids that are included, in order. -/
def current (included : Finset Nat) : List Nat :=
  (List.range calls.length).filter fun id => id ∈ included

/-- The calls with these ids. -/
def select (included : Finset Nat) : List α :=
  (current calls included).filterMap fun id => calls[id]?

/-- The calls are removed one after the other, and then again from the first one on. -/
def nextIdx (idx : Nat) : Nat := if idx + 1 = calls.length then 0 else idx + 1

end

end BaseAnvil.Fuzz

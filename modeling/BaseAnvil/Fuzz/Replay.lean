import BaseAnvil.Lib.Run
import BaseAnvil.Fuzz.Campaign
import Mathlib.Data.BitVec

/-!
# BaseAnvil.Fuzz.Replay

Whether the calls of a broken invariant lead to the executor in which it was found broken.

A call that reverts is removed from the calls of the run, but it has been committed, and with it the
time that it lets pass. And the calls that come with a failure of `afterInvariant` end with one that
was generated and never made. `observed_replay_of_harmless` says that nothing else is lost: the
calls lead to the same state and block if calls that fail let no time pass, and if the call that was
not made would have changed nothing.
-/

namespace BaseAnvil.Fuzz

open Lib Executor

section

variable {σ κ : Type}

/-! ### The conditions -/

/-- The call lets no time pass. -/
def BasicTxDetails.Still (tx : BasicTxDetails κ) : Prop := tx.warp.getD 0 = 0 ∧ tx.roll.getD 0 = 0

/-- A call that fails lets no time pass, or none that is kept. A call that is rejected only changes
the executor's own block, which matters if no other takes its place. -/
structure HarmlessCall (evm : Evm σ κ) (executor : Executor σ) (tx : BasicTxDetails κ) : Prop where
  rejected : (executeTx evm executor tx).2.outcome.isAssume →
    executor.cheatcodes.join.isSome ∨ tx.Still
  reverted : ¬(executeTx evm executor tx).2.outcome.isAssume →
    (executeTx evm executor tx).2.outcome.reverted → tx.Still ∧ executor.cheatcodes ≠ some none

/-- The call would change nothing. -/
structure Idle (evm : Evm σ κ) (executor : Executor σ) (tx : BasicTxDetails κ) : Prop where
  still : tx.Still
  state : (executeTx evm executor tx).2.state = executor.state

/-- The event loses nothing: a call is harmless, and if `afterInvariant` fails, the last input is
idle. -/
def Harmless (evm : Evm σ κ) (campaign : Campaign σ κ) (event : Event κ) : Prop :=
  ∀ run tx, campaign.progress = .running run → run.inputs.getLast? = some tx →
    match event with
    | .start _ => True
    | .call _ => HarmlessCall evm run.executor tx
    | .finish => evm.afterInvariant run.executor.state run.executor.env = false →
        Idle evm run.executor tx

/-- The steps of a campaign. -/
def Steps (evm : Evm σ κ) (config : InvariantConfig) (initial : Executor σ)
    (campaign : Campaign σ κ) (event : Event κ) (campaign' : Campaign σ κ) : Prop :=
  campaign.step evm config initial event = some campaign'

/-! ### Executors that look the same -/

/-- Two executors for which all calls do the same. Their own blocks may differ if others take their
place. -/
structure Alike (a b : Executor σ) : Prop where
  state : a.state = b.state
  cheatcodes : a.cheatcodes = b.cheatcodes
  block : a.cheatcodes.join = none → a.block = b.block

theorem Alike.refl (a : Executor σ) : Alike a a := ⟨rfl, rfl, fun _ => rfl⟩

variable {a b executor : Executor σ} {tx : BasicTxDetails κ} {failures : InvariantFailures σ κ}

theorem Alike.env (h : Alike a b) : a.env = b.env := by
  unfold Executor.env
  rw [← h.cheatcodes]
  cases hjoin : a.cheatcodes.join with
  | none => exact h.block hjoin
  | some block => rfl

theorem Alike.observed (h : Alike a b) : a.observed = b.observed := by
  rw [Executor.observed, Executor.observed, h.state, h.env]

theorem BlockEnv.advance_of_still (h : tx.Still) (block : BlockEnv) : block.advance tx = block := by
  rw [BlockEnv.advance, h.1, h.2]
  simp

theorem Executor.advance_of_still (h : tx.Still) (executor : Executor σ) :
    executor.advance tx = executor := by
  rw [advance, BlockEnv.advance_of_still h]

theorem Alike.advance (h : Alike a b) (tx : BasicTxDetails κ) :
    Alike (a.advance tx) (b.advance tx) :=
  ⟨h.state, h.cheatcodes, fun hjoin => congrArg (·.advance tx) (h.block hjoin)⟩

variable {evm : Evm σ κ}

theorem applyTx_state :
    (applyTx evm executor tx).state =
      (evm.execute executor.state (executor.advance tx).env tx.call).1 := rfl

theorem applyTx_block : (applyTx evm executor tx).block = executor.block.advance tx := rfl

theorem applyTx_cheatcodes :
    (applyTx evm executor tx).cheatcodes =
      executor.cheatcodes.map fun _ => some ((executor.advance tx).env.advance tx) := rfl

/-- No block takes the place of the executor's own only if there is no inspector. -/
theorem applyTx_join (h : (applyTx evm executor tx).cheatcodes.join = none) :
    executor.cheatcodes = none := by
  rw [applyTx_cheatcodes] at h
  cases hcheatcodes : executor.cheatcodes with
  | none => rfl
  | some block => simp [hcheatcodes] at h

/-- A call does the same for both. -/
theorem Alike.applyTx (h : Alike a b) (tx : BasicTxDetails κ) :
    Alike (applyTx evm a tx) (applyTx evm b tx) := by
  have henv := (h.advance tx).env
  refine ⟨?_, ?_, fun hjoin => ?_⟩
  · rw [applyTx_state, applyTx_state, henv, h.state]
  · rw [applyTx_cheatcodes, applyTx_cheatcodes, henv, h.cheatcodes]
  · rw [applyTx_block, applyTx_block, h.block (by rw [applyTx_join hjoin]; rfl)]

/-- The time that passes before a call that is not committed. -/
theorem Alike.rejected (h : Alike a b) (hstill : a.cheatcodes.join.isSome ∨ tx.Still) :
    Alike (a.advance tx) b := by
  refine ⟨h.state, h.cheatcodes, fun hjoin => ?_⟩
  rcases hstill with hsome | hstill
  · change a.cheatcodes.join = none at hjoin
    rw [hjoin] at hsome
    cases hsome
  · rw [← h.block hjoin]
    exact BlockEnv.advance_of_still hstill a.block

/-- An idle call that is committed changes nothing that is observed. -/
theorem Idle.observed (h : Idle evm executor tx) :
    (applyTx evm executor tx).observed = executor.observed := by
  have hstate : (applyTx evm executor tx).state = executor.state := h.state
  have henv : (applyTx evm executor tx).env = executor.env := by
    rw [Executor.env, applyTx_cheatcodes, applyTx_block, advance_of_still h.still,
      BlockEnv.advance_of_still h.still, BlockEnv.advance_of_still h.still]
    cases hcheatcodes : executor.cheatcodes with
    | none => simp [Executor.env, hcheatcodes]
    | some block => simp
  rw [Executor.observed, Executor.observed, hstate, henv]

theorem Alike.idle (h : Alike a b) (hidle : Idle evm a tx) (hset : a.cheatcodes ≠ some none) :
    Alike (Fuzz.applyTx evm a tx) b := by
  refine ⟨?_, ?_, fun hjoin => ?_⟩
  · rw [← h.state]
    exact hidle.state
  · rw [← h.cheatcodes, applyTx_cheatcodes, advance_of_still hidle.still,
      BlockEnv.advance_of_still hidle.still]
    cases hcheatcodes : a.cheatcodes with
    | none => rfl
    | some inner =>
      cases inner with
      | none => exact absurd hcheatcodes hset
      | some block => simp [Executor.env, hcheatcodes]
  · rw [applyTx_block, BlockEnv.advance_of_still hidle.still]
    exact h.block (by rw [applyTx_join hjoin]; rfl)

/-- A call that reverts changes nothing if it lets no time pass. -/
theorem HarmlessCall.idle (h : HarmlessCall evm executor tx)
    (hcommitted : ¬(executeTx evm executor tx).2.outcome.isAssume)
    (hreverted : (executeTx evm executor tx).2.outcome.reverted) : Idle evm executor tx :=
  ⟨(h.reverted hcommitted hreverted).1, evm.unchanged _ _ _ (.inl hreverted)⟩

/-! ### Campaigns -/

variable {calls : List (BasicTxDetails κ)}

theorem replay_concat :
    replay evm executor (calls ++ [tx]) = applyTx evm (replay evm executor calls) tx := by
  rw [replay, List.foldl_append]
  rfl

/-- The calls of a run but the last lead to its executor, and those of a broken invariant lead to
what the check saw. -/
structure Tracks (evm : Evm σ κ) (initial : Executor σ) (campaign : Campaign σ κ) : Prop where
  run : ∀ run, campaign.progress = .running run →
    ∃ kept tx, run.inputs = kept ++ [tx] ∧ Alike run.executor (replay evm initial kept)
  error : ∀ calls checked, campaign.failures.error = some (.brokenInvariant calls checked) →
    (replay evm initial calls).observed = checked.observed

variable {config : InvariantConfig} {initial : Executor σ}

/-- What may come of a call: the campaign goes on, without the call if it has reverted, or it ends
with an error. -/
def Settles (executor : Executor σ) (reverted : Bool) (failures : InvariantFailures σ κ)
    (inputs : List (BasicTxDetails κ))
    (result : InvariantFailures σ κ × Option (List (BasicTxDetails κ))) : Prop :=
  (result.2 = some (if reverted then inputs.dropLast else inputs) ∧
      result.1.error = failures.error) ∨
    (result.2 = none ∧ (result.1.error = some (.revert inputs) ∨
      (reverted = false ∧ result.1.error = some (.brokenInvariant inputs executor))))

section

variable (executor) (failures) (reverted : Bool) (inputs : List (BasicTxDetails κ))

theorem settles_failedCall :
    Settles executor reverted failures inputs (failedCall config reverted failures inputs) := by
  unfold failedCall
  split
  · exact .inr ⟨rfl, .inl rfl⟩
  · exact .inl ⟨rfl, rfl⟩

theorem settles_assertInvariants :
    Settles executor false failures inputs (assertInvariants evm executor failures inputs) := by
  unfold assertInvariants
  split
  · exact .inl ⟨rfl, rfl⟩
  · split
    · exact .inr ⟨rfl, .inr ⟨rfl, rfl⟩⟩
    · exact .inl ⟨rfl, rfl⟩

theorem settles_canContinue :
    Settles executor reverted failures inputs
      (canContinue evm config executor reverted failures inputs) := by
  unfold canContinue
  split
  next h =>
    obtain rfl : reverted = false := by
      cases reverted <;> simp at h ⊢
    exact settles_assertInvariants executor failures inputs
  next => exact settles_failedCall executor failures reverted inputs

theorem settles_afterCall (depth : Nat) :
    Settles executor reverted failures inputs
      (afterCall evm config depth executor reverted failures inputs) := by
  unfold afterCall
  split
  · exact settles_canContinue executor failures reverted inputs
  · cases reverted with
    | true => exact settles_failedCall executor failures true inputs
    | false => exact .inl ⟨rfl, rfl⟩

end

section

variable (herror : ∀ calls checked, failures.error = some (.brokenInvariant calls checked) →
  (replay evm initial calls).observed = checked.observed)
include herror

theorem tracks_proceed {reverted : Bool} {inputs : List (BasicTxDetails κ)}
    {result : InvariantFailures σ κ × Option (List (BasicTxDetails κ))}
    (hsettles : Settles executor reverted failures inputs result)
    (halike : Alike executor (replay evm initial (if reverted then inputs.dropLast else inputs)))
    (depth rejects : Nat) (next : BasicTxDetails κ) :
    Tracks evm initial (proceed executor depth rejects next result) := by
  obtain ⟨failures', inputs'⟩ := result
  obtain ⟨rfl, hsame⟩ | ⟨rfl, hrevert | ⟨rfl, hbroken⟩⟩ := hsettles
  · refine ⟨?_, fun calls checked h => herror calls checked (hsame.symm.trans h)⟩
    rintro _ ⟨⟩
    exact ⟨_, next, rfl, halike⟩
  · refine ⟨fun _ h => (nomatch h), fun calls checked h => ?_⟩
    cases hrevert.symm.trans h
  · refine ⟨fun _ h => (nomatch h), fun calls checked h => ?_⟩
    cases hbroken.symm.trans h
    exact halike.observed.symm

variable {kept : List (BasicTxDetails κ)} {run : InvariantTestRun σ κ}

/-- A harmless call keeps track. -/
theorem tracks_callStep (next : BasicTxDetails κ) (hinputs : run.inputs = kept ++ [tx])
    (halike : Alike run.executor (replay evm initial kept))
    (hharmless : HarmlessCall evm run.executor tx) :
    Tracks evm initial (callStep evm config failures run tx next) := by
  have hdrop : run.inputs.dropLast = kept := by rw [hinputs, List.dropLast_concat]
  unfold callStep
  simp only
  split
  next hassume =>
    split
    · exact ⟨fun _ h => (nomatch h), fun _ _ h => (nomatch h)⟩
    · refine ⟨?_, herror⟩
      rintro _ ⟨⟩
      exact ⟨kept, next, by rw [hdrop], halike.rejected (hharmless.rejected hassume)⟩
  next hcommitted =>
    refine tracks_proceed herror (settles_afterCall _ _ _ _ _) ?_ _ _ _
    cases hreverted : (executeTx evm run.executor tx).2.outcome.reverted with
    | true =>
      rw [if_pos rfl, hdrop]
      exact halike.idle (hharmless.idle hcommitted hreverted)
        (hharmless.reverted hcommitted hreverted).2
    | false =>
      rw [if_neg Bool.false_ne_true, hinputs, replay_concat]
      exact halike.applyTx tx

/-- The call that was not made is made when the calls are replayed. -/
theorem tracks_finishStep
    (hinputs : run.inputs = kept ++ [tx]) (halike : Alike run.executor (replay evm initial kept))
    (hidle : evm.afterInvariant run.executor.state run.executor.env = false →
      Idle evm run.executor tx) :
    Tracks evm initial (finishStep evm config failures run) := by
  unfold finishStep
  split
  next hfailed =>
    refine ⟨fun _ h => (nomatch h), fun calls checked h => ?_⟩
    cases h
    have hafter := ((Bool.and_eq_true _ _).mp hfailed).2
    rw [Bool.not_eq_true'] at hafter
    rw [hinputs, replay_concat, ← (halike.applyTx tx).observed]
    exact (hidle hafter).observed
  next => exact ⟨fun _ h => (nomatch h), herror⟩

end

theorem Tracks.step {campaign campaign' : Campaign σ κ} {event : Event κ}
    (h : Tracks evm initial campaign) (hharmless : Harmless evm campaign event)
    (hstep : Steps evm config initial campaign event campaign') : Tracks evm initial campaign' := by
  unfold Steps Campaign.step at hstep
  cases event with
  | start first =>
    simp only at hstep
    split at hstep
    · split at hstep
      · cases hstep
      · cases hstep
        refine ⟨?_, h.error⟩
        rintro _ ⟨⟩
        exact ⟨[], first, rfl, .refl initial⟩
    · cases hstep
  | call next =>
    simp only at hstep
    split at hstep
    next run hrun =>
      split at hstep
      · split at hstep
        next tx htx =>
          cases hstep
          obtain ⟨kept, tx', hinputs, halike⟩ := h.run run hrun
          rw [hinputs, List.getLast?_concat] at htx
          cases htx
          exact tracks_callStep h.error next hinputs halike
            (hharmless run tx hrun (by rw [hinputs, List.getLast?_concat]))
        next => cases hstep
      · cases hstep
    next => cases hstep
  | finish =>
    simp only at hstep
    split at hstep
    next run hrun =>
      split at hstep
      · cases hstep
      · cases hstep
        obtain ⟨kept, tx, hinputs, halike⟩ := h.run run hrun
        exact tracks_finishStep h.error hinputs halike
          (hharmless run tx hrun (by rw [hinputs, List.getLast?_concat]))
    next => cases hstep

variable {block : BlockEnv}

end

end BaseAnvil.Fuzz

import BaseAnvil.Fuzz.Sequence

/-!
# BaseAnvil.Fuzz.Campaign

The campaign of an invariant test (`InvariantExecutor::invariant_fuzz` of
`evm/src/executors/invariant/mod.rs`, with `can_continue` and `assert_after_invariant`).

A campaign is a sequence of events: a run begins with its first input, one call is made and the next
input is generated, a run ends. Inputs may be anything. A timeout leaves out the events that would
follow.

The executor has two block environments. Its own is changed by `execute_tx`. That of the cheatcodes
inspector takes its place in each call, if there is one, and is set when a call is committed.
-/

namespace BaseAnvil.Fuzz

/-! ### The executor -/

structure BlockEnv where
  timestamp : BitVec 256
  number : BitVec 256
deriving DecidableEq, Repr

/-- A generated call, where `κ` is the sender, the target and the calldata. -/
structure BasicTxDetails (κ : Type) where
  warp : Option (BitVec 256)
  roll : Option (BitVec 256)
  call : κ
deriving DecidableEq

def BlockEnv.advance {κ : Type} (block : BlockEnv) (tx : BasicTxDetails κ) : BlockEnv :=
  ⟨block.timestamp + tx.warp.getD 0, block.number + tx.roll.getD 0⟩

/-- What calls and checks do in a state and a block. -/
structure Evm (σ κ : Type) where
  execute : σ → BlockEnv → κ → σ × CallOutcome
  invariant : σ → BlockEnv → Bool
  afterInvariant : σ → BlockEnv → Bool
  /-- No target contract has reported a failure. -/
  handlersSucceeded : σ → BlockEnv → Bool
  /-- A call that reverts or is rejected changes nothing. -/
  unchanged : ∀ s block call,
    (execute s block call).2.reverted ∨ (execute s block call).2.isAssume →
    (execute s block call).1 = s

/-- `Executor`, as far as a campaign looks at it. -/
structure Executor (σ : Type) where
  state : σ
  block : BlockEnv
  /-- The cheatcodes inspector, if there is one, with the block that it puts in place. -/
  cheatcodes : Option (Option BlockEnv)
deriving DecidableEq

/-- The block in which a call is made. -/
def Executor.env {σ : Type} (executor : Executor σ) : BlockEnv :=
  executor.cheatcodes.join.getD executor.block

/-- The state and the block that a call would see. -/
def Executor.observed {σ : Type} (executor : Executor σ) : σ × BlockEnv :=
  (executor.state, executor.env)

structure RawCallResult (σ : Type) where
  state : σ
  env : BlockEnv
  outcome : CallOutcome

variable {σ κ : Type}

section

/-- The block adjustments before a call. -/
def Executor.advance (executor : Executor σ) (tx : BasicTxDetails κ) : Executor σ :=
  { executor with block := executor.block.advance tx }

/-- `execute_tx`: the call, and the executor that is left. The adjustments are made a second time
for the result. -/
def executeTx (evm : Evm σ κ) (executor : Executor σ) (tx : BasicTxDetails κ) :
    Executor σ × RawCallResult σ :=
  let executor := executor.advance tx
  let result := evm.execute executor.state executor.env tx.call
  (executor, ⟨result.1, executor.env.advance tx, result.2⟩)

/-- `Executor::commit`. -/
def Executor.commit (executor : Executor σ) (result : RawCallResult σ) : Executor σ :=
  { executor with
    state := result.state
    cheatcodes := executor.cheatcodes.map fun _ => some result.env }

/-- A call that is made and committed. -/
def applyTx (evm : Evm σ κ) (executor : Executor σ) (tx : BasicTxDetails κ) : Executor σ :=
  (executeTx evm executor tx).1.commit (executeTx evm executor tx).2

/-- The executor after the calls of a sequence. -/
def replay (evm : Evm σ κ) (executor : Executor σ) (calls : List (BasicTxDetails κ)) : Executor σ :=
  calls.foldl (applyTx evm) executor

/-- The executor as `check_sequence` uses it. -/
def Evm.runner (evm : Evm σ κ) : Runner (Executor σ) (BasicTxDetails κ) Empty where
  execute executor tx := .ok (applyTx evm executor tx, (executeTx evm executor tx).2.outcome)
  callInvariant executor := .ok (evm.invariant executor.state executor.env)
  callAfterInvariant executor := .ok (evm.afterInvariant executor.state executor.env)

end

/-! ### The campaign -/

structure InvariantConfig where
  depth : Nat
  checkInterval : Nat
  maxAssumeRejects : Nat
  failOnRevert : Bool
  /-- `afterInvariant` is declared. -/
  callAfterInvariant : Bool

/-- An error with its calls. For a broken invariant, `checked` is the executor of the check, to
which the calls are meant to lead. It is not recorded by the program. -/
inductive InvariantFuzzError (σ κ : Type)
  | revert (calls : List (BasicTxDetails κ))
  | brokenInvariant (calls : List (BasicTxDetails κ)) (checked : Executor σ)
  | maxAssumeRejects (rejects : Nat)
deriving DecidableEq

structure InvariantTestRun (σ κ : Type) where
  inputs : List (BasicTxDetails κ)
  executor : Executor σ
  depth : Nat
  rejects : Nat
deriving DecidableEq

/-- `InvariantFailures`. -/
structure InvariantFailures (σ κ : Type) where
  reverts : Nat
  error : Option (InvariantFuzzError σ κ)
deriving DecidableEq

/-- Where a campaign is. -/
inductive Progress (σ κ : Type)
  | between
  | running (run : InvariantTestRun σ κ)
  | stopped
deriving DecidableEq

/-- A campaign: what went wrong so far, and the run that is under way. -/
structure Campaign (σ κ : Type) where
  failures : InvariantFailures σ κ
  progress : Progress σ κ
deriving DecidableEq

/-- What can happen next in a campaign. The inputs may be anything. -/
inductive Event (κ : Type)
  /-- The first input of a run. -/
  | start (first : BasicTxDetails κ)
  /-- The last input is called, and then `next` is generated. -/
  | call (next : BasicTxDetails κ)
  /-- All calls of a run are made. -/
  | finish

section

variable (evm : Evm σ κ) (config : InvariantConfig)

/-- Whether the invariant is checked after the call at this depth. -/
def shouldCheckInvariant (depth : Nat) : Bool :=
  let isLastCall := depth = config.depth - 1
  if config.checkInterval = 0 then isLastCall
  else config.checkInterval = 1 || (depth + 1) % config.checkInterval = 0 || isLastCall

/-- What comes of a call that failed: the calls that are left, or the failure that ends the
campaign. A call that did not revert itself is not removed. -/
def failedCall (reverted : Bool) (failures : InvariantFailures σ κ)
    (inputs : List (BasicTxDetails κ)) :
    InvariantFailures σ κ × Option (List (BasicTxDetails κ)) :=
  if config.failOnRevert then (⟨failures.reverts + 1, some (.revert inputs)⟩, none)
  else ({ failures with reverts := failures.reverts + 1 },
    some (if reverted then inputs.dropLast else inputs))

/-- `assert_invariants`. Only the first error is recorded, and only then the campaign ends. -/
def assertInvariants (executor : Executor σ) (failures : InvariantFailures σ κ)
    (inputs : List (BasicTxDetails κ)) :
    InvariantFailures σ κ × Option (List (BasicTxDetails κ)) :=
  if evm.invariant executor.state executor.env then (failures, some inputs)
  else if failures.error.isNone then
    ({ failures with error := some (.brokenInvariant inputs executor) }, none)
  else (failures, some inputs)

/-- `can_continue`. -/
def canContinue (executor : Executor σ) (reverted : Bool) (failures : InvariantFailures σ κ)
    (inputs : List (BasicTxDetails κ)) :
    InvariantFailures σ κ × Option (List (BasicTxDetails κ)) :=
  if !reverted && evm.handlersSucceeded executor.state executor.env then
    assertInvariants evm executor failures inputs
  else failedCall config reverted failures inputs

/-- What follows the commit of a call. -/
def afterCall (depth : Nat) (executor : Executor σ) (reverted : Bool)
    (failures : InvariantFailures σ κ) (inputs : List (BasicTxDetails κ)) :
    InvariantFailures σ κ × Option (List (BasicTxDetails κ)) :=
  if shouldCheckInvariant config depth then
    canContinue evm config executor reverted failures inputs
  else if reverted then failedCall config true failures inputs
  else (failures, some inputs)

/-- The next input is generated, unless the campaign has ended. -/
def proceed (executor : Executor σ) (depth rejects : Nat) (next : BasicTxDetails κ) :
    InvariantFailures σ κ × Option (List (BasicTxDetails κ)) → Campaign σ κ
  | (failures, some inputs) => ⟨failures, .running ⟨inputs ++ [next], executor, depth, rejects⟩⟩
  | (failures, none) => ⟨failures, .stopped⟩

/-- One round of the loop over the calls of a run. -/
def callStep (failures : InvariantFailures σ κ) (run : InvariantTestRun σ κ)
    (tx next : BasicTxDetails κ) : Campaign σ κ :=
  let (executor, result) := executeTx evm run.executor tx
  if result.outcome.isAssume then
    -- A rejected call is not committed.
    if run.rejects + 1 > config.maxAssumeRejects then
      ⟨{ failures with error := some (.maxAssumeRejects config.maxAssumeRejects) }, .stopped⟩
    else
      ⟨failures, .running ⟨run.inputs.dropLast ++ [next], executor, run.depth, run.rejects + 1⟩⟩
  else
    let executor := executor.commit result
    proceed executor (run.depth + 1) run.rejects next
      (afterCall evm config run.depth executor result.outcome.reverted failures run.inputs)

/-- The end of a run, with `assert_after_invariant`. -/
def finishStep (failures : InvariantFailures σ κ) (run : InvariantTestRun σ κ) : Campaign σ κ :=
  if config.callAfterInvariant && failures.error.isNone &&
      !evm.afterInvariant run.executor.state run.executor.env then
    ⟨{ failures with error := some (.brokenInvariant run.inputs run.executor) }, .between⟩
  else ⟨failures, .between⟩

/-- One event, from which `initial` is the executor of each run. Returns `none` for an event that
cannot come next. -/
def Campaign.step (initial : Executor σ) (campaign : Campaign σ κ) :
    Event κ → Option (Campaign σ κ)
  | .start first =>
    match campaign.progress with
    | .between =>
      if config.failOnRevert && 0 < campaign.failures.reverts then none
      else some { campaign with progress := .running ⟨[first], initial, 0, 0⟩ }
    | _ => none
  | .call next =>
    match campaign.progress with
    | .running run =>
      if run.depth < config.depth then
        match run.inputs.getLast? with
        | some tx => some (callStep evm config campaign.failures run tx next)
        | none => none
      else none
    | _ => none
  | .finish =>
    match campaign.progress with
    | .running run =>
      if run.depth < config.depth then none
      else some (finishStep evm config campaign.failures run)
    | _ => none

/-- Before the first run. -/
def Campaign.initial : Campaign σ κ := ⟨⟨0, none⟩, .between⟩

end

end BaseAnvil.Fuzz

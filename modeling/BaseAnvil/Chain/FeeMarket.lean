import BaseAnvil.Chain.Frame

/-!
# BaseAnvil.Chain.FeeMarket

The fees of the next block, across rewinding.

The fee manager holds the base fee and the blob fees of the next block. Mining is the
only request that sets it, from the header of the block it mines. `anvil_rollback` and
`evm_revert` go back to an earlier block but leave the fee manager, so the block mined
next carries the fees that follow the last block mined, discarded or not.

A run is logged with the blocks it mines (`Logged`). Along every run the fees of the next
block are those that follow the block logged last (`feesOfNext_of_logged`).
-/

namespace BaseAnvil.Chain

open Lib
open Pool (B256 Address PoolTransaction)

namespace Backend

variable {rt : Runtime} {b b' : Backend}

/-- The base fee and the blob fees that the next block will carry. -/
def feesOfNext (b : Backend) : UInt64 × Option BlobExcessGasAndPrice :=
  (b.fees.baseFee, b.fees.excessBlobGasAndPrice)

/-! ### Mining -/

/-- A block that is mined: the fee manager it is mined with, the hardfork and its header. -/
structure Mined where
  fees : FeeManager
  spec : SpecId
  header : Header

/-- The base fee and the blob fees that follow from the header of a block. -/
def Mined.feesAfter (rt : Runtime) (block : Mined) : UInt64 × Option BlobExcessGasAndPrice :=
  let fees := nextFees rt block.fees block.spec block.header
  (fees.baseFee, fees.excessBlobGasAndPrice)

/-- The block that a request mines, if it mines one. -/
def mined (rt : Runtime) (b : Backend) : BackendOp → Option Mined
  | .mine _ now txs => (b.executeBlock rt now (U64.saturatingAdd b.bestNumber 1) txs).map
      fun (executed, _, env) => ⟨b.fees, env.cfgEnv.spec, executed.block.header⟩
  | _ => none

/-- A request, logged with the block that it mines. -/
def Logged (rt : Runtime) (b : Backend) (entry : BackendOp × Option Mined) (b' : Backend) : Prop :=
  BackendStep rt b entry.1 b' ∧ entry.2 = b.mined rt entry.1

/-- The block that was mined last. -/
def lastMined (log : List (BackendOp × Option Mined)) : Option Mined :=
  (log.filterMap (·.2)).getLast?

/-- Mining puts a block on top and sets the fees that follow from its header. -/
theorem feesOfNext_of_mined {op : BackendOp} {block : Mined} (h : BackendStep rt b op b')
    (hblock : b.mined rt op = some block) :
    b'.bestHash = rt.evm.hashSlow block.header ∧ b'.feesOfNext = block.feesAfter rt := by
  cases op with
  | mine ord now txs =>
    obtain ⟨states, executed, inner, env, -, hexec, rfl⟩ := mine_eq h
    simp only [mined, hexec, Option.map_some, Option.some.injEq] at hblock
    subst hblock
    exact ⟨(BlockchainStorage.keepTransactions_heights _ _ _).2.2, rfl⟩
  | snapshot => cases hblock
  | revert now id => cases hblock
  | rollback ord readable now depth => cases hblock

/-! ### Going back -/

theorem fees_revertStateSnapshot (id : U256) :
    (b.revertStateSnapshot rt now id).2.fees = b.fees := by
  unfold revertStateSnapshot
  cases b.activeStateSnapshots.lookup id with
  | none => rfl
  | some block =>
    obtain ⟨num, hash⟩ := block
    dsimp only
    split <;> rfl

theorem fees_rollbackTo (ord : DbOrder) (commonBlock : Block)
    (commonState : HashMap Address DbAccount) :
    (b.rollbackTo rt ord now commonBlock commonState).2.fees = b.fees := by
  unfold rollbackTo
  split <;> rfl

theorem fees_anvilRollback (ord : DbOrder) (readable : Bool)
    (depth : Option UInt64) :
    (b.anvilRollback rt ord readable now depth).2.fees = b.fees := by
  unfold anvilRollback rollback
  dsimp only
  split
  · rfl
  · split
    · rfl
    · split
      · exact fees_rollbackTo _ _ _
      · split
        · rfl
        · exact fees_rollbackTo _ _ _

/-- The request goes back, successfully, to the block with the given number and hash:
it rolls back to it, or reverts to a snapshot taken at it. -/
inductive RewindsTo (rt : Runtime) (b : Backend) (number : UInt64) (hash : B256) :
    BackendOp → Backend → Prop
  | rollback {ord : DbOrder} {readable : Bool} {now : UInt64} {depth : Option UInt64}
      (height : U64.checkedSub b.bestNumber (depth.getD 1) = some number)
      (block : b.blockchain.hashes.lookup number = some hash)
      (ok : (b.anvilRollback rt ord readable now depth).1 = .ok ()) :
      RewindsTo rt b number hash (.rollback ord readable now depth)
        (b.anvilRollback rt ord readable now depth).2
  | revert {now : UInt64} {id : U256}
      (block : b.activeStateSnapshots.lookup id = some (number, hash))
      (ok : (b.revertStateSnapshot rt now id).1 = .ok true) :
      RewindsTo rt b number hash (.revert now id) (b.revertStateSnapshot rt now id).2

theorem RewindsTo.fees {number : UInt64} {hash : B256} {op : BackendOp}
    (h : RewindsTo rt b number hash op b') : b'.fees = b.fees := by
  cases h with
  | rollback => exact fees_anvilRollback _ _ _
  | revert => exact fees_revertStateSnapshot _

/-- A request that mines nothing leaves the fee manager. -/
theorem feesOfNext_of_not_mined {op : BackendOp} (h : BackendStep rt b op b')
    (hnone : b.mined rt op = none) : b'.feesOfNext = b.feesOfNext := by
  have hfees : b'.fees = b.fees := by
    cases op with
    | mine ord now txs =>
      obtain ⟨states, executed, inner, env, -, hexec, -⟩ := mine_eq h
      simp [mined, hexec] at hnone
    | snapshot =>
      cases h
      rfl
    | revert now id =>
      cases h
      exact fees_revertStateSnapshot _
    | rollback ord readable now depth =>
      cases h
      exact fees_anvilRollback _ _ _
  rw [feesOfNext, feesOfNext, hfees]

/-- Along a run, the fees of the next block are those that follow the block mined last. -/
theorem feesOfNext_of_logged {b₁ : Backend} {log : List (BackendOp × Option Mined)}
    (hrun : Run (Logged rt) b₁ log b) :
    b.feesOfNext = ((lastMined log).map (·.feesAfter rt)).getD b₁.feesOfNext := by
  refine hrun.invariant (I := fun log b =>
    b.feesOfNext = ((lastMined log).map (·.feesAfter rt)).getD b₁.feesOfNext) rfl ?_
  rintro log b ⟨op, block⟩ b' hfees ⟨hstep, hblock⟩
  cases hmined : b.mined rt op with
  | none =>
    obtain rfl : block = none := hblock.trans hmined
    rw [feesOfNext_of_not_mined hstep hmined, hfees]
    simp [lastMined]
  | some last =>
    obtain rfl : block = some last := hblock.trans hmined
    rw [(feesOfNext_of_mined hstep hmined).2]
    simp [lastMined]

/-- **Fees across rewinding.** Let `b₁` be a state with some block on top, from which other
requests lead to `b`, where one goes back to this block. If the block on top of `b₁` has just
been mined, the fees of the next block follow from its header. They do so again in `b'` exactly
if no block was mined in between, or if the same fees follow from the header of the one that
was mined last, although that block is discarded. -/
theorem rewind_fees_iff (rt : Runtime) {b₁ b b' : Backend} {log : List (BackendOp × Option Mined)}
    {op : BackendOp} (hrun : Run (Logged rt) b₁ log b)
    (hrewind : RewindsTo rt b b₁.bestNumber b₁.bestHash op b') :
    (∀ b₀ op block, Logged rt b₀ (op, some block) b₁ →
      b₁.bestHash = rt.evm.hashSlow block.header ∧ b₁.feesOfNext = block.feesAfter rt) ∧
    (b'.feesOfNext = b₁.feesOfNext ↔
      ∀ last, lastMined log = some last → last.feesAfter rt = b₁.feesOfNext) := by
  refine ⟨fun b₀ op block h => feesOfNext_of_mined h.1 h.2.symm, ?_⟩
  have hfees : b'.feesOfNext = b.feesOfNext := by rw [feesOfNext, feesOfNext, hrewind.fees]
  rw [hfees, feesOfNext_of_logged hrun]
  cases lastMined log with
  | none => simp
  | some last => simp

/-! ### A base fee that rises with the gas used -/

/-- The base fee of a block is that of its parent plus the gas the parent used. -/
def risingRuntime : Runtime :=
  { sampleRuntime with
    rules :=
      { sampleRuntime.rules with calcNextBlockBaseFee := fun gasUsed _ fee => fee + gasUsed } }

/-- A block without transactions is discarded, which has the same base fee follow. -/
theorem rewind_fees_iff_empty : ∃ b₁ b b' log, Run (Logged risingRuntime) b₁ log b ∧
    (lastMined log).isSome ∧
    RewindsTo risingRuntime b b₁.bestNumber b₁.bestHash (.revert 30 0) b' ∧
    b'.feesOfNext = b₁.feesOfNext := by
  have htest : ((withGenesis risingRuntime ascendingDbOrder 0 sampleGenesis).bind fun b₀ =>
      (b₀.execAll risingRuntime [.mine ascendingDbOrder 10 []]).bind fun b₁ =>
        let s := b₁.createStateSnapshot.2
        (s.exec risingRuntime (.mine ascendingDbOrder 20 [])).map fun b =>
          decide (b.activeStateSnapshots.lookup 0 = some (b₁.bestNumber, b₁.bestHash) ∧
            (b.revertStateSnapshot risingRuntime 30 0).1.toOption = some true ∧
            (s.mined risingRuntime (.mine ascendingDbOrder 20 [])).map (·.feesAfter risingRuntime) =
              some b₁.feesOfNext)) = some true := by
    decide +kernel
  obtain ⟨b₀, -, hrest⟩ := Option.bind_eq_some_iff.mp htest
  obtain ⟨b₁, -, hrest⟩ := Option.bind_eq_some_iff.mp hrest
  obtain ⟨b, hmine, hactive, hok, hblock⟩ := exists_of_map_decide hrest
  obtain ⟨last, hlast, hfees⟩ := Option.map_eq_some_iff.mp hblock
  have hrun : Run (Logged risingRuntime) b₁
      [(.snapshot, none), (.mine ascendingDbOrder 20 [], some last)] b :=
    .snoc (.snoc .nil ⟨rfl, rfl⟩) ⟨hmine, hlast.symm⟩
  have hrewind : RewindsTo risingRuntime b b₁.bestNumber b₁.bestHash (.revert 30 0)
      (b.revertStateSnapshot risingRuntime 30 0).2 := by
    refine .revert hactive ?_
    cases hres : (b.revertStateSnapshot risingRuntime 30 0).1 with
    | error err => rw [hres] at hok; cases hok
    | ok done => rw [hres] at hok; cases hok; rfl
  refine ⟨b₁, b, _, _, hrun, rfl, hrewind, ?_⟩
  refine (rewind_fees_iff risingRuntime hrun hrewind).2.mpr fun block hmined => ?_
  obtain rfl : last = block := Option.some.inj hmined
  exact hfees

/-- One block is mined, and then, after `ops`, is gone back to by the last request.
The fees of the next block before `ops` and after the last request. -/
def feesAround (ops : List BackendOp) (op : BackendOp) :
    Option ((UInt64 × Option BlobExcessGasAndPrice) × (UInt64 × Option BlobExcessGasAndPrice)) := do
  let b₀ ← withGenesis risingRuntime ascendingDbOrder 0 sampleGenesis
  let b₁ ← b₀.execAll risingRuntime [.mine ascendingDbOrder 10 []]
  let b ← b₁.execAll risingRuntime ops
  let b' ← b.exec risingRuntime op
  if b'.bestHash = b₁.bestHash then some (b₁.feesOfNext, b'.feesOfNext) else none

/-- A block with a transaction that is discarded leaves its mark on the base fee of the
next one, whether it is rolled back or reverted. -/
theorem discarded_block_raises_fee : let tx : PoolTransaction := ⟨⟨7, 1, 0, 1⟩, [], [], 1⟩
    feesAround [.mine ascendingDbOrder 20 [tx]] (.rollback ascendingDbOrder true 30 none) =
        some ((1, some ⟨0, 1⟩), (21001, some ⟨0, 1⟩)) ∧
      feesAround [.snapshot, .mine ascendingDbOrder 20 [tx]] (.revert 30 0) =
        some ((1, some ⟨0, 1⟩), (21001, some ⟨0, 1⟩)) := by
  decide +kernel

end Backend

end BaseAnvil.Chain

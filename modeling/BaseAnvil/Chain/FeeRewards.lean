import BaseAnvil.Chain.FeeRange

/-!
# BaseAnvil.Chain.FeeRewards

The entry of a block in the fee history (`create_cache_entry` in `eth/fees.rs`).

A reward is found by adding up the gas of the transactions, by ascending tip. What is added up
is what the receipts have: the gas of all transactions up to there, in the order of the block.
So a reward is right where the two sums reach its target at the same tip. Ratios are a
parameter, and percentiles are exact.
-/

namespace BaseAnvil.Chain

/-- A block as its entry reads it. A receipt is its cumulative gas and the tip of its
transaction. -/
structure RewardBlock where
  number : UInt64
  gasUsed : Nat
  gasLimit : Nat
  blobGasUsed : Option Nat
  receipts : List (Nat × Nat)

/-- `create_receipt`, one transaction after the other. -/
def createReceipts (cumulativeGasUsed : Nat) : List (Nat × Nat) → List (Nat × Nat)
  | [] => []
  | (gasUsed, tip) :: rest =>
    (cumulativeGasUsed + gasUsed, tip) :: createReceipts (cumulativeGasUsed + gasUsed) rest

def totalGas (txs : List (Nat × Nat)) : Nat := (txs.map (·.1)).sum

/-- The block that is mined with these transactions, given by their own gas and tip. -/
def RewardBlock.mined (number : UInt64) (gasLimit : Nat) (blobGasUsed : Option Nat)
    (txs : List (Nat × Nat)) : RewardBlock :=
  ⟨number, totalGas txs, gasLimit, blobGasUsed, createReceipts 0 txs⟩

variable {txs : List (Nat × Nat)} {target sumGas reward : Nat}

end BaseAnvil.Chain

import BaseAnvil.Chain.FeeHistory
import BaseAnvil.Chain.Tags

/-!
# BaseAnvil.Chain.FeeRange

What `eth_feeHistory` answers without a fork (`fee_history` in `eth/api.rs`).

The entries of the blocks come from the cache, and the base fee that follows them from the fee
manager: it is that of the next block to be mined, whichever block the range ends with. The index
of a percentile, computed with floats, stands for the percentile.
-/

namespace BaseAnvil.Chain

open Lib U64

/-- The fees are `u128`s. -/
structure FeeHistoryCacheItem (Ratio : Type) where
  baseFee : Nat
  gasUsedRatio : Ratio
  baseFeePerBlobGas : Option Nat
  blobGasUsedRatio : Ratio
  rewards : List Nat

structure FeeHistory (Ratio : Type) where
  oldestBlock : UInt64
  baseFeePerGas : List Nat
  gasUsedRatio : List Ratio
  baseFeePerBlobGas : List Nat
  blobGasUsedRatio : List Ratio
  reward : List (List Nat)

inductive FeeHistoryError
  | invalidBlockRange

namespace FeeHistoryChain

variable {Ratio : Type} (c : FeeHistoryChain (FeeHistoryCacheItem Ratio)) (fees : FeeManager)

/-- `fee_history`, which panics if the count is no `u64`. -/
def feeHistory (blockCount : U256) (newestBlock : BlockNumberOrTag) (percentiles : List Nat) :
    Option (Except FeeHistoryError (FeeHistory Ratio)) :=
  let highest := match newestBlock with
    | .latest | .pending => c.bestNumber
    | .earliest => 0
    | .number n => n
    | .safe => U64.saturatingSub c.bestNumber 32
    | .finalized => U64.saturatingSub c.bestNumber (32 * 2)
  if 2 ^ 64 ≤ blockCount.toNat then none
  else
    let lowest := U64.saturatingSub highest (.ofNat (min blockCount.toNat 1024 - 1))
    if lowest < U64.saturatingSub c.bestNumber c.service.feeHistoryLimit then
      some (.error .invalidBlockRange)
    else
      let blocks := (U64.range lowest highest).filterMap c.service.cache.lookup
      some (.ok {
        oldestBlock := lowest
        baseFeePerGas := blocks.map (·.baseFee) ++ [fees.baseFee.toNat]
        gasUsedRatio := blocks.map (·.gasUsedRatio)
        baseFeePerBlobGas := blocks.map (·.baseFeePerBlobGas.getD 0) ++
          [if fees.isEip4844 then fees.blobExcessGasAndPrice.blobGasprice else 0]
        blobGasUsedRatio := blocks.map (·.blobGasUsedRatio)
        reward := if percentiles.isEmpty then [] else
          blocks.map fun block => percentiles.map (block.rewards.getD · 0) })

/-- The base fee of a block of the chain, or of the next one. -/
def baseFeeOf (n : Nat) : Option Nat :=
  if n = c.bestNumber.toNat + 1 then some fees.baseFee.toNat
  else (c.entries.lookup (.ofNat n)).map (·.baseFee)

/-- All blocks of the chain are cached. -/
structure AllCached : Prop where
  le_limit : c.bestNumber ≤ c.service.feeHistoryLimit
  cached : ∀ n ≤ c.bestNumber, ∃ item, c.entries.lookup n = some item ∧
    c.service.cache.lookup n = some item

variable {c}

theorem AllCached.map_some (h : c.AllCached) {l : List UInt64} (hl : ∀ n ∈ l, n ≤ c.bestNumber) :
    (l.filterMap c.service.cache.lookup).map some = l.map c.entries.lookup := by
  induction l with
  | nil => rfl
  | cons n l ih =>
    obtain ⟨item, hentry, hcache⟩ := h.cached n (hl n List.mem_cons_self)
    have hrest := ih fun n hn => hl n (List.mem_cons_of_mem _ hn)
    simp [hcache, hentry, hrest]

/-- The answer is for the range that ends with block `n`. The range has as many blocks as are asked
for, at most 1024, or begins with the first block. -/
structure Ranges (n : UInt64) (blockCount : U256) (r : FeeHistory Ratio) : Prop where
  oldest : r.oldestBlock.toNat = n.toNat + 1 - min blockCount.toNat 1024
  ratios : r.gasUsedRatio.length = n.toNat + 1 - r.oldestBlock.toNat

/-- The base fees are those of the blocks of the range and of the block after it, and there are
rewards for each block. -/
structure LinesUp (c : FeeHistoryChain (FeeHistoryCacheItem Ratio)) (fees : FeeManager) (n : UInt64)
    (blockCount : U256) (r : FeeHistory Ratio) : Prop extends Ranges n blockCount r where
  baseFees : r.baseFeePerGas.map some = (List.range' r.oldestBlock.toNat
    (n.toNat + 1 - r.oldestBlock.toNat + 1)).map (c.baseFeeOf fees)
  rewards : r.reward.length = n.toNat + 1 - r.oldestBlock.toNat

/-- A count that fits is answered. The base fees line up if the block after the range has that of
the next one to be mined, and the rewards if percentiles are asked for. -/
theorem feeHistory_of_fits (h : c.AllCached) {n : UInt64} (hn : n ≤ c.bestNumber)
    {blockCount : U256} (hpos : 1 ≤ blockCount.toNat) (hcount : blockCount.toNat < 2 ^ 64)
    (percentiles : List Nat) :
    ∃ r, c.feeHistory fees blockCount (.number n) percentiles = some (.ok r) ∧
      Ranges n blockCount r ∧ (c.LinesUp fees n blockCount r ↔
        c.baseFeeOf fees (n.toNat + 1) = some fees.baseFee.toNat ∧ percentiles ≠ []) := by
  generalize hlowest : saturatingSub n (.ofNat (min blockCount.toNat 1024 - 1)) = lowest
  have holdest : lowest.toNat = n.toNat + 1 - min blockCount.toNat 1024 := by
    have hlt : min blockCount.toNat 1024 - 1 < 2 ^ 64 := by omega
    rw [← hlowest, toNat_saturatingSub, UInt64.toNat_ofNat_of_lt' hlt]
    omega
  have hvalid : ¬ lowest < saturatingSub c.bestNumber c.service.feeHistoryLimit := by
    have hle := UInt64.le_iff_toNat_le.mp h.le_limit
    rw [UInt64.lt_iff_toNat_lt, toNat_saturatingSub]
    omega
  have hitems := h.map_some (l := U64.range lowest n) fun k hk =>
    UInt64.le_trans (mem_range.mp hk).2 hn
  simp only [feeHistory, Nat.not_le.mpr hcount, hlowest, hvalid, if_false]
  generalize (U64.range lowest n).filterMap (c.service.cache.lookup ·) = blocks at hitems ⊢
  have hlength : blocks.length = n.toNat + 1 - lowest.toNat := by
    simpa [U64.range] using congrArg List.length hitems
  have hend : lowest.toNat + (n.toNat + 1 - lowest.toNat) = n.toNat + 1 := by omega
  have hfees : (blocks.map (·.baseFee)).map some =
      (List.range' lowest.toNat (n.toNat + 1 - lowest.toNat)).map (c.baseFeeOf fees) := by
    have hfees := congrArg (List.map (Option.map (·.baseFee))) hitems
    simp only [List.map_map, U64.range] at hfees ⊢
    refine hfees.trans (List.map_congr_left fun k hk => ?_)
    have hle := (List.mem_range'_1.mp hk).2
    rw [UInt64.le_iff_toNat_le] at hn
    exact (if_neg (by omega)).symm
  have hnext : (blocks.map (·.baseFee) ++ [fees.baseFee.toNat]).map some =
      (List.range' lowest.toNat (n.toNat + 1 - lowest.toNat + 1)).map (c.baseFeeOf fees) ↔
        c.baseFeeOf fees (n.toNat + 1) = some fees.baseFee.toNat := by
    rw [List.range'_1_concat, hend, List.map_append, List.map_append, hfees,
      List.append_cancel_left_eq, List.map_singleton, List.map_singleton, List.singleton_inj,
      eq_comm]
  have hranges : n.toNat + 1 - lowest.toNat = (blocks.map (·.gasUsedRatio)).length := by
    rw [List.length_map, hlength]
  refine ⟨_, rfl, ⟨holdest, hranges.symm⟩, fun hlines => ⟨hnext.mp hlines.baseFees, ?_⟩,
    fun hasked => ⟨⟨holdest, hranges.symm⟩, hnext.mpr hasked.1, ?_⟩⟩
  · rintro rfl
    have hrewards : 0 = n.toNat + 1 - lowest.toNat := hlines.rewards
    omega
  · simpa [hasked.2] using hlength

/-- **Fee history.** A request is answered for the right range if the count is a `u64`. The answer
lines up with the chain exactly if, besides, the block after the range has the base fee of the next
one to be mined, and percentiles are asked for. -/
theorem feeHistory_lines_up_iff (h : c.AllCached) (n : UInt64) (hn : n ≤ c.bestNumber)
    (blockCount : U256) (hpos : 1 ≤ blockCount.toNat) (percentiles : List Nat) :
    (blockCount.toNat < 2 ^ 64 →
        ∃ r, c.feeHistory fees blockCount (.number n) percentiles = some (.ok r) ∧
          Ranges n blockCount r) ∧
      ((∃ r, c.feeHistory fees blockCount (.number n) percentiles = some (.ok r) ∧
          c.LinesUp fees n blockCount r) ↔
        blockCount.toNat < 2 ^ 64 ∧ c.baseFeeOf fees (n.toNat + 1) = some fees.baseFee.toNat ∧
          percentiles ≠ []) := by
  by_cases hcount : blockCount.toNat < 2 ^ 64
  · obtain ⟨r, heq, hranges, hiff⟩ := feeHistory_of_fits fees h hn hpos hcount percentiles
    refine ⟨fun _ => ⟨r, heq, hranges⟩, ?_⟩
    rw [and_iff_right hcount, ← hiff]
    constructor
    · rintro ⟨r', heq', hlines⟩
      cases heq.symm.trans heq'
      exact hlines
    · exact fun hlines => ⟨r, heq, hlines⟩
  · have hpanic : c.feeHistory fees blockCount (.number n) percentiles = none :=
      if_pos (Nat.le_of_not_lt hcount)
    refine ⟨fun hfits => absurd hfits hcount, fun ⟨r, heq, _⟩ => ?_, fun h => absurd h.1 hcount⟩
    rw [hpanic] at heq
    cases heq

/-- A chain of one block, with a base fee of 1. -/
def sampleHistory : FeeHistoryChain (FeeHistoryCacheItem Unit) :=
  start 0 maxFeeHistoryCacheSize ⟨1, (), none, (), []⟩

/-- Two more blocks, with base fees of 2 and 4. -/
def longerHistory : FeeHistoryChain (FeeHistoryCacheItem Unit) :=
  (sampleHistory.insertBlock 1 ⟨2, (), none, (), [5, 6]⟩).insertBlock 2 ⟨4, (), none, (), [7]⟩

/-- The last two of three blocks: the range ends with the best block, so that the base fee which
follows is that of the next one. -/
theorem feeHistory_lines_up_iff_best :
    ∃ r, longerHistory.feeHistory ⟨.london, 3, ⟨0, 0⟩⟩ 2 (.number 2) [1, 0] = some (.ok r) ∧
      r.oldestBlock.toNat = 1 ∧ r.baseFeePerGas.map some = [some 2, some 4, some 3] ∧
      r.reward.length = 2 := by
  have hcached : longerHistory.AllCached := by
    refine ⟨by decide, fun n hn => ?_⟩
    have hcases : n = 0 ∨ n = 1 ∨ n = 2 := by
      rw [UInt64.le_iff_toNat_le] at hn
      simp only [← UInt64.toNat_inj]
      have hbest : longerHistory.bestNumber.toNat = 2 := rfl
      have htwo : (2 : UInt64).toNat = 2 := rfl
      have hone : (1 : UInt64).toNat = 1 := rfl
      have hzero : (0 : UInt64).toNat = 0 := rfl
      omega
    rcases hcases with rfl | rfl | rfl <;> exact ⟨_, rfl, rfl⟩
  obtain ⟨r, heq, hlines⟩ := (feeHistory_lines_up_iff ⟨.london, 3, ⟨0, 0⟩⟩ hcached 2 (by decide) 2
    (by decide) [1, 0]).2.mpr ⟨by decide, rfl, by decide⟩
  have holdest : r.oldestBlock.toNat = 1 := hlines.oldest
  have hfees := hlines.baseFees
  have hrewards := hlines.rewards
  rw [holdest] at hfees hrewards
  exact ⟨r, heq, holdest, hfees, hrewards⟩

/-- Another block has a base fee of 2, and the next one of 3. The fee that follows the first block
is not that of the second. Without percentiles there are no rewards, and with a count of `2 ^ 64`
there is no answer. -/
theorem not_feeHistory_lines_up : let c := sampleHistory.insertBlock 1 ⟨2, (), none, (), []⟩
    let fees : FeeManager := ⟨.london, 3, ⟨0, 0⟩⟩
    ((c.feeHistory fees 1 (.number 0) []).bind Except.toOption).map
      (fun r => (r.baseFeePerGas, r.reward.length)) = some ([1, 3], 0) ∧
    c.baseFeeOf fees 1 = some 2 ∧ (c.feeHistory fees (2 ^ 64) (.number 0) []).isNone := by
  decide +kernel

end FeeHistoryChain

end BaseAnvil.Chain

import BaseAnvil.Chain.BlockHash
import BaseAnvil.Chain.FeeMarket

/-!
# BaseAnvil.Chain.BlobGas

The excess blob gas of the next block (`anvil/src/eth/fees.rs`).

It is a function of the excess blob gas, the blob gas used and the base fee of a header. Both
callers of `get_next_block_blob_excess_gas` pass the first two the wrong way round, and the base
fee is that of the fee manager, not that of the header.
-/

namespace BaseAnvil.Chain

open Lib
open Pool (PoolTransaction)

namespace StateRuntime

/-- The same runtime with another function for the excess blob gas. -/
def withNext (rt : StateRuntime) (next : UInt64 → UInt64 → UInt64 → UInt64) : StateRuntime :=
  { rt with rules := { rt.rules with nextBlockExcessBlobGasOsaka := next } }

/-- `BlobExcessGasAndPrice::new` keeps the excess it is given. -/
structure KeepsExcess (rt : StateRuntime) : Prop where
  mined (excess : UInt64) (spec : SpecId) :
    (rt.rules.blobExcessGasAndPrice excess spec).excessBlobGas = excess
  loaded (excess chainId timestamp : UInt64) :
    (rt.blobExcessGasAndPriceAt excess chainId timestamp).excessBlobGas = excess

end StateRuntime

namespace Backend

variable {rt : StateRuntime} {b b' : Backend} {header : Header}

/-- The fees of the next block are set from a header: that of a block that is mined, or that of
the last block of a dump that is loaded. -/
inductive SetsFees (rt : StateRuntime) (b : Backend) : Header → Backend → Prop
  | mine {ord : DbOrder} {now : UInt64} {txs : List PoolTransaction} {b' : Backend}
      {executed : ExecutedTransactions} {inner : CacheDb} {env : EvmEnv} :
      BackendStep rt.toRuntime b (.mine ord now txs) b' →
      b.executeBlock rt.toRuntime now (U64.saturatingAdd b.bestNumber 1) txs =
        some (executed, inner, env) →
      SetsFees rt b executed.block.header b'
  | load {ord : DbOrder} {state : SerializableState} {latest : Block} {done : Bool}
      {b' : Backend} :
      b.loadState rt ord state = some (.ok done, b') →
      latestBlock state.blocks = some latest →
      SetsFees rt b latest.header b'

theorem fees_loadAccounts {ord : DbOrder} {state : SerializableState}
    {res : Except BlockchainError Bool} (h : b.loadAccounts rt ord state = some (res, b')) :
    b'.fees = b.fees := by
  unfold loadAccounts at h
  split at h
  · cases h
    rfl
  · cases h
    rfl
  · dsimp only at h
    split at h
    · cases h
      rfl
    · obtain ⟨states, -, heq⟩ := Option.map_eq_some_iff.mp h
      cases heq
      rfl

theorem loadFees_loadBest (rt : StateRuntime) (b : Backend) (state : SerializableState) :
    (b.loadBest state).2.loadFees rt state = b.loadFees rt state := by
  unfold loadBest
  split
  · rfl
  · dsimp only
    split <;> rfl

theorem fees_loadState {ord : DbOrder} {state : SerializableState} {done : Bool}
    (h : b.loadState rt ord state = some (.ok done, b')) : b'.fees = b.loadFees rt state := by
  unfold loadState at h
  dsimp only at h
  split at h
  · cases h
  · rename_i b₁ hbest
    rw [fees_loadAccounts h]
    change b₁.loadFees rt state = _
    have hloaded := loadFees_loadBest rt { b with
      blockchain := (b.blockchain.loadBlocks rt.evm.hashSlow state.blocks).loadTransactions
        state.transactions } state
    rw [hbest] at hloaded
    exact hloaded

/-- What is stored: the gas used stands where the excess belongs. -/
theorem SetsFees.excessBlobGas (h : SetsFees rt b header b') (hkeeps : rt.KeepsExcess) :
    b'.fees.blobExcessGasAndPrice.excessBlobGas = rt.rules.nextBlockExcessBlobGasOsaka
      (header.blobGasUsed.getD 0) (header.excessBlobGas.getD 0) b.fees.baseFee := by
  cases h with
  | mine hstep hexec =>
    obtain ⟨states, executed', inner', env', -, hexec', rfl⟩ := mine_eq hstep
    cases hexec.symm.trans hexec'
    exact hkeeps.mined _ _
  | load hload hlatest =>
    rw [fees_loadState hload, loadFees, hlatest]
    exact hkeeps.loaded _ _ _

/-- **Excess blob gas.** Whatever the function is, the excess stored for the next block is its value
at the header, exactly when the header has as much excess as used blob gas, and the base fee of the
fee manager. For only then it does not matter that the two numbers are passed in the wrong order,
and that the fee is not the header's. -/
theorem excessBlobGas_follows_iff (rt : StateRuntime) (b : Backend) (header : Header)
    (next : (UInt64 → UInt64 → UInt64 → UInt64) → Backend) (hkeeps : rt.KeepsExcess)
    (h : ∀ f, SetsFees (rt.withNext f) b header (next f)) :
    (∀ f, (next f).fees.blobExcessGasAndPrice.excessBlobGas =
      f (header.excessBlobGas.getD 0) (header.blobGasUsed.getD 0)
        (header.baseFeePerGas.getD 0)) ↔
    header.excessBlobGas.getD 0 = header.blobGasUsed.getD 0 ∧
      b.fees.baseFee = header.baseFeePerGas.getD 0 := by
  have hstored (f : UInt64 → UInt64 → UInt64 → UInt64) :=
    (h f).excessBlobGas ⟨hkeeps.mined, hkeeps.loaded⟩
  constructor
  · intro hfollows
    -- two functions that read one argument each tell the arguments apart
    refine ⟨?_, ?_⟩
    · exact (hfollows fun excess _ _ => excess).symm.trans (hstored _)
    · exact (hstored fun _ _ baseFee => baseFee).symm.trans (hfollows _)
  · rintro ⟨hgas, hfee⟩ f
    rw [hstored f, hgas, hfee]
    rfl

/-- A dump of one block, with as much excess blob gas as it uses. -/
def sampleDump : SerializableState :=
  ⟨none, ∅, none, [⟨⟨0, 0, 0, 0, 0, 0, 0, 0, 0, 0, 0, 0, some 1, some 131072, some 131072⟩, []⟩],
    [], none⟩

/-- A header with as much excess as used blob gas is followed. -/
theorem excessBlobGas_follows_iff_load : ∃ b₀ : Backend,
    ∃ next : (UInt64 → UInt64 → UInt64 → UInt64) → Backend,
    (∀ f, b₀.loadState (sampleStateRuntime.withNext f) ascendingDbOrder sampleDump =
      some (.ok true, next f)) ∧
    ∀ f, (next f).fees.blobExcessGasAndPrice.excessBlobGas = f 131072 131072 1 := by
  have htest : (withGenesis sampleRuntime ascendingDbOrder 0 sampleGenesis).map
      (fun b₀ => decide (b₀.fees.baseFee = 1)) = some true := by
    decide +kernel
  obtain ⟨b₀, -, hfee⟩ := exists_of_map_decide htest
  have hload : ∃ next : (UInt64 → UInt64 → UInt64 → UInt64) → Backend,
      ∀ f, b₀.loadState (sampleStateRuntime.withNext f) ascendingDbOrder sampleDump =
        some (.ok true, next f) := ⟨_, fun _ => rfl⟩
  obtain ⟨next, hload⟩ := hload
  exact ⟨b₀, next, hload, (excessBlobGas_follows_iff sampleStateRuntime b₀ _ _ ⟨fun _ _ => rfl,
    fun _ _ _ => rfl⟩ fun f => .load (hload f) rfl).mpr ⟨rfl, hfee⟩⟩

/-- The excess blob gas stays as it is where the function returns its first argument. A block with
an excess of 5000000 is mined, and dumped and loaded: the next block gets none of it. -/
theorem not_excessBlobGas_follows :
    ((withGenesis sampleRuntime ascendingDbOrder 0
      { sampleGenesis with fees := ⟨.cancun, 1000000000, ⟨5000000, 1⟩⟩ }).bind fun b₀ =>
      (b₀.execAll sampleRuntime [.mine ascendingDbOrder 10 []]).bind fun b₁ =>
      (b₁.serializedState sampleStateRuntime ascendingDumpOrder (fun _ => true) false).toOption.bind
        fun dump => (b₀.execState sampleStateRuntime (.load ascendingDbOrder dump)).map fun b₂ =>
          ((b₁.blockByHash b₁.bestHash).map (·.header.excessBlobGas),
            b₁.fees.blobExcessGasAndPrice.excessBlobGas,
            b₂.fees.blobExcessGasAndPrice.excessBlobGas)) =
      some (some (some 5000000), 0, 0) ∧
    sampleRuntime.rules.nextBlockExcessBlobGasOsaka 5000000 0 1000000000 = 5000000 := by
  decide +kernel

end Backend

end BaseAnvil.Chain

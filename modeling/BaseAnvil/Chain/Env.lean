import BaseAnvil.Chain.Db

/-!
# BaseAnvil.Chain.Env

The environment a block is executed in (revm's `EvmEnv`) and the fee manager
(`eth/fees.rs`) that fills in the fees of the next one.
-/

namespace BaseAnvil.Chain

open Pool (B256 Address)

/-- Hardforks, oldest first. -/
inductive SpecId
  | frontier | frontierThawing | homestead | daoFork | tangerine | spuriousDragon | byzantium
  | constantinople | petersburg | istanbul | muirGlacier | berlin | london | arrowGlacier
  | grayGlacier | merge | shanghai | cancun | prague | osaka
  deriving Repr, DecidableEq

/-- `spec` is the hardfork `other` or a later one. -/
def SpecId.isEnabledIn (spec other : SpecId) : Bool := other.ctorIdx ≤ spec.ctorIdx

structure BlobExcessGasAndPrice where
  excessBlobGas : UInt64
  /-- A `u128`. -/
  blobGasprice : Nat
  deriving Repr, DecidableEq

@[ext] structure BlockEnv where
  number : U256
  beneficiary : Address
  timestamp : U256
  gasLimit : UInt64
  basefee : UInt64
  difficulty : U256
  prevrandao : Option B256
  blobExcessGasAndPrice : Option BlobExcessGasAndPrice
  deriving Repr, DecidableEq

def BlockEnv.blobExcessGas (env : BlockEnv) : Option UInt64 :=
  env.blobExcessGasAndPrice.map (·.excessBlobGas)

/-- The part of the configuration that mining reads or sets. -/
structure CfgEnv where
  chainId : UInt64
  spec : SpecId
  disableBaseFee : Bool
  disableBlockGasLimit : Bool
  txGasLimitCap : Option UInt64
  deriving Repr, DecidableEq

structure EvmEnv where
  blockEnv : BlockEnv
  cfgEnv : CfgEnv
  deriving Repr, DecidableEq

/-! ### Fees -/

/-- The fee arithmetic of alloy and revm. -/
structure FeeRules where
  /-- `calc_next_block_base_fee` with the configured base fee parameters. -/
  calcNextBlockBaseFee : (gasUsed gasLimit lastFeePerGas : UInt64) → UInt64
  /-- `BlobParams::next_block_excess_blob_gas_osaka` of the configured parameters. -/
  nextBlockExcessBlobGasOsaka : (excessBlobGas blobGasUsed baseFee : UInt64) → UInt64
  /-- `BlobParams::max_blob_gas_per_block` of the configured parameters. -/
  maxBlobGasPerBlock : UInt64
  /-- `BlobExcessGasAndPrice::new` with the update fraction of the hardfork. -/
  blobExcessGasAndPrice : UInt64 → SpecId → BlobExcessGasAndPrice

/-- Stores the fee related information. -/
structure FeeManager where
  specId : SpecId
  /-- The base fee for the next block post London. -/
  rawBaseFee : UInt64
  /-- The excess blob gas and its price for the next block post Cancun. -/
  blobExcessGasAndPrice : BlobExcessGasAndPrice
  deriving Repr, DecidableEq

namespace FeeManager

def isEip1559 (fees : FeeManager) : Bool := fees.specId.isEnabledIn .london

def isEip4844 (fees : FeeManager) : Bool := fees.specId.isEnabledIn .cancun

def baseFee (fees : FeeManager) : UInt64 := if fees.isEip1559 then fees.rawBaseFee else 0

def excessBlobGasAndPrice (fees : FeeManager) : Option BlobExcessGasAndPrice :=
  if fees.isEip4844 then some fees.blobExcessGasAndPrice else none

def setBaseFee (fees : FeeManager) (fee : UInt64) : FeeManager := { fees with rawBaseFee := fee }

def setBlobExcessGasAndPrice (fees : FeeManager) (blob : BlobExcessGasAndPrice) : FeeManager :=
  { fees with blobExcessGasAndPrice := blob }

/-- A base fee of zero was set by the user, and stays. -/
def getNextBlockBaseFeePerGas (rules : FeeRules) (fees : FeeManager)
    (gasUsed gasLimit lastFeePerGas : UInt64) : UInt64 :=
  if fees.baseFee = 0 then 0 else rules.calcNextBlockBaseFee gasUsed gasLimit lastFeePerGas

def getNextBlockBlobExcessGas (rules : FeeRules) (fees : FeeManager)
    (blobGasUsed blobExcessGas : UInt64) : UInt64 :=
  rules.nextBlockExcessBlobGasOsaka blobExcessGas blobGasUsed fees.baseFee

end FeeManager

end BaseAnvil.Chain

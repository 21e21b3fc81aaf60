import BaseAnvil.Chain.Env

/-!
# BaseAnvil.Chain.Solvency

`Backend::validate_pool_transaction_for`, and whether a transaction it lets through can be
paid for.

What the transaction may cost is computed in 128 bits: the gas and the value are cut down to
what fits, the sum is checked, and the product for the blobs may not fit at all.
-/

namespace BaseAnvil.Chain

abbrev U128 := BitVec 128

/-- The kinds of transactions that are told apart. Blobs come with what KZG says of them. -/
inductive TxKind
  | legacy
  | eip4844 (blobCount : Nat) (maxFeePerBlobGas : U128) (blobsValid : Bool)
  | deposit (mint : U128)
  | other
  deriving DecidableEq

/-- A transaction as far as the validation reads it. -/
structure TxToValidate where
  kind : TxKind
  chainId : Option UInt64
  nonce : UInt64
  gasLimit : UInt64
  maxFeePerGas : U128
  maxPriorityFeePerGas : Option U128
  value : U256

namespace TxToValidate

/-- `blob_gas_used`: `DATA_GAS_PER_BLOB` for each blob. -/
def blobGasUsed (tx : TxToValidate) : Option Nat :=
  match tx.kind with
  | .eip4844 blobCount _ _ => some (blobCount * 131072)
  | _ => none

def maxFeePerBlobGas (tx : TxToValidate) : Option U128 :=
  match tx.kind with
  | .eip4844 _ maxFeePerBlobGas _ => some maxFeePerBlobGas
  | _ => none

def isDeposit (tx : TxToValidate) : Bool :=
  match tx.kind with
  | .deposit _ => true
  | _ => false

end TxToValidate

/-- The errors of the validation. -/
inductive InvalidTransactionError
  | incompatibleEip155
  | invalidChainId
  | nonceTooLow
  | noBlobHashes
  | tooManyBlobs (count max : Nat)
  | blobTransactionValidationError
  | gasTooLow
  | gasTooHigh (detail : String)
  | feeCapTooLow
  | tipAboveFeeCap
  | blobFeeCapTooLow (maxFeePerBlobGas blobGasprice : Nat)
  | insufficientFunds
  deriving DecidableEq

/-- What the backend has to say, besides the environment of the next block. -/
structure ValidationConfig where
  chainId : UInt64
  maxBlobCount : Nat
  skipBlobValidation : Bool
  disablePoolBalanceChecks : Bool
  /-- `CfgEnv::tx_gas_limit_cap`, which has a default. -/
  txGasLimitCap : UInt64

def minTransactionGas : UInt64 := 21000

/-- `u128::MAX`. -/
def maxU128 : Nat := 2 ^ 128 - 1

section Validation

variable (config : ValidationConfig) (tx : TxToValidate) (account : AccountInfo) (env : EvmEnv)

def checkChainId : Option InvalidTransactionError :=
  match tx.chainId with
  | none => none
  | some txChainId =>
    if config.chainId = txChainId then none
    else if tx.kind = .legacy then
      if env.cfgEnv.spec.isEnabledIn .spuriousDragon && tx.chainId.isNone then
        some .incompatibleEip155
      else none
    else some .invalidChainId

def checkNonce : Option InvalidTransactionError :=
  if tx.nonce < account.nonce && !tx.isDeposit then some .nonceTooLow else none

def checkBlobs : Option InvalidTransactionError :=
  match tx.kind with
  | .eip4844 blobCount _ blobsValid =>
    if !env.cfgEnv.spec.isEnabledIn .cancun then none
    else if blobCount = 0 then some .noBlobHashes
    else if config.maxBlobCount < blobCount then some (.tooManyBlobs blobCount config.maxBlobCount)
    else if !config.skipBlobValidation && !blobsValid then some .blobTransactionValidationError
    else none
  | _ => none

def checkGasLimit : Option InvalidTransactionError :=
  if tx.gasLimit < minTransactionGas then some .gasTooLow
  else if !env.cfgEnv.disableBlockGasLimit && env.blockEnv.gasLimit < tx.gasLimit then
    some (.gasTooHigh "tx.gas_limit > env.block.gas_limit")
  else if env.cfgEnv.txGasLimitCap.isNone && config.txGasLimitCap < tx.gasLimit then
    some (.gasTooHigh "tx.gas_limit > env.cfg.tx_gas_limit_cap")
  else none

def checkFees : Option InvalidTransactionError :=
  if !env.cfgEnv.spec.isEnabledIn .london then none
  else if tx.maxFeePerGas.toNat < env.blockEnv.basefee.toNat && !tx.isDeposit then
    some .feeCapTooLow
  else match tx.maxPriorityFeePerGas with
    | some tip => if tx.maxFeePerGas < tip then some .tipAboveFeeCap else none
    | none => none

def checkBlobFee : Option InvalidTransactionError :=
  match tx.maxFeePerBlobGas, env.blockEnv.blobExcessGasAndPrice with
  | some fee, some blob =>
    if env.cfgEnv.spec.isEnabledIn .cancun && fee.toNat < blob.blobGasprice then
      some (.blobFeeCapTooLow fee.toNat blob.blobGasprice)
    else none
  | _, _ => none

/-- What the blobs may cost. -/
def blobCost : Nat := tx.blobGasUsed.getD 0 * (tx.maxFeePerBlobGas.getD 0).toNat

/-- `max_cost`, if the product for the blobs fits: `mul` is not a saturating one. -/
def maxCost : Option Nat :=
  if blobCost tx < 2 ^ 128 then
    some (min (min (tx.gasLimit.toNat * tx.maxFeePerGas.toNat) maxU128 + blobCost tx) maxU128)
  else none

def checkFunds (maxCost : Nat) : Option InvalidTransactionError :=
  match tx.kind with
  | .deposit mint =>
    -- on `U256`, which wraps
    if account.balance + mint.setWidth 256 < tx.value then some .insufficientFunds else none
  | _ =>
    let reqFunds := maxCost + min tx.value.toNat maxU128
    if maxU128 < reqFunds then some .insufficientFunds
    else if account.balance.toNat < reqFunds then some .insufficientFunds
    else none

/-- `validate_pool_transaction_for`: the error if there is one, unless a product overflows. -/
def validatePoolTransactionFor : Option (Option InvalidTransactionError) :=
  match checkChainId config tx env <|> checkNonce tx account <|> checkBlobs config tx env with
  | some err => some (some err)
  | none =>
    if config.disablePoolBalanceChecks then some none
    else
      match checkGasLimit config tx env <|> checkFees tx env <|> checkBlobFee tx env with
      | some err => some (some err)
      | none => (maxCost tx).map (checkFunds tx account)

end Validation

/-! ### Whether the account can pay -/

/-- What the transaction may cost. -/
def totalCost (tx : TxToValidate) : Nat :=
  tx.gasLimit.toNat * tx.maxFeePerGas.toNat + blobCost tx + tx.value.toNat

/-- With the checks enabled nothing overflows, and who is let through can pay. -/
def Solvent (tx : TxToValidate) (account : AccountInfo) : Prop :=
  ∀ (config : ValidationConfig) (env : EvmEnv), config.disablePoolBalanceChecks = false →
    validatePoolTransactionFor config tx account env ≠ none ∧
    (validatePoolTransactionFor config tx account env = some none →
      totalCost tx ≤ account.balance.toNat)

/-- It is refused whatever the environment, for its gas limit or its nonce. -/
def AlwaysRefused (tx : TxToValidate) (account : AccountInfo) : Prop :=
  tx.gasLimit < minTransactionGas ∨ tx.nonce < account.nonce

/-- The cost is cut down to just what fits, because it comes from the value alone or without
any value, and the account has as much. -/
def CutDown (tx : TxToValidate) (account : AccountInfo) : Prop :=
  (tx.value = 0 ∨ totalCost tx = tx.value.toNat) ∧
    maxU128 ≤ account.balance.toNat ∧ account.balance.toNat < totalCost tx

variable {tx : TxToValidate} {account : AccountInfo}

theorem checkFunds_eq_none_iff (hdeposit : tx.isDeposit = false) (cost : Nat) :
    checkFunds tx account cost = none ↔ cost + min tx.value.toNat maxU128 ≤ maxU128 ∧
      cost + min tx.value.toNat maxU128 ≤ account.balance.toNat := by
  unfold checkFunds
  cases hkind : tx.kind with
  | deposit mint => simp [TxToValidate.isDeposit, hkind] at hdeposit
  | _ =>
    dsimp only
    split
    · simp only [reduceCtorEq, false_iff]
      omega
    · split
      · simp only [reduceCtorEq, false_iff]
        omega
      · simp only [true_iff]
        omega

/-- The check finds out who cannot pay, except where the cost is cut down to the balance. -/
theorem funds_suffice_iff (hdeposit : tx.isDeposit = false) {cost : Nat}
    (hcost : maxCost tx = some cost) :
    (checkFunds tx account cost = none → totalCost tx ≤ account.balance.toNat) ↔
      ¬CutDown tx account := by
  have hvalue : tx.value = 0 ↔ tx.value.toNat = 0 := by simp [BitVec.toNat_eq]
  unfold maxCost at hcost
  split at hcost
  · cases hcost
    rw [checkFunds_eq_none_iff hdeposit, CutDown, hvalue, totalCost]
    generalize tx.gasLimit.toNat * tx.maxFeePerGas.toNat = gas
    generalize blobCost tx = blob
    unfold maxU128
    omega
  · cases hcost

/-- A configuration and an environment that check only the nonce, the least gas and the funds:
the oldest hardfork compares no fees, and no other limit on gas is set. -/
def laxConfig (tx : TxToValidate) : ValidationConfig :=
  ⟨tx.chainId.getD 0, 0, true, false, 0⟩

def laxEnv : EvmEnv :=
  ⟨⟨0, 0, 0, 0, 0, 0, none, none⟩, ⟨0, .frontier, true, true, some 0⟩⟩

theorem validate_lax (h : ¬AlwaysRefused tx account) :
    validatePoolTransactionFor (laxConfig tx) tx account laxEnv =
      (maxCost tx).map (checkFunds tx account) := by
  obtain ⟨hgas, hnonce⟩ := not_or.mp h
  have hchain : checkChainId (laxConfig tx) tx laxEnv = none := by
    unfold checkChainId laxConfig
    cases tx.chainId <;> simp
  have hblobs : checkBlobs (laxConfig tx) tx laxEnv = none := by
    unfold checkBlobs
    cases tx.kind <;> rfl
  have hfee : checkBlobFee tx laxEnv = none := by
    unfold checkBlobFee
    cases tx.maxFeePerBlobGas <;> rfl
  have hlimit : checkGasLimit (laxConfig tx) tx laxEnv = none := by
    simp [checkGasLimit, laxEnv, hgas]
  have hfees : checkFees tx laxEnv = none := rfl
  have hnonce : checkNonce tx account = none := by simp [checkNonce, hnonce]
  simp only [validatePoolTransactionFor, hchain, hblobs, hfee, hlimit, hfees, hnonce]
  rfl

/-- **Solvency.** A transaction that is not refused anyway is let through only if it can be paid
for, and nothing overflows, exactly if the product for its blobs fits and its cost is not cut
down. -/
theorem solvent_iff (tx : TxToValidate) (account : AccountInfo) (hdeposit : tx.isDeposit = false) :
    Solvent tx account ↔
      AlwaysRefused tx account ∨ (blobCost tx < 2 ^ 128 ∧ ¬CutDown tx account) := by
  constructor
  · intro h
    refine or_iff_not_imp_left.mpr fun hrefused => ?_
    obtain ⟨hfits, hpays⟩ := h (laxConfig tx) laxEnv rfl
    rw [validate_lax hrefused] at hfits hpays
    cases hcost : maxCost tx with
    | none => simp [hcost] at hfits
    | some cost =>
      rw [hcost, Option.map_some, Option.some_inj] at hpays
      refine ⟨?_, (funds_suffice_iff hdeposit hcost).mp hpays⟩
      unfold maxCost at hcost
      split at hcost
      · assumption
      · cases hcost
  · intro h config env henabled
    unfold validatePoolTransactionFor
    rw [henabled]
    split
    · exact ⟨Option.some_ne_none _, fun heq => by simp at heq⟩
    · rename_i hearly
      rw [if_neg Bool.false_ne_true]
      split
      · exact ⟨Option.some_ne_none _, fun heq => by simp at heq⟩
      · rename_i hlate
        -- all checks passed, so it is not one that is always refused
        have hpassed : ¬AlwaysRefused tx account := by
          simp only [Option.orElse_eq_orElse, Option.orElse_eq_or,
            Option.or_eq_none_iff] at hearly hlate
          rintro (hgas | hnonce)
          · simp [checkGasLimit, hgas] at hlate
          · simp [checkNonce, hnonce, hdeposit] at hearly
        obtain ⟨hblob, hcut⟩ := h.resolve_left hpassed
        have hcost : maxCost tx = some _ := if_pos hblob
        rw [hcost, Option.map_some, Option.some_inj]
        exact ⟨Option.some_ne_none _, (funds_suffice_iff hdeposit hcost).mpr hcut⟩

/-- A transfer of `2 ^ 200` without a fee. -/
def freeTransfer : TxToValidate := ⟨.legacy, none, 0, 21000, 0, none, BitVec.ofNat 256 (2 ^ 200)⟩

/-- A transfer of half as much as the account below has, with two blobs. -/
def blobTransfer : TxToValidate :=
  ⟨.eip4844 2 7 true, none, 0, 21000, 3, none, BitVec.ofNat 256 (2 ^ 127)⟩

/-- An account that has `2 ^ 128`. -/
def modestAccount : AccountInfo := ⟨BitVec.ofNat 256 (2 ^ 128), 0, 0, none⟩

/-- The transfer with the blobs is let through only where it can be paid for, the free one is cut
down. -/
theorem solvent_iff_transfer :
    (¬AlwaysRefused blobTransfer modestAccount ∧ blobCost blobTransfer = 1835008 ∧
        ¬CutDown blobTransfer modestAccount ∧ Solvent blobTransfer modestAccount) ∧
      CutDown freeTransfer modestAccount ∧ ¬Solvent freeTransfer modestAccount := by
  have hpasses : ¬AlwaysRefused blobTransfer modestAccount := by
    unfold AlwaysRefused
    decide
  have hfits : ¬CutDown blobTransfer modestAccount := by
    unfold CutDown
    decide
  have hcut : ¬AlwaysRefused freeTransfer modestAccount ∧ CutDown freeTransfer modestAccount := by
    unfold AlwaysRefused CutDown
    decide
  refine ⟨⟨hpasses, rfl, hfits, (solvent_iff _ _ rfl).mpr (.inr ⟨by decide, hfits⟩)⟩, hcut.2,
    fun h => ?_⟩
  rcases (solvent_iff _ _ rfl).mp h with hrefused | ⟨-, hnot⟩
  · exact hcut.1 hrefused
  · exact hnot hcut.2

/-- The free transfer is let through, although its value is more than the account has. -/
theorem not_solvent :
    validatePoolTransactionFor (laxConfig freeTransfer) freeTransfer modestAccount laxEnv =
      some none ∧ modestAccount.balance.toNat < totalCost freeTransfer := by
  decide

end BaseAnvil.Chain

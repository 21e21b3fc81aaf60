import BaseAnvil.Chain.Executor

/-!
# BaseAnvil.Chain.Accounting

What a block assembled by `execute` is made of.

The transactions are counted twice: by the iterator, which decides what still fits,
and by the loop around it, which fills receipts and header. `outcomes` is the list
the iterator yields. `Collects` says what the loop has made of such a list, and
`outcomes_spec` what the iterator has counted while yielding it; both are sums over
the executed transactions in the list, so the two counts agree.
-/

namespace BaseAnvil.Chain

open Lib Assembly U64
open Pool (B256 PoolTransaction)

/-! ### Outcomes -/

namespace TransactionExecutionOutcome

/-- The pending transaction this is the outcome of. -/
def transaction : TransactionExecutionOutcome → PoolTransaction
  | .executed tx => tx.transaction
  | .invalid tx => tx
  | .blockGasExhausted tx => tx
  | .blobGasExhausted tx => tx
  | .transactionGasExhausted tx => tx
  | .databaseError tx _ => tx

def executed? : TransactionExecutionOutcome → Option ExecutedTransaction
  | .executed tx => some tx
  | _ => none

def invalid? : TransactionExecutionOutcome → Option PoolTransaction
  | .invalid tx => some tx
  | _ => none

/-- The transaction, if it is neither executed nor invalid. -/
def skipped? : TransactionExecutionOutcome → Option PoolTransaction
  | .blockGasExhausted tx => some tx
  | .blobGasExhausted tx => some tx
  | .transactionGasExhausted tx => some tx
  | .databaseError tx _ => some tx
  | .executed _ | .invalid _ => none

/-- Those of the outcomes that are in a block. -/
def executedOf (outcomes : List TransactionExecutionOutcome) : List ExecutedTransaction :=
  outcomes.filterMap executed?

def includedOf (outcomes : List TransactionExecutionOutcome) : List PoolTransaction :=
  (executedOf outcomes).map (·.transaction)

def invalidOf (outcomes : List TransactionExecutionOutcome) : List PoolTransaction :=
  outcomes.filterMap invalid?

def skippedOf (outcomes : List TransactionExecutionOutcome) : List PoolTransaction :=
  outcomes.filterMap skipped?

/-- Every transaction is executed, invalid or skipped. -/
theorem perm_transactions (outcomes : List TransactionExecutionOutcome) :
    (includedOf outcomes ++ invalidOf outcomes ++ skippedOf outcomes).Perm
      (outcomes.map transaction) := by
  induction outcomes with
  | nil => exact .nil
  | cons o os ih =>
    cases o with
    | executed tx => exact ih.cons tx.transaction
    | invalid tx =>
      refine List.Perm.trans ?_ (ih.cons tx)
      show (includedOf os ++ (tx :: invalidOf os) ++ skippedOf os).Perm _
      rw [List.append_assoc, List.append_assoc]
      exact List.perm_middle
    | _ => exact List.perm_middle.trans (ih.cons _)

/-- A part of the outcomes, in their order. -/
theorem filterMap_sublist {f : TransactionExecutionOutcome → Option PoolTransaction}
    (hf : ∀ o tx, f o = some tx → o.transaction = tx)
    (outcomes : List TransactionExecutionOutcome) :
    (outcomes.filterMap f).Sublist (outcomes.map transaction) := by
  induction outcomes with
  | nil => exact .slnil
  | cons o os ih =>
    rw [List.filterMap_cons, List.map_cons]
    cases ho : f o with
    | none => exact ih.cons _
    | some tx =>
      rw [hf o tx ho]
      exact ih.cons_cons _

variable (outcomes : List TransactionExecutionOutcome)
include outcomes

theorem includedOf_sublist : (includedOf outcomes).Sublist (outcomes.map transaction) := by
  rw [includedOf, executedOf, List.map_filterMap]
  refine filterMap_sublist (fun o tx ho => ?_) outcomes
  cases o <;> simp_all [executed?, transaction]

theorem invalidOf_sublist : (invalidOf outcomes).Sublist (outcomes.map transaction) := by
  refine filterMap_sublist (fun o tx ho => ?_) outcomes
  cases o <;> simp_all [invalid?, transaction]

theorem skippedOf_sublist : (skippedOf outcomes).Sublist (outcomes.map transaction) := by
  refine filterMap_sublist (fun o tx ho => ?_) outcomes
  cases o <;> simp_all [skipped?, transaction]

end TransactionExecutionOutcome

open TransactionExecutionOutcome

/-! ### What the loop collects -/

namespace ExecutedTransaction

/-- The info of the transaction at a position of the block. -/
def info (evm : Evm) (tx : ExecutedTransaction) (index : Nat) : TransactionInfo where
  transactionHash := tx.transaction.hash
  transactionIndex := UInt64.ofNat index
  sender := tx.transaction.pendingTransaction.sender
  toAddress := (evm.envelope tx.transaction.pendingTransaction).toAddress
  contractAddress := match tx.out with
    | some (.create _ contractAddress) => contractAddress
    | _ => none
  exit := tx.exitReason
  out := tx.out.map Output.intoData
  nonce := tx.nonce
  gasUsed := tx.gasUsed

/-- `create_receipt`, given the gas used up to and including the transaction. -/
def createReceipt (evm : Evm) (tx : ExecutedTransaction) (cumulativeGasUsed : UInt64) : Receipt :=
  ⟨(evm.envelope tx.transaction.pendingTransaction).txType, tx.exitReason.isOk, cumulativeGasUsed,
    tx.logs⟩

def blobGas (evm : Evm) (tx : ExecutedTransaction) : UInt64 :=
  (evm.envelope tx.transaction.pendingTransaction).blobGasUsed.getD 0

end ExecutedTransaction

/-- What has been collected from a list of outcomes. -/
structure Assembly.Collects (evm : Evm) (isCancun : Bool)
    (outcomes : List TransactionExecutionOutcome) (a : Assembly) : Prop where
  included : a.included = includedOf outcomes
  invalid : a.invalid = invalidOf outcomes
  transactions : a.transactions = (includedOf outcomes).map (·.pendingTransaction)
  infos : a.transactionInfos = (executedOf outcomes).mapIdx fun i tx => tx.info evm i
  length_receipts : a.receipts.length = (executedOf outcomes).length
  receipts : ∀ (i : Nat) (tx : ExecutedTransaction), (executedOf outcomes)[i]? = some tx →
    a.receipts[i]? = some
      (tx.createReceipt evm (U64.sum (((executedOf outcomes).take (i + 1)).map (·.gasUsed))))
  gas : a.cumulativeGasUsed = U64.sum ((executedOf outcomes).map (·.gasUsed))
  blobGas : a.cumulativeBlobGasUsed =
    if isCancun then some (U64.sum ((executedOf outcomes).map (·.blobGas evm))) else none

variable {evm : Evm} {o : TransactionExecutionOutcome}

namespace Assembly

variable {isCancun : Bool}

theorem collects_new : (new isCancun).Collects evm isCancun [] := by
  refine ⟨rfl, rfl, rfl, rfl, rfl, fun i tx h => ?_, rfl, rfl⟩
  simp [executedOf] at h

variable {a : Assembly} {outcomes : List TransactionExecutionOutcome}

section

variable (h : a.Collects evm isCancun outcomes)
include h

theorem Collects.push (tx : ExecutedTransaction) :
    (a.push evm isCancun tx).Collects evm isCancun (outcomes ++ [.executed tx]) := by
  have htxs : executedOf (outcomes ++ [.executed tx]) = executedOf outcomes ++ [tx] := by
    simp [executedOf, executed?]
  have hinfos : a.transactionInfos.length = (executedOf outcomes).length := by
    rw [h.infos, List.length_mapIdx]
  have hgas : saturatingAdd a.cumulativeGasUsed tx.gasUsed =
      U64.sum ((executedOf outcomes ++ [tx]).map (·.gasUsed)) := by
    rw [h.gas, List.map_append]
    exact (sum_concat _).symm
  refine ⟨?_, ?_, ?_, ?_, ?_, ?_, ?_, ?_⟩
  · simp [Assembly.push, includedOf, htxs, h.included]
  · simp [Assembly.push, invalidOf, invalid?, h.invalid]
  · simp [Assembly.push, includedOf, htxs, h.transactions]
  · rw [htxs, List.mapIdx_concat, ← h.infos, ← hinfos]
    rfl
  · simp [Assembly.push, htxs, h.length_receipts]
  · intro i tx' htx'
    rw [htxs] at htx' ⊢
    show (a.receipts ++ [tx.createReceipt evm (saturatingAdd a.cumulativeGasUsed tx.gasUsed)])[i]?
      = _
    by_cases hi : i < (executedOf outcomes).length
    · rw [List.getElem?_append_left hi] at htx'
      rw [List.getElem?_append_left (h.length_receipts ▸ hi), h.receipts i tx' htx',
        List.take_append_of_le_length hi]
    · have hge := Nat.le_of_not_lt hi
      rw [List.getElem?_append_right hge] at htx'
      obtain ⟨hzero, rfl⟩ : i - (executedOf outcomes).length = 0 ∧ tx = tx' := by
        simpa [List.getElem?_singleton] using htx'
      have hi' : i = (executedOf outcomes).length := by omega
      rw [List.getElem?_append_right (h.length_receipts ▸ hge), h.length_receipts, hzero,
        List.take_of_length_le (by simp [hi']), hgas]
      rfl
  · rw [htxs]
    exact hgas
  · rw [htxs]
    cases isCancun with
    | false => simp [Assembly.push, h.blobGas]
    | true =>
      simp only [Assembly.push, h.blobGas, if_true, List.map_append, List.map_cons, List.map_nil,
        sum_concat]
      rfl

variable {outcomes' : List TransactionExecutionOutcome}

/-- Outcomes that are not executed only count if they are invalid. -/
theorem Collects.setInvalid (htxs : executedOf outcomes' = executedOf outcomes) :
    Collects evm isCancun outcomes' { a with invalid := invalidOf outcomes' } := by
  refine ⟨?_, rfl, ?_, ?_, ?_, ?_, ?_, ?_⟩ <;> simp only [includedOf, htxs]
  · exact h.included
  · exact h.transactions
  · exact h.infos
  · exact h.length_receipts
  · exact h.receipts
  · exact h.gas
  · exact h.blobGas

theorem Collects.absorb {a' : Assembly} (habsorb : a.absorb evm isCancun o = some a') :
    a'.Collects evm isCancun (outcomes ++ [o]) := by
  have hother : o.executed? = none → executedOf (outcomes ++ [o]) = executedOf outcomes := by
    intro ho
    simp [executedOf, ho]
  have hvalid : o.invalid? = none → invalidOf (outcomes ++ [o]) = a.invalid := by
    intro ho
    simp [invalidOf, ho, h.invalid]
  cases o with
  | executed tx =>
    simp only [Assembly.absorb] at habsorb
    split at habsorb
    · cases habsorb
    · cases habsorb
      exact h.push tx
  | invalid tx =>
    cases habsorb
    have hset := h.setInvalid (hother rfl)
    rw [invalidOf, List.filterMap_append, ← invalidOf, ← h.invalid] at hset
    exact hset
  | _ =>
    cases habsorb
    have hset := h.setInvalid (hother rfl)
    rw [hvalid rfl] at hset
    exact hset

/-- What the loop collects from a list of outcomes. -/
theorem Collects.foldlM {a' : Assembly}
    (hfold : outcomes'.foldlM (Assembly.absorb evm isCancun) a = some a') :
    a'.Collects evm isCancun (outcomes ++ outcomes') := by
  induction outcomes' generalizing outcomes a with
  | nil =>
    cases hfold
    rw [List.append_nil]
    exact h
  | cons o os ih =>
    rw [List.foldlM_cons] at hfold
    obtain ⟨a₁, habsorb, hrest⟩ := Option.bind_eq_some_iff.mp hfold
    rw [← List.singleton_append, ← List.append_assoc]
    exact ih (h.absorb habsorb) hrest

end

/-- There is a receipt for every outcome but an executed Tempo transaction. -/
theorem isSome_foldlM_absorb
    (h : ∀ tx ∈ executedOf outcomes,
      (evm.envelope tx.transaction.pendingTransaction).txType ≠ .tempo) (a : Assembly) :
    (outcomes.foldlM (Assembly.absorb evm isCancun) a).isSome := by
  induction outcomes generalizing a with
  | nil => rfl
  | cons o os ih =>
    rw [List.foldlM_cons]
    have hrest : ∀ tx ∈ executedOf os,
        (evm.envelope tx.transaction.pendingTransaction).txType ≠ .tempo := by
      intro tx htx
      refine h tx ?_
      obtain ⟨o', ho', heq⟩ := List.mem_filterMap.mp htx
      exact List.mem_filterMap.mpr ⟨o', List.mem_cons_of_mem _ ho', heq⟩
    cases o with
    | executed tx =>
      have htx := h tx (List.mem_filterMap.mpr ⟨.executed tx, List.mem_cons_self, rfl⟩)
      simp only [Assembly.absorb, if_neg htx, Option.bind_eq_bind, Option.bind_some]
      exact ih hrest _
    | _ => exact ih hrest _

end Assembly

/-! ### What the iterator counts -/

/-- The gas the EVM reports. -/
def ExecutionResult.gasUsed : ExecutionResult → UInt64
  | .success _ gas _ _ => gas
  | .revert gas _ _ => gas
  | .halt _ gas _ => gas

/-- The EVM never reports more gas used than the transaction's gas limit. -/
def Evm.GasBounded (evm : Evm) : Prop :=
  ∀ db env tx result db', evm.transactCommit db env tx = (.ok result, db') →
    result.gasUsed ≤ (evm.envelope tx).gasLimit

variable {rules : FeeRules} {keccakEmpty : B256} {validate : TransactionValidator} {env : EvmEnv}
  {os : List TransactionExecutionOutcome} {pending : List PoolTransaction}

namespace TransactionExecutor

section

variable (evm : Evm) (rules : FeeRules) (keccakEmpty : B256) (validate : TransactionValidator)
  (env : EvmEnv)

/-- The outcomes the iterator yields for the pending transactions. -/
def outcomes (ex : TransactionExecutor) :
    List PoolTransaction → Option (List TransactionExecutionOutcome × TransactionExecutor)
  | [] => some ([], ex)
  | tx :: pending => do
      let (o, ex) ← ex.next evm rules keccakEmpty validate env tx
      let (os, ex) ← outcomes ex pending
      some (o :: os, ex)

end

/-- The loop is a fold over the outcomes. -/
theorem executeAll_eq (isCancun : Bool) (ex : TransactionExecutor) (a : Assembly) :
    executeAll evm rules keccakEmpty validate env isCancun ex a pending =
      (outcomes evm rules keccakEmpty validate env ex pending).bind fun (os, ex') =>
        (os.foldlM (Assembly.absorb evm isCancun) a).map fun a' => (a', ex') := by
  induction pending generalizing ex a with
  | nil => rfl
  | cons tx pending ih =>
    simp only [executeAll, outcomes, ih, Option.bind_eq_bind, Option.bind_assoc,
      Option.bind_some, List.foldlM_cons]
    refine Option.bind_congr fun r _ => ?_
    obtain ⟨o, ex₁⟩ := r
    cases ha : a.absorb evm isCancun o with
    | none => simp
    | some a₁ => simp

/-- All that a step can do to the two counters. -/
inductive Counts (evm : Evm) (rules : FeeRules) (env : EvmEnv) (ex : TransactionExecutor)
    (tx : PoolTransaction) : TransactionExecutionOutcome → TransactionExecutor → Prop
  | other {o : TransactionExecutionOutcome} {ex' : TransactionExecutor}
      (executed : o.executed? = none) (transaction : o.transaction = tx)
      (gasUsed : ex'.gasUsed = ex.gasUsed) (blobGasUsed : ex'.blobGasUsed = ex.blobGasUsed) :
      Counts evm rules env ex tx o ex'
  | executed {etx : ExecutedTransaction} {ex' : TransactionExecutor}
      (transaction : etx.transaction = tx)
      (gasUsed : ex'.gasUsed = U64.saturatingAdd ex.gasUsed etx.gasUsed)
      (blobGasUsed : ex'.blobGasUsed = U64.saturatingAdd ex.blobGasUsed (etx.blobGas evm))
      (fits : env.cfgEnv.disableBlockGasLimit = false →
        U64.saturatingAdd ex.gasUsed (evm.envelope tx.pendingTransaction).gasLimit ≤
          env.blockEnv.gasLimit)
      (blobFits : ex'.blobGasUsed ≤ rules.maxBlobGasPerBlock)
      (bounded : evm.GasBounded → etx.gasUsed ≤ (evm.envelope tx.pendingTransaction).gasLimit) :
      Counts evm rules env ex tx (.executed etx) ex'

variable {ex ex' : TransactionExecutor} {tx : PoolTransaction}

/-- Executing a transaction that passed the checks. -/
theorem counts_transact {nonce : UInt64} {db : CacheDb}
    (fits : env.cfgEnv.disableBlockGasLimit = false →
      saturatingAdd ex.gasUsed (evm.envelope tx.pendingTransaction).gasLimit ≤
        env.blockEnv.gasLimit)
    (blobFits : saturatingAdd ex.blobGasUsed
      ((evm.envelope tx.pendingTransaction).blobGasUsed.getD 0) ≤ rules.maxBlobGasPerBlock)
    (h : { ex with db := db }.transact evm env tx nonce = some (o, ex')) :
    Counts evm rules env ex tx o ex' := by
  unfold transact at h
  dsimp only at h
  cases hcommit : evm.transactCommit db env tx.pendingTransaction with
  | mk res db =>
    rw [hcommit] at h
    rcases res with (err | _ | _) | result
    · cases h
      exact .other rfl rfl rfl rfl
    · cases h
      exact .other rfl rfl rfl rfl
    · cases h
    · have hgas : evm.GasBounded → result.gasUsed ≤ (evm.envelope tx.pendingTransaction).gasLimit :=
        fun hbounded => hbounded _ _ _ _ _ hcommit
      have hsum : ex'.blobGasUsed = saturatingAdd ex.blobGasUsed
          ((evm.envelope tx.pendingTransaction).blobGasUsed.getD 0) := by
        cases hblob : (evm.envelope tx.pendingTransaction).blobGasUsed with
        | none =>
          rw [hblob] at h
          cases result <;> cases h <;> exact saturatingAdd_zero.symm
        | some blobGas =>
          rw [hblob] at h
          cases result <;> cases h <;> rfl
      rw [← hsum] at blobFits
      cases result <;> cases h <;> exact .executed rfl rfl hsum fits blobFits hgas

/-- The checks come before the execution, so an executed transaction has passed them. -/
theorem counts_next (h : ex.next evm rules keccakEmpty validate env tx = some (o, ex')) :
    Counts evm rules env ex tx o ex' := by
  unfold next at h
  dsimp only at h
  generalize evm.basic ex.db tx.pendingTransaction.sender = res at h
  rcases res with ⟨err | info, db⟩
  · cases h
    exact .other rfl rfl rfl rfl
  · dsimp only at h
    split_ifs at h with hgas hcap hblob hvalid
    · cases h
      exact .other rfl rfl rfl rfl
    · cases h
      exact .other rfl rfl rfl rfl
    · cases h
      exact .other rfl rfl rfl rfl
    · cases h
      exact .other rfl rfl rfl rfl
    · have hfits : env.cfgEnv.disableBlockGasLimit = false → saturatingAdd ex.gasUsed
          (evm.envelope tx.pendingTransaction).gasLimit ≤ env.blockEnv.gasLimit := by
        intro henabled
        rw [not_and] at hgas
        exact UInt64.not_lt.mp (hgas (by rw [henabled]; rfl))
      exact counts_transact hfits (UInt64.not_lt.mp hblob) h

/-- What the iterator has counted when it has yielded a list of outcomes. -/
structure Counted (evm : Evm) (rules : FeeRules) (env : EvmEnv) (ex : TransactionExecutor)
    (os : List TransactionExecutionOutcome) (ex' : TransactionExecutor) : Prop where
  gasUsed : ex'.gasUsed = ((executedOf os).map (·.gasUsed)).foldl U64.saturatingAdd ex.gasUsed
  blobGasUsed : ex'.blobGasUsed =
    ((executedOf os).map (·.blobGas evm)).foldl U64.saturatingAdd ex.blobGasUsed
  blobFits : ex.blobGasUsed ≤ rules.maxBlobGasPerBlock → ex'.blobGasUsed ≤ rules.maxBlobGasPerBlock
  fits : evm.GasBounded → env.cfgEnv.disableBlockGasLimit = false →
    ex.gasUsed ≤ env.blockEnv.gasLimit → ex'.gasUsed ≤ env.blockEnv.gasLimit

theorem Counts.cons {ex₁ : TransactionExecutor} (h : Counts evm rules env ex tx o ex₁)
    (hrest : Counted evm rules env ex₁ os ex') : Counted evm rules env ex (o :: os) ex' := by
  cases h with
  | other hexec htx hgas hblob =>
    have hos : executedOf (o :: os) = executedOf os := by simp [executedOf, hexec]
    obtain ⟨h₁, h₂, h₃, h₄⟩ := hrest
    rw [hgas] at h₁ h₄
    rw [hblob] at h₂ h₃
    rw [← hos] at h₁ h₂
    exact ⟨h₁, h₂, h₃, h₄⟩
  | @executed etx _ htx hgas hblob hfits hblobFits hbounded =>
    obtain ⟨h₁, h₂, h₃, h₄⟩ := hrest
    refine ⟨?_, ?_, fun _ => h₃ hblobFits, fun hevm henabled _ => h₄ hevm henabled ?_⟩
    · rw [h₁, hgas]
      rfl
    · rw [h₂, hblob]
      rfl
    · -- the gas used is at most the limit that was checked
      have hle := UInt64.le_iff_toNat_le.mp (hbounded hevm)
      have hfit := UInt64.le_iff_toNat_le.mp (hfits henabled)
      rw [toNat_saturatingAdd] at hfit
      rw [UInt64.le_iff_toNat_le, hgas, toNat_saturatingAdd]
      omega

theorem outcomes_spec
    (h : outcomes evm rules keccakEmpty validate env ex pending = some (os, ex')) :
    os.map transaction = pending ∧ Counted evm rules env ex os ex' := by
  induction pending generalizing ex os with
  | nil =>
    cases h
    exact ⟨rfl, rfl, rfl, id, fun _ _ => id⟩
  | cons tx pending ih =>
    rw [outcomes] at h
    obtain ⟨⟨o, ex₁⟩, hnext, hrest⟩ := Option.bind_eq_some_iff.mp h
    obtain ⟨⟨os', ex₂⟩, hos, heq⟩ := Option.bind_eq_some_iff.mp hrest
    cases heq
    obtain ⟨hmap, hcounted⟩ := ih hos
    have hcounts := counts_next hnext
    refine ⟨?_, hcounts.cons hcounted⟩
    rw [List.map_cons, hmap]
    cases hcounts with
    | other _ htx _ _ => rw [htx]
    | executed htx _ _ _ _ _ => exact congrArg (· :: pending) htx

/-- The iterator only stops short where the EVM fails in the way it never should. -/
theorem isSome_outcomes (hevm : ∀ db env tx, (evm.transactCommit db env tx).1 ≠ .error .other)
    (ex : TransactionExecutor) :
    (outcomes evm rules keccakEmpty validate env ex pending).isSome := by
  have htransact : ∀ ex tx nonce, (transact evm env ex tx nonce).isSome := by
    intro ex tx nonce
    have hne := hevm ex.db env tx.pendingTransaction
    unfold transact
    dsimp only
    generalize evm.transactCommit ex.db env tx.pendingTransaction = res at hne ⊢
    rcases res with ⟨(err | _ | _) | result, db⟩
    · rfl
    · rfl
    · exact absurd rfl hne
    · rfl
  have hnext : ∀ ex tx, (next evm rules keccakEmpty validate env ex tx).isSome := by
    intro ex tx
    unfold next
    dsimp only
    rcases evm.basic ex.db tx.pendingTransaction.sender with ⟨err | info, db⟩
    · rfl
    · dsimp only
      split_ifs
      · rfl
      · rfl
      · rfl
      · rfl
      · exact htransact _ _ _
  induction pending generalizing ex with
  | nil => rfl
  | cons tx pending ih =>
    obtain ⟨⟨o, ex₁⟩, ho⟩ := Option.isSome_iff_exists.mp (hnext ex tx)
    obtain ⟨⟨os, ex₂⟩, hos⟩ := Option.isSome_iff_exists.mp (ih ex₁)
    rw [outcomes, ho]
    simp [hos]

end TransactionExecutor

/-! ### The accounts of a block -/

/-- A sum of gas as it is kept in a `u64`. -/
def cappedSum (gas : List UInt64) : Nat := min (gas.map UInt64.toNat).sum U64.max.toNat

/-- What a block is made of, given the outcomes of the pending transactions. -/
structure Accounting (evm : Evm) (rules : FeeRules) (env : EvmEnv) (pending : List PoolTransaction)
    (outcomes : List TransactionExecutionOutcome) (executed : ExecutedTransactions) : Prop where
  /-- The outcomes are those of the pending transactions, in order. -/
  order : outcomes.map transaction = pending
  included : executed.included = includedOf outcomes
  invalid : executed.invalid = invalidOf outcomes
  /-- Together with the skipped ones they make up the pending list. -/
  partition : (executed.included ++ executed.invalid ++ skippedOf outcomes).Perm pending
  included_sublist : executed.included.Sublist pending
  invalid_sublist : executed.invalid.Sublist pending
  skipped_sublist : (skippedOf outcomes).Sublist pending
  length_infos : executed.transactions.length = executed.block.transactions.length
  length_receipts : executed.receipts.length = executed.block.transactions.length
  /-- Body, infos and receipts correspond position by position. -/
  position : ∀ (i : Nat) (tx : ExecutedTransaction), (executedOf outcomes)[i]? = some tx →
    executed.included[i]? = some tx.transaction ∧
    executed.block.transactions[i]? = some tx.transaction.pendingTransaction ∧
    executed.transactions[i]? = some (tx.info evm i) ∧
    ∃ cumulativeGasUsed, executed.receipts[i]? = some (tx.createReceipt evm cumulativeGasUsed) ∧
      cumulativeGasUsed.toNat =
        cappedSum ((executed.transactions.take (i + 1)).map (·.gasUsed))
  length_executed : (executedOf outcomes).length = executed.block.transactions.length
  gasUsed : executed.block.header.gasUsed =
    (executed.receipts.getLast?.map (·.cumulativeGasUsed)).getD 0
  /-- The field is there from Cancun on. -/
  blobGasUsed : executed.block.header.blobGasUsed.isSome = env.cfgEnv.spec.isEnabledIn .cancun
  blobGas : ∀ blobGasUsed, executed.block.header.blobGasUsed = some blobGasUsed →
    blobGasUsed.toNat = cappedSum (executed.block.transactions.map fun tx =>
      (evm.envelope tx).blobGasUsed.getD 0) ∧ blobGasUsed ≤ rules.maxBlobGasPerBlock
  gasLimit : env.cfgEnv.disableBlockGasLimit = false →
    executed.block.header.gasUsed ≤ executed.block.header.gasLimit

namespace TransactionExecutor

/-- The block and what it was collected from. -/
theorem execute_eq_some {parentHash : B256} {db db' : CacheDb} {executed : ExecutedTransactions}
    (h : execute evm rules keccakEmpty validate env parentHash db pending = some (executed, db')) :
    ∃ os a ex, outcomes evm rules keccakEmpty validate env ⟨db, 0, 0⟩ pending = some (os, ex) ∧
      Collects evm (env.cfgEnv.spec.isEnabledIn .cancun) os a ∧ db' = ex.db ∧
      executed = ⟨createBlock evm (header evm env parentHash ex.db a) a.transactions,
        a.transactionInfos, a.receipts, a.included, a.invalid⟩ := by
  rw [execute] at h
  obtain ⟨⟨a, ex⟩, hall, heq⟩ := Option.map_eq_some_iff.mp h
  rw [executeAll_eq] at hall
  obtain ⟨⟨os, ex'⟩, hos, hfold⟩ := Option.bind_eq_some_iff.mp hall
  obtain ⟨a', hcollect, hpair⟩ := Option.map_eq_some_iff.mp hfold
  cases hpair
  cases heq
  exact ⟨os, a, ex, hos, collects_new.foldlM hcollect, rfl, rfl⟩

theorem accounting_of_collects {parentHash : B256} {db : CacheDb} {a : Assembly}
    {ex ex₀ : TransactionExecutor} (hgas : evm.GasBounded) (hpending : os.map transaction = pending)
    (hcounted : Counted evm rules env ex₀ os ex) (hex₀ : ex₀.gasUsed = 0)
    (hex₀' : ex₀.blobGasUsed = 0)
    (h : Collects evm (env.cfgEnv.spec.isEnabledIn .cancun) os a) :
    Accounting evm rules env pending os
      ⟨createBlock evm (header evm env parentHash db a) a.transactions, a.transactionInfos,
        a.receipts, a.included, a.invalid⟩ := by
  have hlength : (executedOf os).length = a.transactions.length := by
    rw [h.transactions, includedOf, List.length_map, List.length_map]
  have hinfos : a.transactionInfos.length = (executedOf os).length := by
    rw [h.infos, List.length_mapIdx]
  have hgasOf : a.transactionInfos.map (·.gasUsed) = (executedOf os).map (·.gasUsed) := by
    rw [h.infos]
    refine List.ext_getElem? fun i => ?_
    rw [List.getElem?_map, List.getElem?_mapIdx, List.getElem?_map, Option.map_map]
    rfl
  have hgasUsed : a.cumulativeGasUsed = ex.gasUsed := by
    rw [h.gas, hcounted.gasUsed, hex₀]
    rfl
  have hblobGasUsed : U64.sum ((executedOf os).map (·.blobGas evm)) = ex.blobGasUsed := by
    rw [hcounted.blobGasUsed, hex₀']
    rfl
  subst hpending
  constructor
  case order => rfl
  case included => exact h.included
  case invalid => exact h.invalid
  case partition =>
    rw [h.included, h.invalid]
    exact perm_transactions os
  case included_sublist => exact h.included ▸ includedOf_sublist os
  case invalid_sublist => exact h.invalid ▸ invalidOf_sublist os
  case skipped_sublist => exact skippedOf_sublist os
  case length_infos => exact hinfos.trans hlength
  case length_receipts => exact h.length_receipts.trans hlength
  case length_executed => exact hlength
  case position =>
    intro i tx htx
    refine ⟨?_, ?_, ?_, _, h.receipts i tx htx, ?_⟩
    · show a.included[i]? = _
      rw [h.included, includedOf, List.getElem?_map, htx]
      rfl
    · show a.transactions[i]? = _
      rw [h.transactions, includedOf, List.getElem?_map, List.getElem?_map, htx]
      rfl
    · show a.transactionInfos[i]? = _
      rw [h.infos, List.getElem?_mapIdx, htx]
      rfl
    · rw [toNat_sum, cappedSum, List.map_take, ← hgasOf, ← List.map_take]
  case gasUsed =>
    show a.cumulativeGasUsed = _
    rw [h.gas]
    rcases List.eq_nil_or_concat (executedOf os) with hnil | ⟨txs, tx, hconcat⟩
    · have hreceipts : a.receipts = [] :=
        List.eq_nil_of_length_eq_zero (by rw [h.length_receipts, hnil]; rfl)
      rw [hnil, hreceipts]
      rfl
    · have hlast := h.receipts txs.length tx (by simp [hconcat])
      have hlen : a.receipts.length = txs.length + 1 := by simp [h.length_receipts, hconcat]
      rw [List.getLast?_eq_getElem?, hlen, Nat.add_sub_cancel, hlast,
        List.take_of_length_le (by simp [hconcat])]
      rfl
  case blobGasUsed =>
    show a.cumulativeBlobGasUsed.isSome = _
    rw [h.blobGas]
    cases env.cfgEnv.spec.isEnabledIn .cancun <;> rfl
  case blobGas =>
    intro blobGasUsed heq
    replace heq : a.cumulativeBlobGasUsed = some blobGasUsed := heq
    rw [h.blobGas] at heq
    split at heq
    · cases heq
      refine ⟨?_, ?_⟩
      · rw [toNat_sum, cappedSum]
        show _ = min ((a.transactions.map _).map UInt64.toNat).sum _
        rw [h.transactions, includedOf, List.map_map, List.map_map, List.map_map, List.map_map]
        rfl
      · rw [hblobGasUsed]
        exact hcounted.blobFits (by rw [hex₀']; exact UInt64.zero_le)
    · cases heq
  case gasLimit =>
    intro henabled
    show a.cumulativeGasUsed ≤ env.blockEnv.gasLimit
    rw [hgasUsed]
    exact hcounted.fits hgas henabled (by rw [hex₀]; exact UInt64.zero_le)

/-- **Block assembly.** Whatever the validator and the EVM do, as long as the EVM
stays within the gas limits of the transactions: if `execute` returns, the accounts
of the block are right; and it does return, unless the EVM fails in the way it never
should or there is a Tempo transaction. -/
theorem execute_accounting (evm : Evm) (rules : FeeRules) (keccakEmpty : B256)
    (validate : TransactionValidator) (env : EvmEnv) (parentHash : B256) (db : CacheDb)
    (pending : List PoolTransaction) (hgas : evm.GasBounded) :
    (∀ executed db',
      execute evm rules keccakEmpty validate env parentHash db pending = some (executed, db') →
      ∃ os ex, outcomes evm rules keccakEmpty validate env ⟨db, 0, 0⟩ pending = some (os, ex) ∧
        Accounting evm rules env pending os executed) ∧
    ((∀ db env tx, (evm.transactCommit db env tx).1 ≠ .error .other) →
      (∀ tx ∈ pending, (evm.envelope tx.pendingTransaction).txType ≠ .tempo) →
      (execute evm rules keccakEmpty validate env parentHash db pending).isSome) := by
  constructor
  · intro executed db' h
    obtain ⟨os, a, ex, hos, hcollects, -, rfl⟩ := execute_eq_some h
    obtain ⟨hpending, hcounted⟩ := outcomes_spec hos
    exact ⟨os, ex, hos, accounting_of_collects hgas hpending hcounted rfl rfl hcollects⟩
  · intro hevm htempo
    have hiter : (outcomes evm rules keccakEmpty validate env ⟨db, 0, 0⟩ pending).isSome :=
      isSome_outcomes hevm _
    obtain ⟨⟨os, ex⟩, hos⟩ := Option.isSome_iff_exists.mp hiter
    have hbody : ∀ tx ∈ executedOf os,
        (evm.envelope tx.transaction.pendingTransaction).txType ≠ .tempo := by
      intro tx htx
      refine htempo tx.transaction ?_
      rw [← (outcomes_spec hos).1]
      exact (includedOf_sublist os).subset (List.mem_map_of_mem htx)
    rw [execute, Option.isSome_map, executeAll_eq, hos, Option.bind_some, Option.isSome_map]
    exact isSome_foldlM_absorb hbody _

/-- An EVM in which all transactions have the same gas limit and use all of it. -/
def burningEvm (gasLimit : UInt64) : Evm where
  basic db _ := (.ok none, db)
  insertAccountInfo db _ _ := db
  insertAccountStorage db _ _ _ := (.ok (), db)
  envelope _ := ⟨.eip1559, gasLimit, none, none⟩
  txGasLimitCap _ := U64.max
  transactCommit db _ _ := (.ok (.halt .outOfGas gasLimit []), db)
  hashSlow _ := 0
  accrue bloom _ := bloom
  calculateReceiptRoot _ := 0
  calculateTransactionRoot _ := 0
  stateRoot _ := 0

theorem gasBounded_burningEvm (gasLimit : UInt64) : (burningEvm gasLimit).GasBounded := by
  rintro _ _ _ _ _ ⟨⟩
  exact UInt64.le_refl _

def burningRules : FeeRules :=
  ⟨fun _ _ fee => fee, fun excess _ _ => excess, 0, fun excess _ => ⟨excess, 1⟩⟩

/-- Cancun, with or without a block gas limit of two transactions. -/
def burningEnv (disableBlockGasLimit : Bool) : EvmEnv :=
  ⟨⟨1, 0, 0, 42000, 1, 0, none, none⟩, ⟨31337, .cancun, false, disableBlockGasLimit, none⟩⟩

def burningTransactions (n : Nat) : List PoolTransaction :=
  (List.range n).map fun i => ⟨⟨BitVec.ofNat 256 i, 1, UInt64.ofNat i, 1⟩, [], [], 1⟩

/-- Of three transactions two fit into the block, and its accounts are right. -/
theorem execute_accounting_three :
    ∃ executed db' os, execute (burningEvm 21000) burningRules 0 (fun _ _ _ => true)
      (burningEnv false) 0 .empty (burningTransactions 3) = some (executed, db') ∧
      executed.included.length = 2 ∧
      Accounting (burningEvm 21000) burningRules (burningEnv false) (burningTransactions 3) os
        executed := by
  obtain ⟨hacc, -⟩ := execute_accounting (burningEvm 21000) burningRules 0 (fun _ _ _ => true)
    (burningEnv false) 0 .empty (burningTransactions 3) (gasBounded_burningEvm _)
  have hsome : ((execute (burningEvm 21000) burningRules 0 (fun _ _ _ => true) (burningEnv false) 0
      .empty (burningTransactions 3)).map fun r => r.1.included.length) = some 2 := by
    decide +kernel
  obtain ⟨⟨executed, db'⟩, hexec, hlength⟩ := Option.map_eq_some_iff.mp hsome
  obtain ⟨os, ex, -, hresult⟩ := hacc executed db' hexec
  exact ⟨executed, db', os, hexec, hlength, hresult⟩

/-- With no block gas limit two transactions can use more gas than a `u64` holds:
the second receipt then has less than the sum. -/
theorem cumulative_gas_saturates :
    (burningEvm 0x8000000000000000).GasBounded ∧
    ((execute (burningEvm 0x8000000000000000) burningRules 0 (fun _ _ _ => true) (burningEnv true) 0
      .empty (burningTransactions 2)).map fun r =>
        (r.1.transactions.map (·.gasUsed.toNat), r.1.receipts.map (·.cumulativeGasUsed.toNat))) =
      some ([2 ^ 63, 2 ^ 63], [2 ^ 63, 2 ^ 64 - 1]) := by
  refine ⟨gasBounded_burningEvm _, ?_⟩
  decide +kernel

end TransactionExecutor

end BaseAnvil.Chain

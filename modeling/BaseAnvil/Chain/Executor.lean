import BaseAnvil.Chain.Storage

/-!
# BaseAnvil.Chain.Executor

Executing the transactions of a block and assembling the block from the results
(`eth/backend/executor.rs`).

The EVM, the hashes and roots, and what a signed transaction holds beyond what the
pool reads are the fields of `Evm`.
-/

namespace BaseAnvil.Chain

open Lib
open Pool (B256 Address PendingTransaction PoolTransaction)

/-- The output of an execution. -/
inductive Output
  | call (data : List UInt8)
  | create (data : List UInt8) (contractAddress : Option Address)
  deriving Repr, DecidableEq

def Output.intoData : Output → List UInt8
  | .call data => data
  | .create data _ => data

inductive ExecutionResult
  | success (reason : InstructionResult) (gasUsed : UInt64) (logs : List Log) (output : Output)
  | revert (gasUsed : UInt64) (output : List UInt8) (logs : List Log)
  | halt (reason : InstructionResult) (gasUsed : UInt64) (logs : List Log)
  deriving Repr, DecidableEq

inductive EvmError
  | database (err : DatabaseError)
  | transaction
  | other
  deriving Repr, DecidableEq

/-- What the executor reads of a signed transaction. -/
structure TxEnvelope where
  txType : TxType
  gasLimit : UInt64
  blobGasUsed : Option UInt64
  toAddress : Option Address
  deriving Repr, DecidableEq

/-- The EVM and the libraries around it. -/
structure Evm extends CacheDbApi where
  envelope : PendingTransaction → TxEnvelope
  /-- `Cfg::tx_gas_limit_cap`: the cap of the hardfork. -/
  txGasLimitCap : CfgEnv → UInt64
  transactCommit : CacheDb → EvmEnv → PendingTransaction →
    Except EvmError ExecutionResult × CacheDb
  hashSlow : Header → B256
  accrue : Bloom → List UInt8 → Bloom
  calculateReceiptRoot : List Receipt → B256
  calculateTransactionRoot : List PendingTransaction → B256
  stateRoot : HashMap Address DbAccount → B256

/-- Represents an executed transaction. -/
structure ExecutedTransaction where
  transaction : PoolTransaction
  exitReason : InstructionResult
  out : Option Output
  gasUsed : UInt64
  logs : List Log
  nonce : UInt64
  deriving Repr, DecidableEq

/-- The result of a single transaction execution attempt. -/
inductive TransactionExecutionOutcome
  | executed (tx : ExecutedTransaction)
  | invalid (tx : PoolTransaction)
  | blockGasExhausted (tx : PoolTransaction)
  | blobGasExhausted (tx : PoolTransaction)
  | transactionGasExhausted (tx : PoolTransaction)
  | databaseError (tx : PoolTransaction) (err : DatabaseError)
  deriving Repr, DecidableEq

/-- Validates a transaction against its sender's account and the environment. -/
abbrev TransactionValidator := PendingTransaction → AccountInfo → EvmEnv → Bool

/-- What the executor carries from one transaction to the next. -/
structure TransactionExecutor where
  db : CacheDb
  /-- Cumulative gas used by all executed transactions. -/
  gasUsed : UInt64
  /-- Cumulative blob gas used by all executed transactions. -/
  blobGasUsed : UInt64

namespace TransactionExecutor

section

variable (evm : Evm) (rules : FeeRules) (keccakEmpty : B256) (validate : TransactionValidator)
  (env : EvmEnv)

/-- Executes a transaction that passed the checks. Only the error that should
never happen makes the executor panic. -/
def transact (ex : TransactionExecutor) (transaction : PoolTransaction) (nonce : UInt64) :
    Option (TransactionExecutionOutcome × TransactionExecutor) :=
  let pending := transaction.pendingTransaction
  match evm.transactCommit ex.db env pending with
  | (.error (.database err), db) => some (.databaseError transaction err, { ex with db := db })
  | (.error .transaction, db) => some (.invalid transaction, { ex with db := db })
  | (.error .other, _) => none
  | (.ok result, db) =>
    let (exitReason, gasUsed, out, logs) := match result with
      | .success reason gas logs output => (reason, gas, some output, logs)
      | .revert gas output logs => (.revert, gas, some (.call output), logs)
      | .halt reason gas logs => (reason, gas, none, logs)
    let blobGasUsed := match (evm.envelope pending).blobGasUsed with
      | some blobGas => U64.saturatingAdd ex.blobGasUsed blobGas
      | none => ex.blobGasUsed
    some (.executed ⟨transaction, exitReason, out, gasUsed, logs, nonce⟩,
      ⟨db, U64.saturatingAdd ex.gasUsed gasUsed, blobGasUsed⟩)

/-- `Iterator::next`, for the next pending transaction. -/
def next (ex : TransactionExecutor) (transaction : PoolTransaction) :
    Option (TransactionExecutionOutcome × TransactionExecutor) :=
  let pending := transaction.pendingTransaction
  let tx := evm.envelope pending
  match evm.basic ex.db pending.sender with
  | (.error err, db) => some (.databaseError transaction err, { ex with db := db })
  | (.ok info, db) =>
    let ex := { ex with db := db }
    let account := info.getD (.default keccakEmpty)
    if !env.cfgEnv.disableBlockGasLimit ∧
        env.blockEnv.gasLimit < U64.saturatingAdd ex.gasUsed tx.gasLimit then
      some (.blockGasExhausted transaction, ex)
    else if env.cfgEnv.txGasLimitCap = none ∧ evm.txGasLimitCap env.cfgEnv < tx.gasLimit then
      some (.transactionGasExhausted transaction, ex)
    else if rules.maxBlobGasPerBlock <
        U64.saturatingAdd ex.blobGasUsed (tx.blobGasUsed.getD 0) then
      some (.blobGasExhausted transaction, ex)
    else if !validate pending account env then some (.invalid transaction, ex)
    else ex.transact evm env transaction account.nonce

end

end TransactionExecutor

/-! ### Assembling the block -/

/-- Successful exits come first in the enumeration. -/
def InstructionResult.isOk : InstructionResult → Bool
  | .stop | .return | .selfDestruct => true
  | _ => false

def buildLogsBloom (evm : Evm) (logs : List Log) (bloom : Bloom) : Bloom :=
  logs.foldl
    (fun bloom log =>
      log.topics.foldl (fun bloom topic => evm.accrue bloom (beBytes 32 topic.toNat))
        (evm.accrue bloom (beBytes 20 log.address.toNat)))
    bloom

/-- What `execute` has collected so far. -/
structure Assembly where
  transactions : List PendingTransaction
  transactionInfos : List TransactionInfo
  receipts : List Receipt
  bloom : Bloom
  cumulativeGasUsed : UInt64
  cumulativeBlobGasUsed : Option UInt64
  included : List PoolTransaction
  invalid : List PoolTransaction

namespace Assembly

def new (isCancun : Bool) : Assembly :=
  ⟨[], [], [], 0, 0, if isCancun then some 0 else none, [], []⟩

/-- Adds an executed transaction. -/
def push (evm : Evm) (isCancun : Bool) (a : Assembly) (tx : ExecutedTransaction) : Assembly :=
  let pending := tx.transaction.pendingTransaction
  let envelope := evm.envelope pending
  let cumulativeGasUsed := U64.saturatingAdd a.cumulativeGasUsed tx.gasUsed
  let receipt : Receipt := ⟨envelope.txType, tx.exitReason.isOk, cumulativeGasUsed, tx.logs⟩
  let contractAddress := match tx.out with
    | some (.create _ contractAddress) => contractAddress
    | _ => none
  let info : TransactionInfo :=
    { transactionHash := tx.transaction.hash
      transactionIndex := UInt64.ofNat a.transactionInfos.length
      sender := pending.sender
      toAddress := envelope.toAddress
      contractAddress := contractAddress
      exit := tx.exitReason
      out := tx.out.map Output.intoData
      nonce := tx.nonce
      gasUsed := tx.gasUsed }
  { a with
    included := a.included ++ [tx.transaction]
    cumulativeBlobGasUsed :=
      if isCancun then
        some (U64.saturatingAdd (a.cumulativeBlobGasUsed.getD 0) (envelope.blobGasUsed.getD 0))
      else a.cumulativeBlobGasUsed
    cumulativeGasUsed := cumulativeGasUsed
    bloom := buildLogsBloom evm tx.logs a.bloom
    transactionInfos := a.transactionInfos ++ [info]
    receipts := a.receipts ++ [receipt]
    transactions := a.transactions ++ [pending] }

/-- The body of the loop in `execute`. There is no receipt for a Tempo
transaction yet: creating one panics. -/
def absorb (evm : Evm) (isCancun : Bool) (a : Assembly) :
    TransactionExecutionOutcome → Option Assembly
  | .executed tx =>
    if (evm.envelope tx.transaction.pendingTransaction).txType = .tempo then none
    else some (a.push evm isCancun tx)
  | .invalid tx => some { a with invalid := a.invalid ++ [tx] }
  | .blockGasExhausted _ | .blobGasExhausted _ | .transactionGasExhausted _
  | .databaseError _ _ => some a

end Assembly

def createBlock (evm : Evm) (header : Header) (transactions : List PendingTransaction) : Block :=
  ⟨{ header with transactionsRoot := evm.calculateTransactionRoot transactions }, transactions⟩

/-- The outcome of executing the transactions of a new block. -/
structure ExecutedTransactions where
  block : Block
  transactions : List TransactionInfo
  receipts : List Receipt
  included : List PoolTransaction
  invalid : List PoolTransaction

namespace TransactionExecutor

section

variable (evm : Evm) (rules : FeeRules) (keccakEmpty : B256) (validate : TransactionValidator)
  (env : EvmEnv)

/-- The loop of `execute`. -/
def executeAll (isCancun : Bool) (ex : TransactionExecutor) (a : Assembly) :
    List PoolTransaction → Option (Assembly × TransactionExecutor)
  | [] => some (a, ex)
  | tx :: pending => do
      let (outcome, ex) ← ex.next evm rules keccakEmpty validate env tx
      let a ← a.absorb evm isCancun outcome
      executeAll isCancun ex a pending

/-- The header of a block over the transactions collected. -/
def header (parentHash : B256) (db : CacheDb) (a : Assembly) : Header where
  parentHash := parentHash
  beneficiary := env.blockEnv.beneficiary
  stateRoot := evm.stateRoot db.accounts
  transactionsRoot := 0
  receiptsRoot := evm.calculateReceiptRoot a.receipts
  logsBloom := a.bloom
  difficulty := env.blockEnv.difficulty
  number := Word.saturatingToU64 env.blockEnv.number
  gasLimit := env.blockEnv.gasLimit
  gasUsed := a.cumulativeGasUsed
  timestamp := Word.saturatingToU64 env.blockEnv.timestamp
  mixHash := env.blockEnv.prevrandao.getD 0
  baseFeePerGas :=
    if env.cfgEnv.spec.isEnabledIn .london then some env.blockEnv.basefee else none
  blobGasUsed := a.cumulativeBlobGasUsed
  excessBlobGas :=
    if env.cfgEnv.spec.isEnabledIn .cancun then env.blockEnv.blobExcessGas else none

/-- Executes all transactions and puts them in a new block. -/
def execute (parentHash : B256) (db : CacheDb) (pending : List PoolTransaction) :
    Option (ExecutedTransactions × CacheDb) :=
  let isCancun := env.cfgEnv.spec.isEnabledIn .cancun
  (executeAll evm rules keccakEmpty validate env isCancun ⟨db, 0, 0⟩ (.new isCancun) pending).map
    fun (a, ex) =>
      let block := createBlock evm (header evm env parentHash ex.db a) a.transactions
      (⟨block, a.transactionInfos, a.receipts, a.included, a.invalid⟩, ex.db)

end

end TransactionExecutor

/-! ### The body of the block -/

/-- The infos collected are those of the transactions collected, in order. -/
def Assembly.InStep (a : Assembly) : Prop :=
  a.transactionInfos.map (·.transactionHash) = a.transactions.map (·.hash)

variable {isCancun : Bool} {evm : Evm} {outcome : TransactionExecutionOutcome}

theorem Assembly.InStep.absorb {a a' : Assembly} (h : a.InStep)
    (habsorb : a.absorb evm isCancun outcome = some a') : a'.InStep := by
  cases outcome with
  | executed tx =>
    simp only [Assembly.absorb] at habsorb
    split at habsorb
    · cases habsorb
    · cases habsorb
      simpa [Assembly.InStep, Assembly.push, PoolTransaction.hash] using h
  | _ =>
    cases habsorb
    exact h

variable {pending : List PoolTransaction}
  {validate : TransactionValidator} {rules : FeeRules} {env : EvmEnv} {keccakEmpty : B256}

/-- What one round of the loop keeps, the loop keeps. -/
theorem TransactionExecutor.invariant_executeAll {I : TransactionExecutor → Assembly → Prop}
    (hround : ∀ {ex ex' a a' tx outcome}, I ex a →
      ex.next evm rules keccakEmpty validate env tx = some (outcome, ex') →
      a.absorb evm isCancun outcome = some a' → I ex' a')
    {ex ex' : TransactionExecutor} {a a' : Assembly} (h : I ex a)
    (hexec : executeAll evm rules keccakEmpty validate env isCancun ex a pending = some (a', ex')) :
    I ex' a' := by
  induction pending generalizing ex a with
  | nil =>
    cases hexec
    exact h
  | cons tx pending ih =>
    rw [executeAll] at hexec
    obtain ⟨⟨outcome, ex₁⟩, hnext, hrest⟩ := Option.bind_eq_some_iff.mp hexec
    obtain ⟨a₁, habsorb, hrest⟩ := Option.bind_eq_some_iff.mp hrest
    exact ih (hround h hnext habsorb) hrest

variable {executed : ExecutedTransactions} {parentHash : B256}

/-- The infos of a block are those of the transactions in its body. -/
theorem TransactionExecutor.infos_of_execute {db db' : CacheDb}
    (h : execute evm rules keccakEmpty validate env parentHash db pending = some (executed, db')) :
    executed.transactions.map (·.transactionHash) = executed.block.txHashes := by
  obtain ⟨⟨a, ex⟩, hall, heq⟩ := Option.map_eq_some_iff.mp h
  cases heq
  have hnew : (Assembly.new (env.cfgEnv.spec.isEnabledIn .cancun)).InStep := rfl
  exact invariant_executeAll (I := fun _ a => a.InStep) (fun h _ habsorb => h.absorb habsorb) hnew
    hall

/-! ### The database of the executor -/

namespace TransactionExecutor

section

variable {I : CacheDb → Prop} (hbasic : ∀ db address, I db → I (evm.basic db address).2)
  (hcommit : ∀ db tx, I db → I (evm.transactCommit db env tx).2)

include hbasic hcommit

/-- A transaction loads its sender and may be executed; nothing else touches the database. -/
theorem invariant_next {ex ex' : TransactionExecutor} {tx : PoolTransaction} (h : I ex.db)
    (hnext : ex.next evm rules keccakEmpty validate env tx = some (outcome, ex')) : I ex'.db := by
  have hload := hbasic ex.db tx.pendingTransaction.sender h
  unfold next at hnext
  dsimp only at hnext
  generalize evm.basic ex.db tx.pendingTransaction.sender = res at hnext hload
  rcases res with ⟨err | info, db⟩
  · cases hnext
    exact hload
  · have hexec := hcommit db tx.pendingTransaction hload
    dsimp only at hnext
    split_ifs at hnext
    iterate 4
      cases hnext
      exact hload
    unfold transact at hnext
    dsimp only at hnext
    generalize evm.transactCommit db env tx.pendingTransaction = res at hnext hexec
    rcases res with ⟨(err | _ | _) | result, db'⟩
    · cases hnext
      exact hexec
    · cases hnext
      exact hexec
    · cases hnext
    · cases result <;> cases hnext <;> exact hexec

/-- What loading an account and executing a transaction keep, executing a block keeps. -/
theorem invariant_execute {db db' : CacheDb} (h : I db)
    (hexec : execute evm rules keccakEmpty validate env parentHash db pending =
      some (executed, db')) : I db' := by
  obtain ⟨⟨a, ex⟩, hall, heq⟩ := Option.map_eq_some_iff.mp hexec
  cases heq
  exact invariant_executeAll (I := fun ex _ => I ex.db)
    (fun h hnext _ => invariant_next hbasic hcommit h hnext) h hall

end

end TransactionExecutor

end BaseAnvil.Chain

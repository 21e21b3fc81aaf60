import BaseAnvil.Chain.Executor
import BaseAnvil.Chain.Time
import BaseAnvil.Lib.Run

/-!
# BaseAnvil.Chain.Backend

The in-memory backend (`eth/backend/mem/mod.rs`) and what changes its chain:
mining, `evm_snapshot`, `evm_revert`, `anvil_rollback` and `anvil_reorg`.

There is no fork, so a block that is not stored is not found. Of what a request
meets outside the backend, the clock, the order in which hash maps are walked and
whether a file can be read are part of the operation (`BackendOp`); the libraries
are the `Runtime`, which stays the same during a run.
-/

namespace BaseAnvil.Chain

open Lib
open Pool (B256 Address PoolTransaction)

/-- The libraries the backend calls, as it is configured to. -/
structure Runtime where
  evm : Evm
  rules : FeeRules
  keccak256 : List UInt8 → B256
  isArbitrum : UInt64 → Bool
  /-- `validate_pool_transaction_for`. -/
  validate : TransactionValidator
  /-- `EMPTY_ROOT_HASH`. -/
  emptyRootHash : B256
  /-- The blob fees of `BlockEnv::default`. -/
  defaultBlob : Option BlobExcessGasAndPrice
  /-- Whether `DateTime::from_timestamp` can represent the timestamp. -/
  isDateTime : UInt64 → Bool

structure PruneStateHistoryConfig where
  enabled : Bool
  maxMemoryHistory : Option Nat
  deriving Repr, DecidableEq

/-- Whether writing state history is supported. -/
def PruneStateHistoryConfig.isStateHistorySupported (c : PruneStateHistoryConfig) : Bool :=
  !c.enabled || c.maxMemoryHistory.isSome

/-- The errors of the requests below. -/
inductive BlockchainError
  | blockNotFound
  | dataUnavailable
  | database (err : DatabaseError)
  | invalidParams (message : String)
  | internalError (message : String)
  deriving Repr, DecidableEq

/-- Gives access to the chain and its state. -/
structure Backend where
  db : MemDb
  blockchain : BlockchainStorage
  states : InMemoryBlockStates
  env : EvmEnv
  time : TimeManager
  fees : FeeManager
  /-- The block each active snapshot was taken at. -/
  activeStateSnapshots : HashMap U256 (UInt64 × B256)
  pruneStateHistoryConfig : PruneStateHistoryConfig
  /-- Max number of blocks with transactions in memory, a `usize`. -/
  transactionBlockKeeper : Option UInt64

structure MinedBlockOutcome where
  blockNumber : UInt64
  included : List PoolTransaction
  invalid : List PoolTransaction

namespace Backend

def bestNumber (b : Backend) : UInt64 := b.blockchain.bestNumber
def bestHash (b : Backend) : B256 := b.blockchain.bestHash

def isEip3675 (b : Backend) : Bool := b.env.cfgEnv.spec.isEnabledIn .merge

/-! ### Genesis -/

/-- The settings a chain is started with. -/
structure Genesis where
  timestamp : UInt64
  number : UInt64
  /-- The database with the accounts of the genesis settings written to it. -/
  db : CacheDb
  env : EvmEnv
  fees : FeeManager
  pruneStateHistoryConfig : PruneStateHistoryConfig
  maxPersistedStates : Option Nat
  transactionBlockKeeper : Option UInt64
  /-- In seconds. -/
  automineBlockTime : Option UInt64

/-- The genesis block. -/
def genesisBlock (rt : Runtime) (g : Genesis) : Block :=
  createBlock rt.evm
    { parentHash := 0
      beneficiary := g.env.blockEnv.beneficiary
      stateRoot := rt.emptyRootHash
      transactionsRoot := rt.emptyRootHash
      receiptsRoot := rt.emptyRootHash
      logsBloom := 0
      difficulty := g.env.blockEnv.difficulty
      number := g.number
      gasLimit := g.env.blockEnv.gasLimit
      gasUsed := 0
      timestamp := g.timestamp
      mixHash := 0
      baseFeePerGas := if g.fees.isEip1559 then some g.fees.baseFee else none
      blobGasUsed := g.env.blockEnv.blobExcessGasAndPrice.map fun _ => 0
      excessBlobGas := g.env.blockEnv.blobExcessGas }
    []

/-- The store for past states, as configured. -/
def genesisStates (ord : DbOrder) (g : Genesis) : Option InMemoryBlockStates :=
  let states :=
    if g.pruneStateHistoryConfig.enabled then
      (match g.pruneStateHistoryConfig.maxMemoryHistory with
        | some limit => InMemoryBlockStates.new limit 0
        | none => .default).memoryOnly
    else match g.maxPersistedStates with
      | some limit => .new defaultHistoryLimit limit
      | none => .default
  match g.automineBlockTime with
  | some blockTime => states.updateIntervalMineBlockTime ord blockTime
  | none => some states

/-- A backend that has the genesis block only. -/
def withGenesis (rt : Runtime) (ord : DbOrder) (now : UInt64) (g : Genesis) : Option Backend :=
  (genesisStates ord g).map fun states =>
    let blockchain := BlockchainStorage.ofGenesis rt.evm.hashSlow (genesisBlock rt g) g.number
    { db := MemDb.insertBlockHash { MemDb.new with inner := g.db }
        (Word.ofU64 256 blockchain.bestNumber) blockchain.bestHash
      blockchain := blockchain
      states := states
      env := { g.env with
        blockEnv := { g.env.blockEnv with number := Word.ofU64 256 g.number } }
      time := TimeManager.new now g.timestamp
      fees := g.fees
      activeStateSnapshots := ∅
      pruneStateHistoryConfig := g.pruneStateHistoryConfig
      transactionBlockKeeper := g.transactionBlockKeeper }

/-! ### Mining -/

/-- The environment of the next block, up to its timestamp. -/
def nextEnv (rt : Runtime) (b : Backend) (blockNumber : UInt64) : EvmEnv :=
  let env := b.env
  { cfgEnv := if env.blockEnv.basefee = 0 then { env.cfgEnv with disableBaseFee := true }
      else env.cfgEnv
    blockEnv := { env.blockEnv with
      number := if rt.isArbitrum env.cfgEnv.chainId then Word.ofU64 256 blockNumber
        else Word.saturatingAdd env.blockEnv.number 1
      basefee := b.fees.baseFee
      blobExcessGasAndPrice := b.fees.excessBlobGasAndPrice
      prevrandao := some
        (rt.keccak256 (beBytes 32 b.bestHash.toNat ++ leBytes 8 blockNumber.toNat)) } }

/-- Stores the state the next block starts from. -/
def recordState (ord : DbOrder) (b : Backend) : Option InMemoryBlockStates :=
  if b.pruneStateHistoryConfig.isStateHistorySupported then
    b.states.insert ord b.bestHash b.db.inner
  else some b.states

end Backend

/-- The mined transactions of a block, by their hash. -/
def BlockchainStorage.insertTransactions (transactions : HashMap B256 MinedTransaction)
    (blockHash : B256) (blockNumber : UInt64) (mined : List (TransactionInfo × Receipt)) :
    HashMap B256 MinedTransaction :=
  mined.foldl
    (fun m (info, receipt) =>
      m.insert info.transactionHash ⟨info, receipt, blockHash, blockNumber⟩)
    transactions

/-- Makes a block the best one and indexes it and its transactions. -/
def BlockchainStorage.insertBlock (s : BlockchainStorage) (isEip3675 : Bool) (blockNumber : UInt64)
    (blockHash : B256) (executed : ExecutedTransactions) : BlockchainStorage :=
  { s with
    bestNumber := blockNumber
    bestHash := blockHash
    totalDifficulty := if isEip3675 then s.totalDifficulty
      else Word.saturatingAdd s.totalDifficulty executed.block.header.difficulty
    blocks := s.blocks.insert blockHash executed.block
    hashes := s.hashes.insert blockNumber blockHash
    transactions := insertTransactions s.transactions blockHash blockNumber
      (executed.transactions.zip executed.receipts) }

/-- Removes old transactions that exceed the transaction block keeper. -/
def BlockchainStorage.keepTransactions (s : BlockchainStorage)
    (transactionBlockKeeper : Option UInt64) (blockNumber : UInt64) : BlockchainStorage :=
  match transactionBlockKeeper with
  | none => s
  | some keeper =>
    if keeper.toNat < s.blocks.keys.card then
      s.removeBlockTransactionsByNumber (U64.saturatingSub blockNumber keeper)
    else s

namespace Backend

/-- The fees of the block after the one with the given header. -/
def nextFees (rt : Runtime) (fees : FeeManager) (spec : SpecId) (header : Header) : FeeManager :=
  let baseFee := fees.getNextBlockBaseFeePerGas rt.rules header.gasUsed header.gasLimit
    (header.baseFeePerGas.getD 0)
  -- the source passes the excess where the used blob gas is expected, and conversely
  let excessBlobGas := fees.getNextBlockBlobExcessGas rt.rules (header.excessBlobGas.getD 0)
    (header.blobGasUsed.getD 0)
  (fees.setBaseFee baseFee).setBlobExcessGasAndPrice
    (rt.rules.blobExcessGasAndPrice excessBlobGas spec)

/-- Runs the transactions of the next block, on top of the best one. -/
def executeBlock (rt : Runtime) (now : UInt64) (b : Backend) (blockNumber : UInt64)
    (poolTransactions : List PoolTransaction) : Option (ExecutedTransactions × CacheDb × EvmEnv) :=
  let env := b.nextEnv rt blockNumber
  let env := { env with
    blockEnv := { env.blockEnv with timestamp := Word.ofU64 256 (b.time.nextTimestamp now).1 } }
  (TransactionExecutor.execute rt.evm rt.rules (rt.keccak256 []) rt.validate env b.bestHash
    b.db.inner poolTransactions).map fun (executed, inner) => (executed, inner, env)

/-- Mines a new block and stores it. `none` where the source panics, or loops
in the store of past states. -/
def doMineBlock (rt : Runtime) (ord : DbOrder) (now : UInt64) (b : Backend)
    (poolTransactions : List PoolTransaction) : Option (MinedBlockOutcome × Backend) := do
  let blockNumber := U64.saturatingAdd b.bestNumber 1
  let states ← b.recordState ord
  let (executed, inner, env) ← b.executeBlock rt now blockNumber poolTransactions
  let header := executed.block.header
  let blockHash := rt.evm.hashSlow header
  let blockchain := (b.blockchain.insertBlock b.isEip3675 blockNumber blockHash executed)
    |>.keepTransactions b.transactionBlockKeeper blockNumber
  if rt.isDateTime header.timestamp then
    some (⟨blockNumber, executed.included, executed.invalid⟩,
      { b with
        db := MemDb.insertBlockHash { b.db with inner := inner } (Word.ofU64 256 header.number)
          blockHash
        blockchain := blockchain
        states := states
        env := { env with blockEnv := { env.blockEnv with difficulty := 0 } }
        time := (b.time.nextTimestamp now).2
        fees := nextFees rt b.fees env.cfgEnv.spec header })
  else none

/-! ### Snapshots -/

/-- Creates a new snapshot at the current height. -/
def createStateSnapshot (b : Backend) : U256 × Backend :=
  let (id, db) := b.db.snapshotState
  (id, { b with
    db := db
    activeStateSnapshots := b.activeStateSnapshots.insert id (b.bestNumber, b.bestHash) })

/-- `block_by_hash`, with no fork to ask. -/
def blockByHash (b : Backend) (hash : B256) : Option Block := b.blockchain.blocks.lookup hash

/-- The block environment after going back to a block. -/
def revertEnv (rt : Runtime) (env : BlockEnv) (num : UInt64) (header : Header) : BlockEnv where
  number := Word.ofU64 256 num
  timestamp := Word.ofU64 256 header.timestamp
  difficulty := header.difficulty
  prevrandao := some header.mixHash
  gasLimit := header.gasLimit
  beneficiary := env.beneficiary
  basefee := env.basefee
  blobExcessGasAndPrice := rt.defaultBlob

/-- The last step of `revert_state_snapshot`. -/
def revertDb (b : Backend) (id : U256) : Except BlockchainError Bool × Backend :=
  let (reverted, db) := b.db.revertState id .revertRemove
  (.ok reverted, { b with db := db })

/-- Reverts the state to the snapshot identified by the given `id`. -/
def revertStateSnapshot (rt : Runtime) (now : UInt64) (b : Backend) (id : U256) :
    Except BlockchainError Bool × Backend :=
  let block := b.activeStateSnapshots.lookup id
  let b := { b with activeStateSnapshots := b.activeStateSnapshots.erase id }
  match block with
  | none => b.revertDb id
  | some (num, hash) =>
    let b := { b with blockchain := b.blockchain.revertTo num hash }
    match b.blockByHash hash with
    | none => (.error .blockNotFound, b)
    | some block =>
      let b := { b with
        time := b.time.reset now block.header.timestamp
        env := { b.env with blockEnv := revertEnv rt b.env.blockEnv num block.header } }
      b.revertDb id

/-! ### Rollback -/

/-- Writes the storage of one account. -/
def writeStorage (api : CacheDbApi) (address : Address) (db : MemDb) :
    List (U256 × U256) → Except DatabaseError Unit × MemDb
  | [] => (.ok (), db)
  | (key, value) :: rest =>
    match db.setStorageAt api address key value with
    | (.error err, db) => (.error err, db)
    | (.ok _, db) => writeStorage api address db rest

/-- Writes accounts, each after its storage. -/
def writeAccounts (api : CacheDbApi) (ord : DbOrder) (db : MemDb) :
    List (Address × DbAccount) → Except DatabaseError Unit × MemDb
  | [] => (.ok (), db)
  | (address, acc) :: rest =>
    match writeStorage api address db (CacheDb.entries ord.slots acc.storage) with
    | (.error err, db) => (.error err, db)
    | (.ok _, db) => writeAccounts api ord (db.insertAccount api address acc.info) rest

/-- The part of `rollback` that follows once the common state is known. -/
def rollbackTo (rt : Runtime) (ord : DbOrder) (now : UInt64) (b : Backend) (commonBlock : Block)
    (commonState : HashMap Address DbAccount) : Except BlockchainError Unit × Backend :=
  let header := commonBlock.header
  match writeAccounts rt.evm.toCacheDbApi ord (b.db.clear ord)
    (CacheDb.entries ord.addresses commonState) with
  | (.error err, db) => (.error (.database err), { b with db := db })
  | (.ok _, db) =>
    let timestamp := Word.ofU64 256 header.timestamp
    (.ok (), { b with
      db := db
      blockchain := b.blockchain.unwindTo header.number (rt.evm.hashSlow header)
      env := { b.env with blockEnv := { b.env.blockEnv with
        number := Word.ofU64 256 header.number
        timestamp := timestamp
        gasLimit := header.gasLimit
        difficulty := header.difficulty
        prevrandao := some header.mixHash } }
      time := b.time.reset now (Word.saturatingToU64 timestamp) })

/-- Rollback the chain to a common block. -/
def rollback (rt : Runtime) (ord : DbOrder) (readable : Bool) (now : UInt64) (b : Backend)
    (commonBlock : Block) : Except BlockchainError Unit × Backend :=
  let hash := rt.evm.hashSlow commonBlock.header
  match b.states.getState hash with
  | some db => b.rollbackTo rt ord now commonBlock db.accounts
  | none =>
    let (db, states) := b.states.getOnDiskState ord readable hash
    let b := { b with states := states }
    match db with
    | none => (.error .dataUnavailable, b)
    | some db => b.rollbackTo rt ord now commonBlock db.accounts

/-- `get_block`, by number. -/
def getBlock (b : Backend) (number : UInt64) : Option Block := do
  let hash ← b.blockchain.hashes.lookup number
  b.blockchain.blocks.lookup hash

/-- Rollback the chain by a number of blocks (`eth/api.rs`). -/
def anvilRollback (rt : Runtime) (ord : DbOrder) (readable : Bool) (now : UInt64) (b : Backend)
    (depth : Option UInt64) : Except BlockchainError Unit × Backend :=
  let depth := depth.getD 1
  let currentHeight := b.bestNumber
  match U64.checkedSub currentHeight depth with
  | none =>
    (.error (.invalidParams ("Rollback depth must not exceed current chain height: " ++
      s!"current height {currentHeight}, depth {depth}")), b)
  | some commonHeight =>
    match b.getBlock commonHeight with
    | none => (.error .blockNotFound, b)
    | some commonBlock => b.rollback rt ord readable now commonBlock

/-! ### Reorg -/

/-- What the mining of a block meets outside the backend. -/
structure MiningContext where
  ord : DbOrder
  now : UInt64

/-- The loop of `reorg`: mines the blocks with the given indexes. -/
def mineReorg (rt : Runtime) (context : UInt64 → MiningContext)
    (txPairs : HashMap UInt64 (List PoolTransaction)) (b : Backend) :
    List UInt64 → Option Backend
  | [] => some b
  | i :: rest => do
      let toBeMined := (txPairs.lookup i).getD []
      let (_, b) ← b.doMineBlock rt (context i).ord (context i).now toBeMined
      mineReorg rt context txPairs b rest

/-- Reorg the chain to a common block and mine a new chain on top of it. -/
def reorg (rt : Runtime) (ord : DbOrder) (readable : Bool) (now : UInt64)
    (context : UInt64 → MiningContext) (b : Backend) (depth : UInt64)
    (txPairs : HashMap UInt64 (List PoolTransaction)) (commonBlock : Block) :
    Option (Except BlockchainError Unit × Backend) :=
  match b.rollback rt ord readable now commonBlock with
  | (.error err, b) => some (.error err, b)
  | (.ok _, b) =>
    (b.mineReorg rt context txPairs ((List.range depth.toNat).map UInt64.ofNat)).map
      fun b => (.ok (), b)

/-- Reorg the chain to a specific depth (`eth/api.rs`). The transactions supplied
have been made pool transactions, by the index of their block, or the request fails
with an error of theirs. -/
def anvilReorg (rt : Runtime) (ord : DbOrder) (readable : Bool) (now : UInt64)
    (context : UInt64 → MiningContext) (b : Backend) (depth : UInt64)
    (blockPoolTxs : Except BlockchainError (HashMap UInt64 (List PoolTransaction))) :
    Option (Except BlockchainError Unit × Backend) :=
  let currentHeight := b.bestNumber
  match U64.checkedSub currentHeight depth with
  | none =>
    some (.error (.invalidParams ("Reorg depth must not exceed current chain height: " ++
      s!"current height {currentHeight}, depth {depth}")), b)
  | some commonHeight =>
    match b.getBlock commonHeight with
    | none => some (.error .blockNotFound, b)
    | some commonBlock =>
      match blockPoolTxs with
      | .error err => some (.error err, b)
      | .ok txPairs => b.reorg rt ord readable now context depth txPairs commonBlock

end Backend

/-! ### Runs -/

/-- A request, with what it meets outside the backend. -/
inductive BackendOp
  | mine (ord : DbOrder) (now : UInt64) (poolTransactions : List PoolTransaction)
  | snapshot
  | revert (now : UInt64) (id : U256)
  | rollback (ord : DbOrder) (readable : Bool) (now : UInt64) (depth : Option UInt64)

/-- The backend after a request, if it returns. -/
def Backend.exec (rt : Runtime) (b : Backend) : BackendOp → Option Backend
  | .mine ord now poolTransactions => (b.doMineBlock rt ord now poolTransactions).map (·.2)
  | .snapshot => some b.createStateSnapshot.2
  | .revert now id => some (b.revertStateSnapshot rt now id).2
  | .rollback ord readable now depth => some (b.anvilRollback rt ord readable now depth).2

def BackendStep (rt : Runtime) (b : Backend) (op : BackendOp) (b' : Backend) : Prop :=
  b.exec rt op = some b'

/-- A request that goes forward, back or both, without snapshots. -/
inductive ChainOp
  | mine (ord : DbOrder) (now : UInt64) (poolTransactions : List PoolTransaction)
  | rollback (ord : DbOrder) (readable : Bool) (now : UInt64) (depth : Option UInt64)
  | reorg (ord : DbOrder) (readable : Bool) (now : UInt64)
      (context : UInt64 → Backend.MiningContext) (depth : UInt64)
      (blockPoolTxs : Except BlockchainError (HashMap UInt64 (List PoolTransaction)))

/-- The backend after such a request, if it returns. -/
def Backend.execChain (rt : Runtime) (b : Backend) : ChainOp → Option Backend
  | .mine ord now poolTransactions => b.exec rt (.mine ord now poolTransactions)
  | .rollback ord readable now depth => b.exec rt (.rollback ord readable now depth)
  | .reorg ord readable now context depth blockPoolTxs =>
    (b.anvilReorg rt ord readable now context depth blockPoolTxs).map (·.2)

def ChainStep (rt : Runtime) (b : Backend) (op : ChainOp) (b' : Backend) : Prop :=
  b.execChain rt op = some b'

/-- `b` is reached from a genesis block by the given requests. -/
def BackendRun (rt : Runtime) (ops : List BackendOp) (b : Backend) : Prop :=
  ∃ ord now g b₀, Backend.withGenesis rt ord now g = some b₀ ∧ Run (BackendStep rt) b₀ ops b

end BaseAnvil.Chain

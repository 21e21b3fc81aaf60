import BaseAnvil.Chain.Backend
import BaseAnvil.Chain.CacheDb

/-!
# BaseAnvil.Chain.Dump

Dumping the chain with its state, and loading a dump (`serialized_state` and `load_state` of
`eth/backend/mem/mod.rs`, with `eth/backend/db.rs`, `mem/in_memory_db.rs` and `mem/storage.rs`).

A dump is the value that is written to and read from JSON. Its blocks and transactions
have the fields of those stored; the accounts have their code in place of its hash.
-/

namespace BaseAnvil.Chain

open Lib
open Pool (B256 Address)

/-- The libraries, with those that dumping and loading call besides. -/
structure StateRuntime extends Runtime where
  /-- The database, read as a `DatabaseRef`. -/
  asRef : CacheDb → DatabaseRef
  /-- `CacheDB::new`. -/
  newDb : CacheDb
  /-- `BlobExcessGasAndPrice::new` with the update fraction of the hardfork that is
  active on the chain at the timestamp. -/
  blobExcessGasAndPriceAt : (excessBlobGas chainId timestamp : UInt64) → BlobExcessGasAndPrice

/-- The hash of the empty code. -/
def Runtime.keccakEmpty (rt : Runtime) : B256 := rt.keccak256 []

structure SerializableAccountRecord where
  nonce : UInt64
  balance : U256
  code : Bytecode
  storage : HashMap U256 U256
  deriving DecidableEq

structure SerializableState where
  /-- The block environment of the state. -/
  block : Option BlockEnv
  accounts : HashMap Address SerializableAccountRecord
  /-- The best block number of the state. -/
  bestBlockNumber : Option UInt64
  blocks : List Block
  transactions : List MinedTransaction
  /-- Historical states of accounts and storage at particular block hashes. -/
  historicalStates : Option (List (B256 × StateSnapshot))
  deriving DecidableEq

/-- The order in which the maps of a backend are walked. -/
structure DumpOrder extends DbOrder where
  hashes : IterOrder B256

/-! ### The database -/

namespace MemDb

/-- The record of one account. Code that is not in place is looked up by its hash. -/
def dumpAccount (asRef : CacheDb → DatabaseRef) (db : MemDb) (acc : DbAccount) :
    Except DatabaseError SerializableAccountRecord := do
  let code ← match acc.info.code with
    | some code => pure code
    | none => (asRef db.inner).codeByHashRef acc.info.codeHash
  pure ⟨acc.info.nonce, acc.info.balance, code, acc.storage⟩

def dumpAccounts (asRef : CacheDb → DatabaseRef) (db : MemDb)
    (accounts : List (Address × DbAccount)) :
    Except DatabaseError (HashMap Address SerializableAccountRecord) := do
  let records ← accounts.mapM fun (address, acc) => do
    let record ← db.dumpAccount asRef acc
    pure (address, record)
  pure (HashMap.insertAll ∅ records)

/-- All chain data with the accounts, if this kind of database can dump them. -/
def dumpState (asRef : CacheDb → DatabaseRef) (ord : DbOrder) (db : MemDb) (blockEnv : BlockEnv)
    (bestNumber : UInt64) (blocks : List Block) (transactions : List MinedTransaction)
    (historicalStates : Option (List (B256 × StateSnapshot))) :
    Except DatabaseError (Option SerializableState) := do
  let accounts ← db.dumpAccounts asRef (CacheDb.entries ord.addresses db.inner.accounts)
  pure (some ⟨some blockEnv, accounts, some bestNumber, blocks, transactions, historicalStates⟩)

/-- The info that an account of a dump gets. If the account is there already, the larger
nonce stays; the hash of the code is set on insertion. -/
def loadedInfo (rt : StateRuntime) (db : MemDb) (address : Address)
    (account : SerializableAccountRecord) : AccountInfo :=
  let oldAccountNonce := match (rt.asRef db.inner).basicRef address with
    | .ok (some acc) => acc.nonce
    | _ => 0
  { balance := account.balance
    nonce := max oldAccountNonce account.nonce
    codeHash := rt.keccakEmpty
    code := if account.code = [] then none else some account.code }

/-- Adds one account with its storage. -/
def loadAccount (rt : StateRuntime) (db : MemDb) (address : Address)
    (account : SerializableAccountRecord) : Except DatabaseError Unit × MemDb :=
  Backend.writeStorage rt.evm.toCacheDbApi address
    (db.insertAccount rt.evm.toCacheDbApi address (db.loadedInfo rt address account))
    (CacheDb.entries ascendingDbOrder.slots account.storage)

def loadAccounts (rt : StateRuntime) (db : MemDb) :
    List (Address × SerializableAccountRecord) → Except DatabaseError Bool × MemDb
  | [] => (.ok true, db)
  | (address, account) :: rest =>
    match db.loadAccount rt address account with
    | (.error err, db) => (.error err, db)
    | (.ok _, db) => loadAccounts rt db rest

/-- `Db::load_state`: adds all accounts of a dump. -/
def loadState (rt : StateRuntime) (db : MemDb) (state : SerializableState) :
    Except DatabaseError Bool × MemDb :=
  db.loadAccounts rt (CacheDb.entries ascendingDbOrder.addresses state.accounts)

end MemDb

/-! ### The chain -/

namespace BlockchainStorage

def serializedBlocks (ord : DumpOrder) (s : BlockchainStorage) : List Block :=
  (CacheDb.entries ord.hashes s.blocks).map (·.2)

def serializedTransactions (ord : DumpOrder) (s : BlockchainStorage) : List MinedTransaction :=
  (CacheDb.entries ord.hashes s.transactions).map (·.2)

/-- Adds one block, under the hash and the number of its header. -/
def loadBlock (hashSlow : Header → B256) (s : BlockchainStorage) (block : Block) :
    BlockchainStorage :=
  let blockHash := hashSlow block.header
  { s with
    blocks := s.blocks.insert blockHash block
    hashes := s.hashes.insert block.header.number blockHash }

def loadBlocks (hashSlow : Header → B256) (s : BlockchainStorage) (blocks : List Block) :
    BlockchainStorage :=
  blocks.foldl (loadBlock hashSlow) s

def loadTransactions (s : BlockchainStorage) (transactions : List MinedTransaction) :
    BlockchainStorage :=
  { s with
    transactions := transactions.foldl
      (fun m transaction => m.insert transaction.info.transactionHash transaction) s.transactions }

end BlockchainStorage

/-! ### States at past blocks -/

/-- The state as it is in the cache, with every code found in its table. -/
def CacheDb.readAsStateSnapshot (ord : DbOrder) (db : CacheDb) : StateSnapshot :=
  let snapshot := (entries ord.addresses db.accounts).foldl
    (fun (snapshot : StateSnapshot) (addr, acc) =>
      { snapshot with
        storage := snapshot.storage.insert addr acc.storage
        accounts := snapshot.accounts.insert addr
          { acc.info with code := db.contracts.lookup acc.info.codeHash } })
    ⟨∅, ∅, ∅⟩
  { snapshot with blockHashes := db.blockHashes }

namespace InMemoryBlockStates

/-- All states, those in memory before those on disk. A file that cannot be read at this
time is left out. -/
def serializedStates (ord : DumpOrder) (readable : B256 → Bool) (s : InMemoryBlockStates) :
    List (B256 × StateSnapshot) :=
  (CacheDb.entries ord.hashes s.states).map
      (fun (hash, state) => (hash, state.readAsStateSnapshot ord.toDbOrder)) ++
    (CacheDb.entries ord.hashes s.onDiskStates).filterMap fun (hash, _) =>
      if readable hash then (s.diskCache.lookup hash).map fun cached => (hash, cached) else none

/-- Inserts the states of a dump, each in a database of its own. -/
def loadStates (ord : DbOrder) (newDb : CacheDb) (s : InMemoryBlockStates) :
    List (B256 × StateSnapshot) → Option InMemoryBlockStates
  | [] => some s
  | (hash, stateSnapshot) :: rest => do
      let stateDb := newDb.initFromStateSnapshot ord stateSnapshot
      let s ← s.insert ord hash stateDb
      loadStates ord newDb s rest

end InMemoryBlockStates

/-! ### The backend -/

namespace Backend

/-- Get the current state. -/
def serializedState (rt : StateRuntime) (ord : DumpOrder) (readable : B256 → Bool) (b : Backend)
    (preserveHistoricalStates : Bool) : Except BlockchainError SerializableState :=
  let historicalStates :=
    if preserveHistoricalStates then some (b.states.serializedStates ord readable) else none
  match b.db.dumpState rt.asRef ord.toDbOrder b.env.blockEnv b.bestNumber
    (b.blockchain.serializedBlocks ord) (b.blockchain.serializedTransactions ord)
    historicalStates with
  | .error err => .error (.database err)
  | .ok none =>
    .error (.invalidParams "Dumping state not supported with the current configuration")
  | .ok (some state) => .ok state

/-- The part of `load_state` that sets the best block to that of the dump. -/
def loadBest (b : Backend) (state : SerializableState) : Except BlockchainError Unit × Backend :=
  match state.block with
  | none => (.ok (), b)
  | some block =>
    let bestNumber := state.bestBlockNumber.getD (Word.saturatingToU64 block.number)
    let b := { b with
      env := { b.env with blockEnv := block }
      blockchain := { b.blockchain with bestNumber := bestNumber } }
    match b.blockchain.hashes.lookup bestNumber with
    | none => (.error (.internalError s!"Best hash not found for best number {bestNumber}"), b)
    | some bestHash => (.ok (), { b with blockchain := { b.blockchain with bestHash := bestHash } })

/-- The block with the highest number, the last of several. -/
def latestBlock (blocks : List Block) : Option Block :=
  blocks.foldl
    (fun latest block => match latest with
      | none => some block
      | some other => if other.header.number ≤ block.header.number then some block else some other)
    none

/-- The part of `load_state` that sets the fees of the next block. -/
def loadFees (rt : StateRuntime) (b : Backend) (state : SerializableState) : FeeManager :=
  match latestBlock state.blocks with
  | none => b.fees
  | some latest =>
    let header := latest.header
    let baseFee := b.fees.getNextBlockBaseFeePerGas rt.rules header.gasUsed header.gasLimit
      (header.baseFeePerGas.getD 0)
    -- as when mining, the excess is passed where the used blob gas is expected
    let excessBlobGas := b.fees.getNextBlockBlobExcessGas rt.rules (header.excessBlobGas.getD 0)
      (header.blobGasUsed.getD 0)
    (b.fees.setBaseFee baseFee).setBlobExcessGasAndPrice
      (rt.blobExcessGasAndPriceAt excessBlobGas b.env.cfgEnv.chainId header.timestamp)

/-- The part of `load_state` that adds the accounts and the past states. `none` where the
store of past states loops. -/
def loadAccounts (rt : StateRuntime) (ord : DbOrder) (b : Backend) (state : SerializableState) :
    Option (Except BlockchainError Bool × Backend) :=
  match b.db.loadState rt state with
  | (.error err, db) => some (.error (.database err), { b with db := db })
  | (.ok false, db) =>
    some (.error (.invalidParams "Loading state not supported with the current configuration"),
      { b with db := db })
  | (.ok true, db) =>
    let b := { b with db := db }
    match state.historicalStates with
    | none => some (.ok true, b)
    | some historicalStates =>
      (b.states.loadStates ord rt.newDb historicalStates).map fun states =>
        (.ok true, { b with states := states })

/-- Apply a dump to the backend. -/
def loadState (rt : StateRuntime) (ord : DbOrder) (b : Backend) (state : SerializableState) :
    Option (Except BlockchainError Bool × Backend) :=
  let b := { b with
    blockchain := (b.blockchain.loadBlocks rt.evm.hashSlow state.blocks).loadTransactions
      state.transactions }
  match b.loadBest state with
  | (.error err, b) => some (.error err, b)
  | (.ok _, b) => loadAccounts rt ord { b with fees := b.loadFees rt state } state

end Backend

/-! ### Runs -/

/-- A request to the backend, or a dump to load. -/
inductive StateOp
  | request (op : BackendOp)
  | load (ord : DbOrder) (state : SerializableState)

/-- The backend after such a request, if it returns. -/
def Backend.execState (rt : StateRuntime) (b : Backend) : StateOp → Option Backend
  | .request op => b.exec rt.toRuntime op
  | .load ord state => (b.loadState rt ord state).map (·.2)

def StateStep (rt : StateRuntime) (b : Backend) (op : StateOp) (b' : Backend) : Prop :=
  b.execState rt op = some b'

end BaseAnvil.Chain

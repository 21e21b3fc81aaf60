import BaseAnvil.Chain.Env

/-!
# BaseAnvil.Chain.Storage

In-memory blockchain storage (`eth/backend/mem/storage.rs`): the chain's blocks
and transactions, and the states at past blocks.

Rewinding the chain is a loop over heights, written twice in the source: once in
`unwind_to`, ascending, and once in `revert_state_snapshot`, descending. Both do
the same to the four indexes, which `Unwound` says lookup by lookup.
-/

namespace BaseAnvil.Chain

open Lib
open Pool (B256 Address TxHash PendingTransaction)

/-! ### Blocks and mined transactions -/

abbrev Bloom := BitVec 2048

structure Header where
  parentHash : B256
  beneficiary : Address
  stateRoot : B256
  transactionsRoot : B256
  receiptsRoot : B256
  logsBloom : Bloom
  difficulty : U256
  number : UInt64
  gasLimit : UInt64
  gasUsed : UInt64
  timestamp : UInt64
  mixHash : B256
  baseFeePerGas : Option UInt64
  blobGasUsed : Option UInt64
  excessBlobGas : Option UInt64
  deriving Repr, DecidableEq

/-- A block; of its body, the transactions. -/
structure Block where
  header : Header
  transactions : List PendingTransaction
  deriving Repr, DecidableEq

/-- The hashes of the transactions in the body. -/
def Block.txHashes (block : Block) : List TxHash := block.transactions.map (·.hash)

structure Log where
  address : Address
  topics : List B256
  data : List UInt8
  deriving Repr, DecidableEq

/-- The type a transaction and its receipt are tagged with. -/
inductive TxType
  | legacy
  | eip2930
  | eip1559
  | eip4844
  | eip7702
  | deposit
  | tempo
  deriving Repr, DecidableEq

structure Receipt where
  txType : TxType
  status : Bool
  cumulativeGasUsed : UInt64
  logs : List Log
  deriving Repr, DecidableEq

/-- How an execution ended: the three successful ways, and the others as far as
they are told apart. -/
inductive InstructionResult
  | stop
  | return
  | selfDestruct
  | revert
  | outOfGas
  | other (code : UInt8)
  deriving Repr, DecidableEq

/-- What is kept about an executed transaction. -/
structure TransactionInfo where
  transactionHash : TxHash
  transactionIndex : UInt64
  sender : Address
  toAddress : Option Address
  contractAddress : Option Address
  exit : InstructionResult
  out : Option (List UInt8)
  nonce : UInt64
  gasUsed : UInt64
  deriving Repr, DecidableEq

/-- Container type for a mined transaction. -/
structure MinedTransaction where
  info : TransactionInfo
  receipt : Receipt
  blockHash : B256
  blockNumber : UInt64
  deriving Repr, DecidableEq

/-! ### States at past blocks -/

def defaultHistoryLimit : Nat := 500
def minHistoryLimit : Nat := 10
def maxOnDiskHistoryLimit : Nat := 3600

/-- The states at past blocks, the most recent in memory and older ones on disk. -/
structure InMemoryBlockStates where
  states : HashMap B256 CacheDb
  onDiskStates : HashMap B256 CacheDb
  inMemoryLimit : Nat
  minInMemoryLimit : Nat
  maxOnDiskLimit : Nat
  oldestOnDisk : List B256
  present : List B256
  /-- The files written. -/
  diskCache : HashMap B256 StateSnapshot

namespace InMemoryBlockStates

def new (inMemoryLimit onDiskLimit : Nat) : InMemoryBlockStates where
  states := ∅
  onDiskStates := ∅
  inMemoryLimit := inMemoryLimit
  minInMemoryLimit := min inMemoryLimit minHistoryLimit
  maxOnDiskLimit := onDiskLimit
  oldestOnDisk := []
  present := []
  diskCache := ∅

def memoryOnly (s : InMemoryBlockStates) : InMemoryBlockStates := { s with maxOnDiskLimit := 0 }

/-- `InMemoryBlockStates::default`. -/
def default : InMemoryBlockStates := new defaultHistoryLimit maxOnDiskHistoryLimit

def isMemoryOnly (s : InMemoryBlockStates) : Bool := s.maxOnDiskLimit = 0

/-- The first loop of `enforce_limits`: moves the oldest states to disk. With
nothing left to move and a limit of zero it does not end. -/
def enforceMemoryLimit (ord : DbOrder) (s : InMemoryBlockStates) : Option InMemoryBlockStates :=
  if s.inMemoryLimit ≤ s.present.length then
    match _h : s.present with
    | [] => none
    | hash :: rest =>
      match s.states.lookup hash with
      | none => enforceMemoryLimit ord { s with present := rest }
      | some state =>
        let s := { s with present := rest, states := s.states.erase hash }
        if s.isMemoryOnly then enforceMemoryLimit ord s
        else
          let (stateSnapshot, state) := state.clearIntoStateSnapshot ord
          enforceMemoryLimit ord
            { s with
              diskCache := s.diskCache.insert hash stateSnapshot
              onDiskStates := s.onDiskStates.insert hash state
              oldestOnDisk := s.oldestOnDisk ++ [hash] }
  else some s
  termination_by s.present.length
  decreasing_by all_goals simp_all

/-- The second loop of `enforce_limits`: purges the oldest states on disk. -/
def enforceDiskLimit (s : InMemoryBlockStates) : InMemoryBlockStates :=
  if !s.isMemoryOnly && s.maxOnDiskLimit ≤ s.oldestOnDisk.length then
    match _h : s.oldestOnDisk with
    -- not reached: the limit is not zero
    | [] => s
    | hash :: rest =>
      enforceDiskLimit
        { s with
          oldestOnDisk := rest
          onDiskStates := s.onDiskStates.erase hash
          diskCache := s.diskCache.erase hash }
  else s
  termination_by s.oldestOnDisk.length
  decreasing_by simp_all

def enforceLimits (ord : DbOrder) (s : InMemoryBlockStates) : Option InMemoryBlockStates :=
  (s.enforceMemoryLimit ord).map enforceDiskLimit

/-- With block times of at most two seconds more states are kept in memory. -/
def updateIntervalMineBlockTime (ord : DbOrder) (s : InMemoryBlockStates) (blockTime : UInt64) :
    Option InMemoryBlockStates :=
  if blockTime ≤ 2 then
    enforceLimits ord { s with inMemoryLimit := defaultHistoryLimit * 3 }
  else some s

/-- Inserts a new (hash → state) pair. -/
def insert (ord : DbOrder) (s : InMemoryBlockStates) (hash : B256) (state : CacheDb) :
    Option InMemoryBlockStates :=
  let s :=
    if !s.isMemoryOnly && s.inMemoryLimit ≤ s.present.length then
      { s with inMemoryLimit := max (s.inMemoryLimit - 1) s.minInMemoryLimit }
    else s
  (s.enforceLimits ord).map fun s =>
    { s with states := s.states.insert hash state, present := s.present ++ [hash] }

def getState (s : InMemoryBlockStates) (hash : B256) : Option CacheDb := s.states.lookup hash

/-- The state on disk, read back in place. `readable` tells whether the file, if
there is one, can be read at this time. -/
def getOnDiskState (ord : DbOrder) (readable : Bool) (s : InMemoryBlockStates) (hash : B256) :
    Option CacheDb × InMemoryBlockStates :=
  match s.onDiskStates.lookup hash, (if readable then s.diskCache.lookup hash else none) with
  | some state, some cached =>
    let state := state.initFromStateSnapshot ord cached
    (some state, { s with onDiskStates := s.onDiskStates.insert hash state })
  | _, _ => (none, s)

/-- Clears all entries. -/
def clear (s : InMemoryBlockStates) : InMemoryBlockStates :=
  { s with
    states := ∅
    onDiskStates := ∅
    present := []
    oldestOnDisk := []
    diskCache := s.oldestOnDisk.foldl (fun files hash => files.erase hash) s.diskCache }

end InMemoryBlockStates

/-! ### The chain -/

/-- Stores the blockchain data (blocks, transactions). -/
structure BlockchainStorage where
  /-- All stored blocks (block hash → block). -/
  blocks : HashMap B256 Block
  /-- Mapping from block number → block hash. -/
  hashes : HashMap UInt64 B256
  bestHash : B256
  bestNumber : UInt64
  genesisHash : B256
  /-- Mapping from the transaction hash to the mined transaction. -/
  transactions : HashMap TxHash MinedTransaction
  totalDifficulty : U256
  deriving DecidableEq

namespace BlockchainStorage

/-- A chain that has the given genesis block only. -/
def ofGenesis (hashSlow : Header → B256) (block : Block) (genesisNumber : UInt64) :
    BlockchainStorage :=
  let genesisHash := hashSlow block.header
  { blocks := Finmap.singleton genesisHash block
    hashes := Finmap.singleton genesisNumber genesisHash
    bestHash := genesisHash
    bestNumber := genesisNumber
    genesisHash := genesisHash
    transactions := ∅
    totalDifficulty := 0 }

/-- Forgets the transactions with the given hashes. -/
def forget (transactions : HashMap TxHash MinedTransaction) (hashes : List TxHash) :
    HashMap TxHash MinedTransaction :=
  hashes.foldl (fun m h => m.erase h) transactions

/-- Removes all stored transactions for the given block hash. -/
def removeBlockTransactions (s : BlockchainStorage) (blockHash : B256) : BlockchainStorage :=
  match s.blocks.lookup blockHash with
  | none => s
  | some block =>
    { s with
      transactions := forget s.transactions block.txHashes
      blocks := s.blocks.insert blockHash { block with transactions := [] } }

/-- Removes all stored transactions for the given block number. -/
def removeBlockTransactionsByNumber (s : BlockchainStorage) (num : UInt64) : BlockchainStorage :=
  match s.hashes.lookup num with
  | none => s
  | some hash => s.removeBlockTransactions hash

/-- The body of the loop in `unwind_to`. -/
def unwindBlock (s : BlockchainStorage) (i : UInt64) : BlockchainStorage :=
  match s.hashes.lookup i with
  | none => s
  | some hash =>
    let s := s.removeBlockTransactionsByNumber i
    { s with blocks := s.blocks.erase hash, hashes := s.hashes.erase i }

/-- Unwind the chain state back to the given block, which stays. -/
def unwindTo (s : BlockchainStorage) (blockNumber : UInt64) (blockHash : B256) :
    BlockchainStorage :=
  let s := (U64.range (blockNumber + 1) s.bestNumber).foldl unwindBlock s
  { s with bestHash := blockHash, bestNumber := blockNumber }

/-- The body of the loop in `revert_state_snapshot`. -/
def revertBlock (s : BlockchainStorage) (n : UInt64) : BlockchainStorage :=
  match s.hashes.lookup n with
  | none => s
  | some hash =>
    let s := { s with hashes := s.hashes.erase n }
    match s.blocks.lookup hash with
    | none => s
    | some block =>
      { s with
        blocks := s.blocks.erase hash
        transactions := forget s.transactions block.txHashes }

/-- The part of `revert_state_snapshot` that goes back to an earlier block. -/
def revertTo (s : BlockchainStorage) (num : UInt64) (hash : B256) : BlockchainStorage :=
  let s := (U64.range (num + 1) s.bestNumber).reverse.foldl revertBlock s
  { s with bestNumber := num, bestHash := hash }

end BlockchainStorage

end BaseAnvil.Chain

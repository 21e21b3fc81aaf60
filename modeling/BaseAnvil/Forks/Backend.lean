import BaseAnvil.Chain.CacheDb
import BaseAnvil.Chain.Storage
import BaseAnvil.Lib.Run

/-!
# BaseAnvil.Forks.Backend

The database of a test, with its forks and snapshots (`evm/core/src/backend/mod.rs`).

A backend reads from the active fork, or from its own in-memory database while no fork
is active. Above either of them lies the journaled state of the EVM, which the EVM hands
to every operation and which it may have changed since the last one. What the handler of
the forks answers (`fork/multi.rs`) is an argument of the operation that asks. The
functions of revm's `CacheDB` are the fields of `CacheDbOps`, together with what revm
documents about them, which is all that is used. Where the source panics, the result is
`none`.
-/

namespace BaseAnvil.Forks

open Lib Chain
open Pool (B256 Address)

/-! ### Databases -/

/-- revm's `CacheDB` over another database, which does not change. -/
structure ForkDb where
  cache : CacheDb
  db : DatabaseRef

/-- The functions of revm's `CacheDB`, and what revm documents about them: they look into
the cache first, and touch the entry of the account in question only. `keccak256` is the
hash that code is stored under if it comes without one. -/
structure CacheDbOps where
  keccak256 : List UInt8 → B256
  new : DatabaseRef → ForkDb
  asRef : ForkDb → DatabaseRef
  loadAccount : ForkDb → Address → Except DatabaseError DbAccount × ForkDb
  basic : ForkDb → Address → Except DatabaseError (Option AccountInfo) × ForkDb
  insertAccountInfo : ForkDb → Address → AccountInfo → ForkDb
  loadAccount_of_some {d a acc} : d.cache.accounts.lookup a = some acc →
    loadAccount d a = (.ok acc, d)
  loadAccount_of_ne {d a address} : a ≠ address →
    (loadAccount d address).2.cache.accounts.lookup a = d.cache.accounts.lookup a
  basic_of_ne {d a address} : a ≠ address →
    (basic d address).2.cache.accounts.lookup a = d.cache.accounts.lookup a
  insertAccountInfo_of_ne {d a address info} : a ≠ address →
    (insertAccountInfo d address info).cache.accounts.lookup a = d.cache.accounts.lookup a
  basicRef_of_some {d a acc} : d.cache.accounts.lookup a = some acc →
    (asRef d).basicRef a = .ok acc.existing
  storageRef_of_slot {d a acc slot value} : d.cache.accounts.lookup a = some acc →
    acc.storage.lookup slot = some value → (asRef d).storageRef a slot = .ok value
  basicRef_insertAccountInfo {d a address info} : a ≠ address →
    (asRef (insertAccountInfo d address info)).basicRef a = (asRef d).basicRef a
  /-- An account that was not in the cache has its slots in the database below, before and
  after. -/
  storageRef_insertAccountInfo {d address info} (a slot) :
    d.cache.accounts.lookup address = none →
      (asRef (insertAccountInfo d address info)).storageRef a slot = (asRef d).storageRef a slot
  /-- Code that comes with the account is stored under the hash of the account, or under its
  own. -/
  codeByHashRef_insertAccountInfo {d address info codeHash} :
    (∀ code, info.code = some code → code ≠ [] →
      codeHash ≠ info.codeHash ∧ codeHash ≠ keccak256 code) →
    (asRef (insertAccountInfo d address info)).codeByHashRef codeHash =
      (asRef d).codeByHashRef codeHash

/-! ### The journaled state -/

structure EvmStorageSlot where
  originalValue : U256
  presentValue : U256
  deriving DecidableEq

/-- A hot account; of its status, whether it was created. -/
structure Account where
  info : AccountInfo
  storage : HashMap U256 EvmStorageSlot
  created : Bool
  deriving DecidableEq

/-- `Account::from(AccountInfo)`. -/
def Account.ofInfo (info : AccountInfo) : Account := ⟨info, ∅, false⟩

/-- The part of `JournaledState` that the backend looks at. -/
structure JournaledState where
  state : HashMap Address Account
  /-- A `usize`. -/
  depth : Nat
  logs : List Log
  deriving DecidableEq

def JournaledState.empty : JournaledState := ⟨∅, 0, []⟩

structure TxEnv where
  caller : Address
  chainId : Option UInt64
  deriving DecidableEq

structure Env where
  evmEnv : EvmEnv
  tx : TxEnv
  deriving DecidableEq

/-- Updates the current environment with that of a fork. -/
def updateCurrentEnvWithForkEnv (current fork : Env) : Env where
  evmEnv := fork.evmEnv
  tx := { current.tx with chainId := fork.tx.chainId }

/-! ### The backend -/

/-- The identifier that the handler has for a fork. -/
structure ForkId where
  id : String
  deriving Repr, DecidableEq

abbrev LocalForkId := U256

abbrev ForkLookupIndex := Nat

structure Fork where
  db : ForkDb
  journaledState : JournaledState

inductive BackendDatabaseSnapshot
  | inMemory (memDb : ForkDb)
  | forked (id : LocalForkId) (forkId : ForkId) (idx : ForkLookupIndex) (fork : Fork)

/-- A state snapshot taken during evm execution. -/
structure BackendStateSnapshot where
  db : BackendDatabaseSnapshot
  journaledState : JournaledState
  env : Env

/-- Keeps the logs that were emitted since the snapshot was taken. -/
def BackendStateSnapshot.merge (s : BackendStateSnapshot) (current : JournaledState) :
    BackendStateSnapshot :=
  { s with journaledState := { s.journaledState with logs := current.logs } }

inductive RevertStateSnapshotAction
  | revertRemove
  | revertKeep
  deriving Repr, DecidableEq

/-- Why an operation fails. -/
inductive ForkError
  | noMatchingFork (id : LocalForkId)
  | noMatchingForkId (id : ForkId)
  | requestedForkDoesNotExist (id : LocalForkId)
  | missingAccount (address : Address)
  | database (err : DatabaseError)
  | handler (message : String)
  deriving Repr, DecidableEq

structure BackendInner where
  issuedLocalForkIds : HashMap LocalForkId ForkId
  createdForks : HashMap ForkId ForkLookupIndex
  forks : List (Option Fork)
  stateSnapshots : StateSnapshots BackendStateSnapshot
  hasStateSnapshotFailure : Bool
  nextForkId : LocalForkId
  persistentAccounts : Finset Address

namespace BackendInner

def ensureForkId (i : BackendInner) (id : LocalForkId) : Except ForkError ForkId :=
  match i.issuedLocalForkIds.lookup id with
  | some forkId => .ok forkId
  | none => .error (.noMatchingFork id)

def ensureForkIndex (i : BackendInner) (id : ForkId) : Except ForkError ForkLookupIndex :=
  match i.createdForks.lookup id with
  | some idx => .ok idx
  | none => .error (.noMatchingForkId id)

def getFork (i : BackendInner) (idx : ForkLookupIndex) : Option Fork := i.forks[idx]?.join

def setFork (i : BackendInner) (idx : ForkLookupIndex) (fork : Fork) : BackendInner :=
  { i with forks := i.forks.set idx (some fork) }

/-- Leaves a gap, so that no fork moves. -/
def takeFork (i : BackendInner) (idx : ForkLookupIndex) : Option (Fork × BackendInner) :=
  (i.getFork idx).map fun fork => (fork, { i with forks := i.forks.set idx none })

/-- Reverts the entire fork database. -/
def revertStateSnapshot (i : BackendInner) (id : LocalForkId) (forkId : ForkId)
    (idx : ForkLookupIndex) (fork : Fork) : BackendInner :=
  { i with
    createdForks := i.createdForks.insert forkId idx
    issuedLocalForkIds := i.issuedLocalForkIds.insert id forkId }.setFork idx fork

/-- Inserts a new fork and issues a new local identifier. -/
def insertNewFork (i : BackendInner) (forkId : ForkId) (db : ForkDb)
    (journaledState : JournaledState) : (LocalForkId × ForkLookupIndex) × BackendInner :=
  let idx := i.forks.length
  let id := i.nextForkId
  ((id, idx),
    { i with
      createdForks := i.createdForks.insert forkId idx
      nextForkId := id + 1
      issuedLocalForkIds := i.issuedLocalForkIds.insert id forkId
      forks := i.forks ++ [some ⟨db, journaledState⟩] })

end BackendInner

structure Backend where
  memDb : ForkDb
  /-- The journaled state that new forks start with. -/
  forkInitJournaledState : JournaledState
  /-- The fork in use, if any. -/
  activeForkIds : Option (LocalForkId × ForkLookupIndex)
  inner : BackendInner

/-- What the backend gets from its environment. -/
structure Host extends CacheDbOps where
  /-- The hash that revm's `EmptyDB` makes up for a block. -/
  emptyBlockHash : UInt64 → B256
  isExistingPrecompile : Address → Bool

def Host.keccakEmpty (host : Host) : B256 := host.keccak256 []

def cheatcodeAddress : Address := 0x7109709ECfa91a80626fF3989D68f67F5b1DD12D

/-- `bytes32("failed")`. -/
def globalFailSlot : U256 := 0x6661696c65640000000000000000000000000000000000000000000000000000

namespace Backend

def activeForkId (b : Backend) : Option LocalForkId := b.activeForkIds.map (·.1)

def isActiveFork (b : Backend) (id : LocalForkId) : Bool := b.activeForkId = some id

/-- The database that is read from. -/
def db (b : Backend) : Option ForkDb :=
  match b.activeForkIds with
  | some (_, idx) => (b.inner.getFork idx).map (·.db)
  | none => some b.memDb

section

variable (host : Host)

/-- `Backend::new`, with what the handler answers if there is a fork from the start. -/
def new (persistentAccounts : Finset Address) (fork : Option (ForkId × DatabaseRef)) : Backend :=
  let b : Backend :=
    { memDb := host.new (.emptyDbWrapper host.keccakEmpty host.emptyBlockHash)
      forkInitJournaledState := .empty
      activeForkIds := none
      inner := ⟨∅, ∅, [], .new, false, 0, persistentAccounts⟩ }
  match fork with
  | none => b
  | some (forkId, db) =>
    let (ids, inner) := b.inner.insertNewFork forkId (host.new db) .empty
    { b with inner := inner, activeForkIds := some ids }

/-! ### Snapshots -/

/-- Creates a snapshot of the currently active database. -/
def createDbSnapshot (b : Backend) : Option BackendDatabaseSnapshot :=
  match b.activeForkIds with
  | some (id, idx) => do
      let fork ← b.inner.getFork idx
      let forkId ← b.inner.issuedLocalForkIds.lookup id
      some (.forked id forkId idx fork)
  | none => some (.inMemory b.memDb)

def snapshotState (b : Backend) (journaledState : JournaledState) (env : Env) :
    Option (U256 × Backend) :=
  b.createDbSnapshot.map fun db =>
    let (id, snapshots) := b.inner.stateSnapshots.insert ⟨db, journaledState, env⟩
    (id, { b with inner := { b.inner with stateSnapshots := snapshots } })

/-- Makes sure the caller is in the journaled state and, if it was not, in the database. -/
def orInsertCaller (caller : Address) (current journaledState : JournaledState) (d : ForkDb) :
    JournaledState × ForkDb :=
  match journaledState.state.lookup caller with
  | some _ => (journaledState, d)
  | none =>
    let callerAccount := match current.state.lookup caller with
      | some acc => acc.info
      | none => .default host.keccakEmpty
    ({ journaledState with
        state := journaledState.state.insert caller (.ofInfo callerAccount) },
      if (d.cache.accounts.lookup caller).isSome then d
      else host.insertAccountInfo d caller callerAccount)

/-- Whether the global failure flag of the tests is set. -/
def failed (current : JournaledState) : Bool :=
  match current.state.lookup cheatcodeAddress with
  | none => false
  | some account => match account.storage.lookup globalFailSlot with
      | none => false
      | some slot => slot.presentValue ≠ 0

/-- Puts back what a snapshot holds. -/
def restore (b : Backend) (current : JournaledState) (env : Env) (snapshot : BackendStateSnapshot) :
    JournaledState × Backend :=
  match snapshot.db with
  | .inMemory memDb => (snapshot.journaledState, { b with memDb := memDb })
  | .forked id forkId idx fork =>
    let (journaledState, db) :=
      orInsertCaller host env.tx.caller current snapshot.journaledState fork.db
    (journaledState,
      { b with
        inner := b.inner.revertStateSnapshot id forkId idx { fork with db := db }
        activeForkIds := some (id, idx) })

def revertState (b : Backend) (id : U256) (currentState : JournaledState) (current : Env)
    (action : RevertStateSnapshotAction) : Option JournaledState × Backend × Env :=
  match b.inner.stateSnapshots.removeAt id with
  | (none, _) => (none, b, current)
  | (some snapshot, snapshots) =>
    let snapshots := match action with
      | .revertKeep => snapshots.insertAt snapshot id
      | .revertRemove => snapshots
    let b := { b with
      inner := { b.inner with
        stateSnapshots := snapshots
        hasStateSnapshotFailure := b.inner.hasStateSnapshotFailure || failed currentState } }
    let (journaledState, b) := b.restore host currentState current (snapshot.merge currentState)
    (some journaledState, b, updateCurrentEnvWithForkEnv current snapshot.env)

def deleteStateSnapshot (b : Backend) (id : U256) : Bool × Backend :=
  let (snapshot, snapshots) := b.inner.stateSnapshots.removeAt id
  (snapshot.isSome, { b with inner := { b.inner with stateSnapshots := snapshots } })

/-! ### Forks -/

/-- Creates a fork, from what the handler answers. -/
def createFork (b : Backend) (response : Except ForkError (ForkId × DatabaseRef)) :
    Except ForkError LocalForkId × Backend :=
  match response with
  | .error err => (.error err, b)
  | .ok (forkId, db) =>
    let ((id, _), inner) :=
      b.inner.insertNewFork forkId (host.new db) b.forkInitJournaledState
    (.ok id, { b with inner := inner })

/-- The loop of `prepare_init_journal_state` over the accounts loaded so far, for one fork.
Each account is met once, so its entry is the one the loop started with. -/
def replaceAccounts (journaledState : JournaledState) (d : ForkDb) :
    List (Address × Account) → Except ForkError JournaledState × ForkDb
  | [] => (.ok journaledState, d)
  | (address, account) :: rest =>
    -- a created account takes precedence over that of the fork
    if account.created then replaceAccounts journaledState d rest
    else match host.basic d address with
      | (.error err, d) => (.error (.database err), d)
      | (.ok none, d) => (.error (.missingAccount address), d)
      | (.ok (some info), d) =>
        let state := journaledState.state.insert address { account with info := info }
        replaceAccounts { journaledState with state := state } d rest

/-- The loop of `prepare_init_journal_state` over the forks. -/
def initForks (init : JournaledState) (loadedAccounts : List (Address × Account)) :
    List (Option Fork) → Except ForkError Unit × List (Option Fork)
  | [] => (.ok (), [])
  | none :: rest =>
    let (res, rest) := initForks init loadedAccounts rest
    (res, none :: rest)
  | some fork :: rest =>
    match replaceAccounts host init fork.db loadedAccounts with
    | (.error err, db) => (.error err, some { fork with db := db } :: rest)
    | (.ok journaledState, db) =>
      let (res, rest) := initForks init loadedAccounts rest
      (res, some ⟨db, journaledState⟩ :: rest)

/-- Cleans up already loaded accounts that would be initialized without the correct data
from the fork. -/
def prepareInitJournalState (ord : DbOrder) (b : Backend) : Except ForkError Unit × Backend :=
  let loadedAccounts :=
    (CacheDb.entries ord.addresses b.forkInitJournaledState.state).filter fun (address, _) =>
      !host.isExistingPrecompile address && address ∉ b.inner.persistentAccounts
  let (res, forks) := initForks host b.forkInitJournaledState loadedAccounts b.inner.forks
  (res, { b with inner := { b.inner with forks := forks } })

/-- Initializes the caller on a fork that was not selected before. -/
def initCaller (caller : Address) (callerAccount : Option Account) (target : Fork) :
    Except ForkError Unit × Fork :=
  if target.journaledState.depth = 0 then
    match callerAccount with
    | none => (.ok (), target)
    | some acc => match host.basic target.db caller with
        | (.error err, db) => (.error (.database err), { target with db := db })
        | (.ok none, db) => (.error (.missingAccount caller), { target with db := db })
        | (.ok (some info), db) =>
          (.ok (), ⟨db, { target.journaledState with
            state := target.journaledState.state.insert caller { acc with info := info } }⟩)
  else (.ok (), target)

/-- The part of `select_fork` that records the journaled state: that of the active fork, or
the one that all forks start with. -/
def recordJournal (ord : DbOrder) (b : Backend) (idx : ForkLookupIndex) (caller : Address)
    (active : JournaledState) : Option (Except ForkError Unit × Backend) :=
  match b.activeForkIds with
  | some (_, activeIdx) => do
      let activeFork ← b.inner.getFork activeIdx
      let inner := b.inner.setFork activeIdx { activeFork with journaledState := active }
      let targetFork ← inner.getFork idx
      let (res, targetFork) := initCaller host caller (active.state.lookup caller) targetFork
      some (res, { b with inner := inner.setFork idx targetFork })
  | none =>
    match { b with forkInitJournaledState := active }.prepareInitJournalState host ord with
    | (.error err, b) => some (.error err, b)
    | (.ok _, b) => some (.ok (),
        { b with forkInitJournaledState := { b.forkInitJournaledState with depth := 0 } })

/-- Writes the values of the given slots to the slots that the account has. -/
def syncStorage (account : Account) (slots : List (U256 × U256)) : Account :=
  slots.foldl
    (fun account (key, val) => match account.storage.lookup key with
      | some slot =>
        { account with storage := account.storage.insert key { slot with presentValue := val } }
      | none => account)
    account

/-- The loop of `select_fork` over the persistent accounts. -/
def syncPersistent (ord : DbOrder) (d : ForkDb) (fork : JournaledState) :
    List Address → ForkDb × JournaledState
  | [] => (d, fork)
  | address :: rest => match host.loadAccount d address with
      | (.error _, d) => syncPersistent ord d fork rest
      | (.ok dbAccount, d) => match fork.state.lookup address with
          | none => syncPersistent ord d fork rest
          | some forkAccount =>
            let account := syncStorage forkAccount (CacheDb.entries ord.slots dbAccount.storage)
            syncPersistent ord d { fork with state := fork.state.insert address account } rest

end

/-! ### Merging -/

/-- Clones the account data from the active journaled state into that of a fork. -/
def mergeJournaledStateData (address : Address) (active fork : JournaledState) : JournaledState :=
  match active.state.lookup address with
  | none => fork
  | some acc =>
    let acc := match fork.state.lookup address with
      | some forkAccount => { acc with storage := forkAccount.storage.extend acc.storage }
      | none => acc
    { fork with state := fork.state.insert address acc }

/-- Clones the account data from the active database into that of a fork. -/
def mergeDbAccountData (address : Address) (active fork : CacheDb) : CacheDb :=
  match active.accounts.lookup address with
  | none => fork
  | some acc =>
    let contracts := match active.contracts.lookup acc.info.codeHash with
      | some code => fork.contracts.insert acc.info.codeHash code
      | none => fork.contracts
    let forkAccount := match fork.accounts.lookup address with
      | none => acc
      -- only the storage is merged
      | some forkAccount => { forkAccount with storage := forkAccount.storage.extend acc.storage }
    { fork with contracts := contracts, accounts := fork.accounts.insert address forkAccount }

/-- Clones the data of the given accounts into a fork. -/
def mergeAccountData (accounts : List Address) (active : CacheDb)
    (activeJournaledState : JournaledState) (target : Fork) : Fork :=
  accounts.foldl
    (fun target address =>
      { db := { target.db with cache := mergeDbAccountData address active target.db.cache }
        journaledState :=
          mergeJournaledStateData address activeJournaledState target.journaledState })
    target

section

variable (host : Host)

/-- The part of `select_fork` that hands over to the target fork. -/
def handOver (ord : DbOrder) (b : Backend) (idx : ForkLookupIndex) (caller : Address)
    (active : JournaledState) : Option (Backend × JournaledState) := do
  let (fork, inner) ← b.inner.takeFork idx
  let b := { b with inner := inner }
  let persistentAccounts := ord.addresses.toList b.inner.persistentAccounts
  -- the active fork, if there is one, loads the persistent accounts
  let (b, journaledState) ← match b.activeForkIds with
    | none => some (b, fork.journaledState)
    | some (_, activeIdx) => (b.inner.getFork activeIdx).map fun activeFork =>
      let (db, journaledState) :=
        syncPersistent host ord activeFork.db fork.journaledState persistentAccounts
      ({ b with inner := b.inner.setFork activeIdx { activeFork with db := db } }, journaledState)
  let journaledState := { journaledState with depth := active.depth }
  let (journaledState, db) := orInsertCaller host caller active journaledState fork.db
  let activeDb ← b.db
  let fork := mergeAccountData persistentAccounts activeDb.cache active ⟨db, journaledState⟩
  some ({ b with inner := b.inner.setFork idx fork }, fork.journaledState)

/-- What the handler answers while a fork is selected. -/
structure SelectResponses where
  updateBlock : Except ForkError Unit
  getEnv : Except ForkError (Option Env)

/-- Hands the block number and timestamp of the active fork (if any) to the handler. -/
def updateBlock (b : Backend) (responses : SelectResponses) : Except ForkError Unit :=
  match b.activeForkId with
  | some activeId => do
      let _ ← b.inner.ensureForkId activeId
      responses.updateBlock
  | none => .ok ()

/-- Finds the fork to select. -/
def findFork (b : Backend) (id : LocalForkId) (responses : SelectResponses) :
    Except ForkError (ForkLookupIndex × Env) := do
  b.updateBlock responses
  let forkId ← b.inner.ensureForkId id
  let idx ← b.inner.ensureForkIndex forkId
  match responses.getEnv with
  | .error err => .error err
  | .ok none => .error (.requestedForkDoesNotExist id)
  | .ok (some forkEnv) => .ok (idx, forkEnv)

/-- Select an existing fork by id. -/
def selectFork (ord : DbOrder) (b : Backend) (id : LocalForkId) (env : Env)
    (active : JournaledState) (responses : SelectResponses) :
    Option (Except ForkError Unit × Backend × Env × JournaledState) :=
  if b.isActiveFork id then some (.ok (), b, env, active)
  else match b.findFork id responses with
    | .error err => some (.error err, b, env, active)
    | .ok (idx, forkEnv) => match b.recordJournal host ord idx env.tx.caller active with
        | none => none
        | some (.error err, b) => some (.error err, b, env, active)
        | some (.ok _, b) => (b.handOver host ord idx env.tx.caller active).map
            fun (b, journaledState) =>
              (.ok (), { b with activeForkIds := some (id, idx) },
                updateCurrentEnvWithForkEnv env forkEnv, journaledState)

end

end Backend

end BaseAnvil.Forks

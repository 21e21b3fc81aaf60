import BaseAnvil.Chain.Db

/-!
# BaseAnvil.Chain.Fork

The account database over a remote node (`evm/core/src/fork/database.rs`,
`mem/fork_db.rs`), and the trait `Db` that it shares with the in-memory one.

Local changes are in revm's `CacheDB`. What it does not have is read through the
shared backend, which keeps what it has fetched in the maps of the `BlockchainDb`;
so a read may change these maps. The functions of `CacheDB` over the shared backend
are the fields of `ForkDbApi`.
-/

namespace BaseAnvil.Chain

open Pool (B256 Address)

/-! ### The trait -/

/-- What the backend asks of its database. A commit takes the changes of a
transaction, whatever they are. -/
structure Db (D Changes : Type) where
  basic : D → Address → Except DatabaseError (Option AccountInfo) × D
  commit : D → Changes → D
  insertAccount : D → Address → AccountInfo → D
  setStorageAt : D → Address → U256 → U256 → Except DatabaseError Unit × D
  insertBlockHash : D → U256 → B256 → D
  snapshotState : D → U256 × D
  revertState : D → U256 → RevertStateSnapshotAction → Bool × D

namespace Db

variable {D Changes : Type} (T : Db D Changes)

/-- The common shape of `set_nonce`, `set_balance` and `set_code`: reads the
account, changes it and writes it back. -/
def modifyAccount (keccakEmpty : B256) (db : D) (address : Address)
    (f : AccountInfo → AccountInfo) : Except DatabaseError Unit × D :=
  match T.basic db address with
  | (.error err, db) => (.error err, db)
  | (.ok info, db) => (.ok (), T.insertAccount db address (f (info.getD (.default keccakEmpty))))

/-- Sets the nonce of the given address. -/
def setNonce (keccakEmpty : B256) (db : D) (address : Address) (nonce : UInt64) :
    Except DatabaseError Unit × D :=
  T.modifyAccount keccakEmpty db address fun info => { info with nonce := nonce }

/-- Sets the balance of the given address. -/
def setBalance (keccakEmpty : B256) (db : D) (address : Address) (balance : U256) :
    Except DatabaseError Unit × D :=
  T.modifyAccount keccakEmpty db address fun info => { info with balance := balance }

/-- Sets the code of the given address. -/
def setCode (keccak256 : List UInt8 → B256) (db : D) (address : Address) (code : List UInt8) :
    Except DatabaseError Unit × D :=
  T.modifyAccount (keccak256 []) db address fun info =>
    { info with
      codeHash := if code.isEmpty then keccak256 [] else keccak256 code
      code := some code }

end Db

/-- The in-memory database. -/
def MemDb.asDb {Changes : Type} (api : CacheDbApi) (commit : CacheDb → Changes → CacheDb) :
    Db MemDb Changes where
  basic db address :=
    let (info, inner) := api.basic db.inner address
    (info, { db with inner := inner })
  commit db changes := { db with inner := commit db.inner changes }
  insertAccount := MemDb.insertAccount api
  setStorageAt := MemDb.setStorageAt api
  insertBlockHash := MemDb.insertBlockHash
  snapshotState := MemDb.snapshotState
  revertState := MemDb.revertState

/-! ### The forked database -/

/-- The functions of revm's `CacheDB` over the shared backend. Where one reads, it
may fetch from the remote and so fill the maps of the `BlockchainDb`. -/
structure ForkDbApi where
  basic : CacheDb × StateSnapshot → Address →
    Except DatabaseError (Option AccountInfo) × CacheDb × StateSnapshot
  insertAccountInfo : CacheDb → Address → AccountInfo → CacheDb
  insertAccountStorage : CacheDb × StateSnapshot → Address → U256 → U256 →
    Except DatabaseError Unit × CacheDb × StateSnapshot

/-- Represents a snapshot of the forked database. -/
structure ForkDbStateSnapshot where
  /-- The field `local`. -/
  localDb : CacheDb
  stateSnapshot : StateSnapshot
  deriving DecidableEq

/-- A `Database` that fetches what it does not have from a remote node. -/
structure ForkedDatabase where
  cacheDb : CacheDb
  /-- The maps of the `BlockchainDb`: what has been fetched. -/
  db : StateSnapshot
  stateSnapshots : StateSnapshots ForkDbStateSnapshot

namespace ForkedDatabase

def new : ForkedDatabase := ⟨.empty, ⟨∅, ∅, ∅⟩, .new⟩

def basic (api : ForkDbApi) (db : ForkedDatabase) (address : Address) :
    Except DatabaseError (Option AccountInfo) × ForkedDatabase :=
  let (info, cacheDb, fetched) := api.basic (db.cacheDb, db.db) address
  (info, { db with cacheDb := cacheDb, db := fetched })

def insertAccount (api : ForkDbApi) (db : ForkedDatabase) (address : Address)
    (account : AccountInfo) : ForkedDatabase :=
  { db with cacheDb := api.insertAccountInfo db.cacheDb address account }

/-- The account is loaded first. -/
def setStorageAt (api : ForkDbApi) (db : ForkedDatabase) (address : Address) (slot val : U256) :
    Except DatabaseError Unit × ForkedDatabase :=
  match db.basic api address with
  | (.error err, db) => (.error err, db)
  | (.ok _, db) =>
    let (res, cacheDb, fetched) :=
      api.insertAccountStorage (db.cacheDb, db.db) address slot val
    (res, { db with cacheDb := cacheDb, db := fetched })

/-- Goes to the fetched data, not to the local changes. -/
def insertBlockHash (db : ForkedDatabase) (number : U256) (hash : B256) : ForkedDatabase :=
  { db with db := { db.db with blockHashes := db.db.blockHashes.insert number hash } }

def createStateSnapshot (db : ForkedDatabase) : ForkDbStateSnapshot := ⟨db.cacheDb, db.db⟩

def insertStateSnapshot (db : ForkedDatabase) : U256 × ForkedDatabase :=
  let (id, stateSnapshots) := db.stateSnapshots.insert db.createStateSnapshot
  (id, { db with stateSnapshots := stateSnapshots })

/-- Removes the snapshot from the tracked snapshots and sets it as the current state. -/
def revertStateSnapshot (db : ForkedDatabase) (id : U256) (action : RevertStateSnapshotAction) :
    Bool × ForkedDatabase :=
  match db.stateSnapshots.removeAt id with
  | (some snapshot, stateSnapshots) =>
    let stateSnapshots :=
      if action = .revertKeep then stateSnapshots.insertAt snapshot id else stateSnapshots
    (true, ⟨snapshot.localDb, snapshot.stateSnapshot, stateSnapshots⟩)
  | (none, stateSnapshots) => (false, { db with stateSnapshots := stateSnapshots })

/-- The forked database as a `Db`. -/
def asDb {Changes : Type} (api : ForkDbApi) (commit : CacheDb → Changes → CacheDb) :
    Db ForkedDatabase Changes where
  basic := basic api
  commit db changes := { db with cacheDb := commit db.cacheDb changes }
  insertAccount := insertAccount api
  setStorageAt := setStorageAt api
  insertBlockHash := insertBlockHash
  snapshotState := insertStateSnapshot
  revertState := revertStateSnapshot

end ForkedDatabase

/-! ### Requests to a database -/

inductive DbWrite (Changes : Type)
  | commit (changes : Changes)
  | insertAccount (address : Address) (account : AccountInfo)
  | setNonce (address : Address) (nonce : UInt64)
  | setBalance (address : Address) (balance : U256)
  | setCode (address : Address) (code : List UInt8)
  | setStorageAt (address : Address) (slot val : U256)
  | insertBlockHash (number : U256) (hash : B256)

inductive DbOp (Changes : Type)
  | write (w : DbWrite Changes)
  | snapshotState
  | revertState (id : U256) (action : RevertStateSnapshotAction)

/-- What a request tells about snapshots. -/
inductive DbOutput
  | written
  | snapshot (id : U256)
  | reverted (done : Bool)
  deriving Repr, DecidableEq

namespace Db

variable {D Changes : Type} (T : Db D Changes) (keccak256 : List UInt8 → B256)

def write (db : D) : DbWrite Changes → D
  | .commit changes => T.commit db changes
  | .insertAccount address account => T.insertAccount db address account
  | .setNonce address nonce => (T.setNonce (keccak256 []) db address nonce).2
  | .setBalance address balance => (T.setBalance (keccak256 []) db address balance).2
  | .setCode address code => (T.setCode keccak256 db address code).2
  | .setStorageAt address slot val => (T.setStorageAt db address slot val).2
  | .insertBlockHash number hash => T.insertBlockHash db number hash

def exec (db : D) : DbOp Changes → DbOutput × D
  | .write w => (.written, T.write keccak256 db w)
  | .snapshotState =>
    let (id, db) := T.snapshotState db
    (.snapshot id, db)
  | .revertState id action =>
    let (done, db) := T.revertState db id action
    (.reverted done, db)

/-- The snapshot can still be reverted to. -/
def canRevert (db : D) (id : U256) : Bool := (T.revertState db id .revertRemove).1

end Db

end BaseAnvil.Chain

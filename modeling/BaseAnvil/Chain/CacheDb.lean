import BaseAnvil.Chain.Db

/-!
# BaseAnvil.Chain.CacheDb

Reading a database (the trait `DatabaseRef`), and what revm documents about its `CacheDB`.

The functions of `CacheDB` are not part of this repository. A result that depends on how a
`CacheDB` is read is about any function that reads it, with the hypothesis that it reads as
`CacheDb.readThrough` does.
-/

namespace BaseAnvil.Chain

open Lib
open Pool (B256 Address)

/-- What can be read of a database: the trait `DatabaseRef`. -/
structure DatabaseRef where
  basicRef : Address → Except DatabaseError (Option AccountInfo)
  codeByHashRef : B256 → Except DatabaseError Bytecode
  storageRef : Address → U256 → Except DatabaseError U256
  blockHashRef : UInt64 → Except DatabaseError B256

/-- `EmptyDBWrapper`: an empty database that always returns default values. `emptyBlockHash`
is the hash revm's `EmptyDB` makes up for a number. -/
def DatabaseRef.emptyDbWrapper (keccakEmpty : B256) (emptyBlockHash : UInt64 → B256) :
    DatabaseRef where
  basicRef _ := .ok (some (.default keccakEmpty))
  codeByHashRef _ := .ok []
  storageRef _ _ := .ok 0
  blockHashRef number := .ok (emptyBlockHash number)

/-- What is read of an account besides its code. -/
def AccountInfo.summary (info : AccountInfo) : UInt64 × U256 × B256 :=
  (info.nonce, info.balance, info.codeHash)

/-- `DbAccount::info`. -/
def DbAccount.existing (acc : DbAccount) : Option AccountInfo :=
  if acc.accountState = .notExisting then none else some acc.info

/-- How revm documents that a `CacheDB` is read: from the cache, and from the database
below where the cache has nothing. -/
def CacheDb.readThrough (below : DatabaseRef) (db : CacheDb) : DatabaseRef where
  basicRef address := match db.accounts.lookup address with
    | some acc => .ok acc.existing
    | none => below.basicRef address
  codeByHashRef codeHash := match db.contracts.lookup codeHash with
    | some code => .ok code
    | none => below.codeByHashRef codeHash
  storageRef address slot := match db.accounts.lookup address with
    | some acc =>
      match acc.storage.lookup slot with
      | some value => .ok value
      | none =>
        if acc.accountState = .storageCleared ∨ acc.accountState = .notExisting then .ok 0
        else below.storageRef address slot
    | none => below.storageRef address slot
  blockHashRef number := match db.blockHashes.lookup (Word.ofU64 256 number) with
    | some hash => .ok hash
    | none => below.blockHashRef number

end BaseAnvil.Chain

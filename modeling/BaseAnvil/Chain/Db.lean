import BaseAnvil.Chain.Snapshots
import BaseAnvil.Pool.Transaction

/-!
# BaseAnvil.Chain.Db

The in-memory account database (`eth/backend/db.rs`, `mem/in_memory_db.rs`,
`evm/core/src/backend/in_memory_db.rs`).

The database is revm's `CacheDB` over an empty database, together with the table
of its snapshots. What this repository does with the maps of the cache is written
out; the functions of `CacheDB` itself that it calls are the fields of `CacheDbApi`.
-/

namespace BaseAnvil.Chain

open Lib HashMap Finmap
open Pool (B256 Address)

abbrev Bytecode := List UInt8

structure AccountInfo where
  balance : U256
  nonce : UInt64
  codeHash : B256
  code : Option Bytecode
  deriving DecidableEq

/-- `AccountInfo::default`, up to the hash of the empty code. -/
def AccountInfo.default (keccakEmpty : B256) : AccountInfo := ⟨0, 0, keccakEmpty, some []⟩

inductive AccountState
  | notExisting
  | touched
  | storageCleared
  | none
  deriving Repr, DecidableEq

structure DbAccount where
  info : AccountInfo
  accountState : AccountState
  storage : HashMap U256 U256
  deriving DecidableEq

/-- The cache of revm's `CacheDB`; with nothing below it, the whole database. -/
structure CacheDb where
  accounts : HashMap Address DbAccount
  contracts : HashMap B256 Bytecode
  blockHashes : HashMap U256 B256
  deriving DecidableEq

/-- `DatabaseError`. -/
structure DatabaseError where
  message : String
  deriving Repr, DecidableEq

/-- The functions of revm's `CacheDB` the backend calls. A failing call leaves
whatever it has loaded so far in the cache. -/
structure CacheDbApi where
  basic : CacheDb → Address → Except DatabaseError (Option AccountInfo) × CacheDb
  insertAccountInfo : CacheDb → Address → AccountInfo → CacheDb
  insertAccountStorage : CacheDb → Address → U256 → U256 → Except DatabaseError Unit × CacheDb

/-- The order in which the maps of a database are walked. -/
structure DbOrder where
  addresses : IterOrder Address
  slots : IterOrder U256

/-- Maps walked by increasing key, as those of a `BTreeMap` are. -/
def ascendingDbOrder : DbOrder where
  addresses := .sortedBy BitVec.toNat fun _ _ => BitVec.eq_of_toNat_eq
  slots := .sortedBy BitVec.toNat fun _ _ => BitVec.eq_of_toNat_eq

/-- A minimal abstraction of a state at a certain point in time. -/
structure StateSnapshot where
  accounts : HashMap Address AccountInfo
  storage : HashMap Address (HashMap U256 U256)
  blockHashes : HashMap U256 B256
  deriving DecidableEq

namespace CacheDb

def empty : CacheDb := ⟨∅, ∅, ∅⟩

/-- The entries of a map, in the order it is walked. -/
def entries {K V : Type} [DecidableEq K] (ord : IterOrder K) (m : HashMap K V) : List (K × V) :=
  (ord.toList m.keys).filterMap fun k => (m.lookup k).map fun v => (k, v)

section

variable {K V : Type} [DecidableEq K] {m : HashMap K V} {k : K} {v : V}

theorem mem_entries {ord : IterOrder K} : (k, v) ∈ entries ord m ↔ m.lookup k = some v := by
  simp only [entries, List.mem_filterMap, ord.mem_toList, mem_keys, Option.map_eq_some_iff,
    Prod.mk.injEq]
  constructor
  · rintro ⟨k', -, v', hlook, rfl, rfl⟩
    exact hlook
  · intro hlook
    exact ⟨k, mem_iff.mpr ⟨v, hlook⟩, v, hlook, rfl, rfl⟩

variable (ord : IterOrder K)
include ord

theorem nodup_entries (m : HashMap K V) : ((entries ord m).map (·.1)).Nodup := by
  rw [entries, List.map_filterMap]
  refine (ord.nodup m.keys).filterMap fun k k' key hk hk' => ?_
  simp only [Option.map_map, Option.mem_def, Option.map_eq_some_iff, Function.comp_apply] at hk hk'
  obtain ⟨-, -, rfl⟩ := hk
  obtain ⟨-, -, heq⟩ := hk'
  exact heq.symm

/-- Where an entry is walked. -/
theorem entries_split (h : m.lookup k = some v) :
    ∃ before after, entries ord m = before ++ (k, v) :: after ∧ k ∉ before.map (·.1) ∧
      k ∉ after.map (·.1) := by
  have hmem : (k, v) ∈ entries ord m := mem_entries.mpr h
  obtain ⟨before, after, hentries⟩ := List.append_of_mem hmem
  have hnodup := nodup_entries ord m
  rw [hentries, List.map_append, List.map_cons, List.nodup_middle, List.nodup_cons,
    List.mem_append, not_or] at hnodup
  exact ⟨before, after, hentries, hnodup.1⟩

theorem entries_withLast (h : m.lookup k = some v) :
    ∃ before, entries (ord.withLast k) m = before ++ [(k, v)] := by
  have hmem : k ∈ m.keys := mem_keys.mpr (mem_iff.mpr ⟨v, h⟩)
  rw [entries, IterOrder.withLast]
  dsimp only
  rw [if_pos hmem, List.filterMap_append]
  refine ⟨_, congrArg (_ ++ ·) ?_⟩
  simp [h]

theorem entries_reversed : entries ord.reversed m = (entries ord m).reverse :=
  List.filterMap_reverse

end

/-- A map walked and written again, with other values. -/
theorem lookup_insertAll_entries {K V W : Type} [DecidableEq K] (ord : IterOrder K)
    (m : HashMap K V) (f : K → V → W) (k : K) :
    (insertAll ∅ ((entries ord m).map fun e => (e.1, f e.1 e.2))).lookup k =
      (m.lookup k).map (f k) := by
  rw [lookup_insertAll, lookup_empty, Option.or_none]
  have hmem : ∀ w, (k, w) ∈ (entries ord m).map (fun e => (e.1, f e.1 e.2)) ↔
      ∃ v, m.lookup k = some v ∧ f k v = w := by
    intro w
    simp only [List.mem_map, Prod.exists, Prod.mk.injEq, mem_entries]
    constructor
    · rintro ⟨k', v, hlook, rfl, rfl⟩
      exact ⟨v, hlook, rfl⟩
    · rintro ⟨v, hlook, rfl⟩
      exact ⟨k, v, hlook, rfl, rfl⟩
  cases hlook : m.lookup k with
  | none =>
    refine lastValue_of_notMem fun w hw => ?_
    obtain ⟨v, hv, -⟩ := (hmem w).mp hw
    rw [hlook] at hv
    cases hv
  | some v =>
    refine lastValue_of_mem (fun w hw => ?_) ((hmem _).mpr ⟨v, hlook, rfl⟩)
    obtain ⟨v', hv', rfl⟩ := (hmem w).mp hw
    cases hlook.symm.trans hv'
    rfl

/-- A map walked and written again. -/
theorem insertAll_entries {K V : Type} [DecidableEq K] (ord : IterOrder K) (m : HashMap K V) :
    insertAll ∅ (entries ord m) = m := by
  refine ext_lookup fun k => ?_
  have h := lookup_insertAll_entries ord m (fun _ v => v) k
  simpa using h

/-- One account moved into a snapshot. The code is taken out of the table, so of
several accounts with the same code only the first one walked gets it. -/
def clearAccount (state : StateSnapshot × HashMap B256 Bytecode) (entry : Address × DbAccount) :
    StateSnapshot × HashMap B256 Bytecode :=
  let (snapshot, contracts) := state
  let (addr, acc) := entry
  let info := { acc.info with code := contracts.lookup acc.info.codeHash }
  ({ snapshot with
      storage := snapshot.storage.insert addr acc.storage
      accounts := snapshot.accounts.insert addr info },
    contracts.erase acc.info.codeHash)

def clearIntoStateSnapshot (ord : DbOrder) (db : CacheDb) : StateSnapshot × CacheDb :=
  let (snapshot, contracts) :=
    (entries ord.addresses db.accounts).foldl clearAccount (⟨∅, ∅, ∅⟩, db.contracts)
  ({ snapshot with blockHashes := db.blockHashes }, ⟨∅, contracts, ∅⟩)

def clear (ord : DbOrder) (db : CacheDb) : CacheDb := (db.clearIntoStateSnapshot ord).2

/-- One account of a snapshot put back. -/
def initAccount (storage : HashMap Address (HashMap U256 U256)) (db : CacheDb)
    (entry : Address × AccountInfo) : CacheDb :=
  let (addr, acc) := entry
  let contracts := match acc.code with
    | some code => db.contracts.insert acc.codeHash code
    | none => db.contracts
  { db with
    contracts := contracts
    accounts := db.accounts.insert addr
      ⟨{ acc with code := none }, .none, (storage.lookup addr).getD ∅⟩ }

def initFromStateSnapshot (ord : DbOrder) (db : CacheDb) (snapshot : StateSnapshot) : CacheDb :=
  let db := (entries ord.addresses snapshot.accounts).foldl (initAccount snapshot.storage) db
  { db with blockHashes := snapshot.blockHashes }

end CacheDb

/-! ### The database with its snapshots -/

/-- What reverting does with the snapshot it reverts to. -/
inductive RevertStateSnapshotAction
  | revertRemove
  | revertKeep
  deriving Repr, DecidableEq

/-- In-memory database of anvil. -/
structure MemDb where
  inner : CacheDb
  stateSnapshots : StateSnapshots CacheDb

namespace MemDb

def new : MemDb := ⟨.empty, .new⟩

def insertAccount (api : CacheDbApi) (db : MemDb) (address : Address) (account : AccountInfo) :
    MemDb :=
  { db with inner := api.insertAccountInfo db.inner address account }

def setStorageAt (api : CacheDbApi) (db : MemDb) (address : Address) (slot val : U256) :
    Except DatabaseError Unit × MemDb :=
  let (res, inner) := api.insertAccountStorage db.inner address slot val
  (res, { db with inner := inner })

def insertBlockHash (db : MemDb) (number : U256) (hash : B256) : MemDb :=
  { db with inner := { db.inner with blockHashes := db.inner.blockHashes.insert number hash } }

/-- Creates a new snapshot. -/
def snapshotState (db : MemDb) : U256 × MemDb :=
  let (id, stateSnapshots) := db.stateSnapshots.insert db.inner
  (id, { db with stateSnapshots := stateSnapshots })

/-- Reverts to a snapshot; `true` if there was one. -/
def revertState (db : MemDb) (id : U256) (action : RevertStateSnapshotAction) : Bool × MemDb :=
  match db.stateSnapshots.remove id with
  | (some stateSnapshot, stateSnapshots) =>
    let stateSnapshots :=
      if action = .revertKeep then stateSnapshots.insertAt stateSnapshot id else stateSnapshots
    (true, ⟨stateSnapshot, stateSnapshots⟩)
  | (none, stateSnapshots) => (false, { db with stateSnapshots := stateSnapshots })

def clear (ord : DbOrder) (db : MemDb) : MemDb := { db with inner := db.inner.clear ord }

/-! ### What reverting does -/

theorem revertState_fst (db : MemDb) (id : U256) :
    (db.revertState id .revertRemove).1 = (db.stateSnapshots.get id).isSome := by
  rw [revertState, ← StateSnapshots.remove_fst]
  rcases db.stateSnapshots.remove id with ⟨_ | snapshot, rest⟩ <;> rfl

theorem revertState_inner (db : MemDb) (id : U256) :
    (db.revertState id .revertRemove).2.inner = (db.stateSnapshots.get id).getD db.inner := by
  rw [revertState, ← StateSnapshots.remove_fst]
  rcases db.stateSnapshots.remove id with ⟨_ | snapshot, rest⟩ <;> rfl

/-- Later snapshots go whether or not there was one to revert to. -/
theorem revertState_stateSnapshots (db : MemDb) (id : U256) :
    (db.revertState id .revertRemove).2.stateSnapshots = (db.stateSnapshots.remove id).2 := by
  rw [revertState]
  rcases db.stateSnapshots.remove id with ⟨_ | snapshot, rest⟩ <;> rfl

end MemDb

end BaseAnvil.Chain

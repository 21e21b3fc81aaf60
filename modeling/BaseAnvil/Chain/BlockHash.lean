import BaseAnvil.Chain.Dump
import BaseAnvil.Chain.Consistent
import BaseAnvil.Chain.Restore

/-!
# BaseAnvil.Chain.BlockHash

Is what the `BLOCKHASH` opcode reads the hash of the block at that number?

The hash of a block is stored twice: in the chain, under its number, and in the database,
from where the EVM reads it. Mining writes both. Everything else writes one of them:
rolling back clears the database, loading a dump adds blocks to the chain, and reverting
puts an earlier copy of the database back, for an id that is not active any more under a
chain that stays. `KeepsHashes` says in terms of the state before a request when it does
no harm, and `blockHashes_agree_of_run` that otherwise the two tables agree.

Reverting to an active snapshot does no harm because of what the snapshots in store have in
common (`SnapshotsInStep`): each copy answers the hashes up to the height it was taken at,
and later snapshots were taken at later heights, so that going back to one of them keeps
what the earlier ones answer.
-/

namespace BaseAnvil.Chain

open Lib BlockchainStorage Word CacheDb TransactionExecutor
open Pool (B256 Address PoolTransaction)

/-- The two databases answer the same block hashes. -/
def SameBlockHashes (asRef : CacheDb → DatabaseRef) (db db' : CacheDb) : Prop :=
  ∀ number, (asRef db').blockHashRef number = (asRef db).blockHashRef number

/-- Loading, writing and executing may cache a block hash, but change none. -/
structure Evm.KeepsBlockHashes (evm : Evm) (asRef : CacheDb → DatabaseRef) : Prop where
  basic : ∀ db address, SameBlockHashes asRef db (evm.basic db address).2
  insertAccountInfo : ∀ db address info,
    SameBlockHashes asRef db (evm.insertAccountInfo db address info)
  insertAccountStorage : ∀ db address slot value,
    SameBlockHashes asRef db (evm.insertAccountStorage db address slot value).2
  transactCommit : ∀ db env tx, SameBlockHashes asRef db (evm.transactCommit db env tx).2

/-- The database answers the hash that the chain has at each of the heights. -/
def AnswersHashes (ref : DatabaseRef) (s : BlockchainStorage) (heights : UInt64 → Prop) : Prop :=
  ∀ n hash, heights n → s.hashes.lookup n = some hash → ref.blockHashRef n = .ok hash

/-! ### The database -/

variable {s : BlockchainStorage} {below : DatabaseRef}

section

variable {asRef : CacheDb → DatabaseRef}

theorem SameBlockHashes.trans {db db' db'' : CacheDb} (h : SameBlockHashes asRef db db')
    (h' : SameBlockHashes asRef db' db'') : SameBlockHashes asRef db db'' :=
  fun n => (h' n).trans (h n)

theorem AnswersHashes.same {db db' : CacheDb} {heights : UInt64 → Prop}
    (h : AnswersHashes (asRef db) s heights) (hsame : SameBlockHashes asRef db db') :
    AnswersHashes (asRef db') s heights :=
  fun n hash hn hlook => (hsame n).trans (h n hash hn hlook)

theorem blockHashRef_insertBlockHash (hreads : ∀ db, asRef db = db.readThrough below) (db : MemDb)
    (number n : UInt64) (hash : B256) :
    (asRef (db.insertBlockHash (ofU64 256 number) hash).inner).blockHashRef n =
      if n = number then .ok hash else (asRef db.inner).blockHashRef n := by
  rw [hreads, hreads]
  simp only [readThrough, MemDb.insertBlockHash, HashMap.lookup_insert_ite, ofU64_inj]
  by_cases hn : n = number
  · rw [if_pos hn, if_pos hn]
  · rw [if_neg hn, if_neg hn]

variable {evm : Evm} (hkeeps : evm.KeepsBlockHashes asRef)

include hkeeps

theorem sameBlockHashes_writeStorage (address : Address) (db : MemDb) (slots : List (U256 × U256)) :
    SameBlockHashes asRef db.inner
      (Backend.writeStorage evm.toCacheDbApi address db slots).2.inner := by
  induction slots generalizing db with
  | nil => exact fun _ => rfl
  | cons slot slots ih =>
    obtain ⟨key, value⟩ := slot
    have hset : SameBlockHashes asRef db.inner
        (db.setStorageAt evm.toCacheDbApi address key value).2.inner :=
      hkeeps.insertAccountStorage db.inner address key value
    rw [Backend.writeStorage]
    generalize db.setStorageAt evm.toCacheDbApi address key value = res at hset ⊢
    rcases res with ⟨err | _, db'⟩
    · exact hset
    · exact hset.trans (ih db')

theorem sameBlockHashes_execute {rules : FeeRules} {keccakEmpty : B256}
    {validate : TransactionValidator} {env : EvmEnv} {parentHash : B256} {db db' : CacheDb}
    {pending : List PoolTransaction} {executed : ExecutedTransactions}
    (h : execute evm rules keccakEmpty validate env parentHash db pending =
      some (executed, db')) : SameBlockHashes asRef db db' := by
  refine invariant_execute (I := SameBlockHashes asRef db) ?_ ?_
    (fun _ => rfl) h
  · exact fun db₁ address hsame => hsame.trans (hkeeps.basic db₁ address)
  · exact fun db₁ tx hsame => hsame.trans (hkeeps.transactCommit db₁ env tx)

end

/-- Adding accounts changes no block hash and no snapshot. -/
theorem sameBlockHashes_loadAccounts {rt : StateRuntime} (hkeeps : rt.evm.KeepsBlockHashes rt.asRef)
    (db : MemDb) (accounts : List (Address × SerializableAccountRecord)) :
    SameBlockHashes rt.asRef db.inner (db.loadAccounts rt accounts).2.inner ∧
      (db.loadAccounts rt accounts).2.stateSnapshots = db.stateSnapshots := by
  induction accounts generalizing db with
  | nil => exact ⟨fun _ => rfl, rfl⟩
  | cons entry accounts ih =>
    obtain ⟨address, account⟩ := entry
    have hload : SameBlockHashes rt.asRef db.inner (db.loadAccount rt address account).2.inner ∧
        (db.loadAccount rt address account).2.stateSnapshots = db.stateSnapshots := by
      unfold MemDb.loadAccount
      have hinfo := hkeeps.insertAccountInfo db.inner address (db.loadedInfo rt address account)
      exact ⟨hinfo.trans (sameBlockHashes_writeStorage hkeeps address _ _),
        Backend.writeStorage_stateSnapshots _ _ _ _⟩
    rw [MemDb.loadAccounts]
    generalize db.loadAccount rt address account = res at hload ⊢
    rcases res with ⟨err | _, db'⟩
    · exact hload
    · exact ⟨hload.1.trans (ih db').1, (ih db').2.trans hload.2⟩

/-- Blocks that the chain has are loaded without effect on the heights. -/
theorem BlockchainStorage.heights_loadBlocks {hashSlow : Header → B256} {blocks : List Block}
    (h : ∀ block ∈ blocks, s.hashes.lookup block.header.number = some (hashSlow block.header)) :
    (∀ n, (s.loadBlocks hashSlow blocks).hashes.lookup n = s.hashes.lookup n) ∧
      (s.loadBlocks hashSlow blocks).bestNumber = s.bestNumber := by
  induction blocks generalizing s with
  | nil => exact ⟨fun _ => rfl, rfl⟩
  | cons block blocks ih =>
    have hload : ∀ n, (s.loadBlock hashSlow block).hashes.lookup n = s.hashes.lookup n := by
      intro n
      simp only [loadBlock, HashMap.lookup_insert_ite]
      split
      · rename_i hn
        rw [hn, h block List.mem_cons_self]
      · rfl
    obtain ⟨hhashes, hbest⟩ := ih (s := s.loadBlock hashSlow block) fun other hother =>
      (hload _).trans (h other (List.mem_cons_of_mem block hother))
    exact ⟨fun n => (hhashes n).trans (hload n), hbest⟩

namespace Backend

/-! ### When a request does no harm -/

/-- The state that a rollback goes back to, once it has found the block. -/
def rollbackState (rt : Runtime) (ord : DbOrder) (readable : Bool) (b : Backend)
    (depth : Option UInt64) : Option CacheDb := do
  let commonHeight ← U64.checkedSub b.bestNumber (depth.getD 1)
  let commonBlock ← b.getBlock commonHeight
  let hash := rt.evm.hashSlow commonBlock.header
  match b.states.getState hash with
  | some state => some state
  | none => (b.states.getOnDiskState ord readable hash).1

/-- A revert goes back to an active snapshot, of which the database has its copy and the chain
its block; or the database has no copy to put back. -/
def RevertKeepsHashes (b : Backend) (id : U256) : Prop :=
  match b.activeStateSnapshots.lookup id with
  | none => b.dbSnapshot id = none
  | some (num, hash) => (b.dbSnapshot id).isSome ∧ Survives b.blockchain num hash

/-- The chain has each block that is loaded, and the environment loaded and the best number
loaded are those of the best block. -/
structure LoadKeepsHashes (rt : StateRuntime) (b : Backend) (state : SerializableState) : Prop where
  blocks : ∀ block ∈ state.blocks,
    b.blockchain.hashes.lookup block.header.number = some (rt.evm.hashSlow block.header)
  env : ∀ blockEnv, state.block = some blockEnv →
    Word.saturatingToU64 blockEnv.number = b.bestNumber
  best : ∀ number, state.bestBlockNumber = some number → number = b.bestNumber

/-- The request leaves the two tables in agreement. Blocks and snapshots are not numbered to
the last, and a rollback fails before it clears the database. -/
def KeepsHashes (rt : StateRuntime) (b : Backend) : StateOp → Prop
  | .request (.mine _ _ _) => b.bestNumber ≠ U64.max
  | .request .snapshot => b.createStateSnapshot.2.nextId ≠ BitVec.allOnes 256
  | .request (.revert _ id) => b.RevertKeepsHashes id
  | .request (.rollback ord readable _ depth) =>
    b.rollbackState rt.toRuntime ord readable depth = none
  | .load _ state => LoadKeepsHashes rt b state

/-- The database has a copy for a snapshot that is active, taken at height `num`. -/
def Held (b : Backend) (id : U256) (num : UInt64) (db : CacheDb) : Prop :=
  (b.activeStateSnapshots.lookup id).map (·.1) = some num ∧ b.dbSnapshot id = some db

/-- What the snapshots in store have in common. -/
structure SnapshotsInStep (rt : StateRuntime) (b : Backend) : Prop where
  ordered : b.Ordered
  idsLeft : b.nextId ≠ BitVec.allOnes 256
  below : ∀ id num db, b.Held id num db → num ≤ b.bestNumber
  rising : ∀ id id' num num' db db', b.Held id num db → b.Held id' num' db' → id ≤ id' →
    num ≤ num'
  answers : ∀ id num db, b.Held id num db → AnswersHashes (rt.asRef db) b.blockchain (· ≤ num)

/-- The two tables agree, and so do the number of the environment and that of the best
block, from which the next two entries get their numbers. -/
structure HashesInStep (rt : StateRuntime) (b : Backend) : Prop where
  agrees : AnswersHashes (rt.asRef b.db.inner) b.blockchain fun _ => True
  number : b.NumberInStep
  snapshots : SnapshotsInStep rt b

section

variable {rt : StateRuntime} {b b' : Backend}

/-! ### The snapshots in store -/

section Snapshots

variable {id : U256} {num : UInt64} {db : CacheDb}

theorem Held.of_same (hsame : SameSnapshots b b') (h : b'.Held id num db) : b.Held id num db := by
  rw [Held, hsame.active, hsame.dbSnapshot] at h
  exact h

/-- What the database has left after a revert, it had before, and it is not among what it clears. -/
theorem Held.of_revertDb {b₁ : Backend} {id' : U256}
    (hactive : (b₁.revertDb id).2.activeStateSnapshots = b.activeStateSnapshots.erase id)
    (hsnapshots : b₁.db.stateSnapshots = b.db.stateSnapshots)
    (h : (b₁.revertDb id).2.Held id' num db) :
    b.Held id' num db ∧ ¬(id' = id ∨ id + 1 ≤ id' ∧ id' < b.nextId) := by
  rw [Held, hactive, HashMap.lookup_erase_ite, dbSnapshot_revertDb, dbSnapshot, hsnapshots] at h
  split at h
  · cases h.1
  · split at h
    · cases h.2
    · rename_i hleft
      exact ⟨h, hleft⟩

/-- Snapshots that were in store before stay good, if the chain goes up to them and has the same
hashes there. -/
theorem SnapshotsInStep.of_held (h : SnapshotsInStep rt b) (hordered : b'.Ordered)
    (hids : b'.nextId = b.nextId)
    (hheld : ∀ id num db, b'.Held id num db → b.Held id num db ∧ num ≤ b'.bestNumber)
    (hhashes : ∀ id num db n hash, b'.Held id num db → n ≤ num →
      b'.blockchain.hashes.lookup n = some hash → b.blockchain.hashes.lookup n = some hash) :
    SnapshotsInStep rt b' where
  ordered := hordered
  idsLeft := hids ▸ h.idsLeft
  below id num db hid := (hheld id num db hid).2
  rising id id' num num' db db' hid hid' :=
    h.rising id id' num num' db db' (hheld _ _ _ hid).1 (hheld _ _ _ hid').1
  answers id num db hid n hash hn hlook :=
    h.answers id num db (hheld _ _ _ hid).1 n hash hn (hhashes id num db n hash hid hn hlook)

theorem SnapshotsInStep.of_same (h : SnapshotsInStep rt b) (hordered : b'.Ordered)
    (hsame : SameSnapshots b b') (hbest : b'.bestNumber = b.bestNumber)
    (hhashes : ∀ n, b'.blockchain.hashes.lookup n = b.blockchain.hashes.lookup n) :
    SnapshotsInStep rt b' := by
  refine h.of_held hordered hsame.nextId (fun id num db hid => ⟨hid.of_same hsame, ?_⟩) ?_
  · rw [hbest]
    exact h.below id num db (hid.of_same hsame)
  · intro _ _ _ n hash _ _ hlook
    rw [← hhashes n, hlook]

/-- The copy that is taken answers what the database answers, at the highest height so far. -/
theorem SnapshotsInStep.snapshot (h : SnapshotsInStep rt b)
    (hagrees : AnswersHashes (rt.asRef b.db.inner) b.blockchain fun _ => True)
    (hleft : b.createStateSnapshot.2.nextId ≠ BitVec.allOnes 256) :
    SnapshotsInStep rt b.createStateSnapshot.2 := by
  have hheld : ∀ id num db, b.createStateSnapshot.2.Held id num db →
      id = b.nextId ∧ num = b.bestNumber ∧ db = b.db.inner ∨ id < b.nextId ∧ b.Held id num db := by
    intro id num db hid
    rw [Held, active_createStateSnapshot, dbSnapshot_createStateSnapshot] at hid
    by_cases heq : id = b.nextId
    · rw [if_pos heq, if_pos heq] at hid
      exact Or.inl ⟨heq, (Option.some.inj hid.1).symm, (Option.some.inj hid.2).symm⟩
    · rw [if_neg heq, if_neg heq] at hid
      exact Or.inr ⟨h.ordered.ids h.idsLeft id (Or.inl (Option.isSome_of_eq_some hid.2)), hid⟩
  have hstep : BackendStep rt.toRuntime b .snapshot b.createStateSnapshot.2 := rfl
  refine ⟨h.ordered.step hstep, hleft, ?_, ?_, ?_⟩
  · intro id num db hid
    rcases hheld id num db hid with ⟨-, rfl, -⟩ | ⟨-, hold⟩
    · exact UInt64.le_refl _
    · exact h.below id num db hold
  · intro id id' num num' db db' hid hid' hle
    rcases hheld id' num' db' hid' with ⟨-, rfl, -⟩ | ⟨hlt, hold'⟩
    · rcases hheld id num db hid with ⟨-, rfl, -⟩ | ⟨-, hold⟩
      · exact UInt64.le_refl _
      · exact h.below id num db hold
    · rcases hheld id num db hid with ⟨rfl, -, -⟩ | ⟨-, hold⟩
      · exact absurd hlt (BitVec.not_lt.mpr hle)
      · exact h.rising id id' num num' db db' hold hold' hle
  · intro id num db hid n hash hn hlook
    rcases hheld id num db hid with ⟨-, -, rfl⟩ | ⟨-, hold⟩
    · exact hagrees n hash trivial hlook
    · exact h.answers id num db hold n hash hn hlook

end Snapshots

/-! ### One request -/

/-- Only the tables, the snapshots and the two numbers are looked at. -/
theorem HashesInStep.of_eq (h : HashesInStep rt b)
    (hdb : SameBlockHashes rt.asRef b.db.inner b'.db.inner)
    (hhashes : ∀ n, b'.blockchain.hashes.lookup n = b.blockchain.hashes.lookup n)
    (hbest : b'.bestNumber = b.bestNumber) (hnumber : b'.NumberInStep)
    (hsame : SameSnapshots b b') : HashesInStep rt b' := by
  have hordered : b'.Ordered := by
    refine ⟨fun n hn => ?_, fun _ => hsame.idsIssued (h.snapshots.ordered.ids h.snapshots.idsLeft)⟩
    rw [hhashes] at hn
    show n ≤ b'.bestNumber
    rw [hbest]
    exact h.snapshots.ordered.heights n hn
  refine ⟨fun n hash _ hlook => ?_, hnumber, h.snapshots.of_same hordered hsame hbest hhashes⟩
  rw [hhashes] at hlook
  exact h.agrees.same hdb n hash trivial hlook

variable {ord : DbOrder} {now : UInt64}

theorem HashesInStep.mine (hreads : ∀ db, rt.asRef db = db.readThrough below)
    (hkeeps : rt.evm.KeepsBlockHashes rt.asRef) {txs : List PoolTransaction} (h : HashesInStep rt b)
    (hbest : b.bestNumber ≠ U64.max)
    (hstep : BackendStep rt.toRuntime b (.mine ord now txs) b') : HashesInStep rt b' := by
  have hordered := h.snapshots.ordered.step hstep
  obtain ⟨states, executed, inner, env, -, hexec, rfl⟩ := mine_eq hstep
  have hnumber := h.number.header_number hexec
  obtain ⟨hhashes, hnew, -⟩ := keepTransactions_heights
    (b.blockchain.insertBlock b.isEip3675 (U64.saturatingAdd b.bestNumber 1)
      (rt.evm.hashSlow executed.block.header) executed) b.transactionBlockKeeper
    (U64.saturatingAdd b.bestNumber 1)
  have hsame : SameBlockHashes rt.asRef b.db.inner inner := by
    obtain ⟨⟨executed', inner'⟩, hrun, heq⟩ := Option.map_eq_some_iff.mp hexec
    cases heq
    exact sameBlockHashes_execute hkeeps hrun
  have habove : ∀ id num db, b.Held id num db → num < U64.saturatingAdd b.bestNumber 1 := by
    intro id num db hid
    have hle := UInt64.le_iff_toNat_le.mp (h.snapshots.below id num db hid)
    rw [UInt64.lt_iff_toNat_lt, U64.toNat_saturatingAdd_one hbest]
    omega
  refine ⟨fun n hash _ hlook => ?_, h.number.mine hstep,
    h.snapshots.of_held hordered rfl (fun id num db hid => ⟨hid, ?_⟩) ?_⟩
  · dsimp only at hlook ⊢
    rw [hhashes, lookup_hashes_insertBlock] at hlook
    rw [blockHashRef_insertBlockHash hreads, hnumber]
    -- the new hash is written at the same number in both tables
    split at hlook
    · rename_i hn
      rw [if_pos hn]
      exact congrArg Except.ok (Option.some.inj hlook)
    · rename_i hn
      rw [if_neg hn]
      exact h.agrees.same hsame n hash trivial hlook
  · exact UInt64.le_trans (UInt64.le_of_lt (habove id num db hid)) (UInt64.le_of_eq hnew.symm)
  · -- no snapshot in store goes up to the new height
    intro id num db n hash hid hn hlook
    dsimp only at hlook
    rw [hhashes, lookup_hashes_insertBlock, if_neg] at hlook
    · exact hlook
    · rintro rfl
      exact absurd (habove id num db hid) (UInt64.not_lt.mpr hn)

theorem rollback_of_no_state {rt : Runtime} {readable : Bool} {depth : Option UInt64}
    (h : b.rollbackState rt ord readable depth = none) :
    (b.anvilRollback rt ord readable now depth).2.db = b.db ∧
      (b.anvilRollback rt ord readable now depth).2.blockchain = b.blockchain ∧
      (b.anvilRollback rt ord readable now depth).2.env = b.env := by
  unfold rollbackState at h
  unfold anvilRollback rollback
  dsimp only
  cases hheight : U64.checkedSub b.bestNumber (depth.getD 1) with
  | none => exact ⟨rfl, rfl, rfl⟩
  | some commonHeight =>
    cases hblock : b.getBlock commonHeight with
    | none =>
      dsimp only
      rw [hblock]
      exact ⟨rfl, rfl, rfl⟩
    | some commonBlock =>
      simp only [hheight, hblock, Option.bind_eq_bind, Option.bind_some] at h ⊢
      cases hmemory : b.states.getState (rt.evm.hashSlow commonBlock.header) with
      | some db =>
        rw [hmemory] at h
        cases h
      | none =>
        simp only [hmemory] at h ⊢
        rw [h]
        exact ⟨rfl, rfl, rfl⟩

theorem HashesInStep.revert {id : U256} (h : HashesInStep rt b) (hok : b.RevertKeepsHashes id) :
    HashesInStep rt (b.revertStateSnapshot rt.toRuntime now id).2 := by
  have hstep : BackendStep rt.toRuntime b (.revert now id)
      (b.revertStateSnapshot rt.toRuntime now id).2 := rfl
  have hordered := h.snapshots.ordered.step hstep
  have heffect := revertEffect rt.toRuntime now b id
  unfold RevertKeepsHashes at hok
  cases hactive : b.activeStateSnapshots.lookup id with
  | none =>
    rw [hactive] at hok
    have hsnap : (b.forgetActive id).dbSnapshot id = none := hok
    rw [revert_of_inactive hactive] at hordered heffect ⊢
    refine ⟨?_, h.number, h.snapshots.of_held hordered heffect.nextId (fun id' num db hid => ?_)
      fun _ _ _ _ _ _ _ hlook => hlook⟩
    · rw [revertDb_inner, hsnap]
      exact h.agrees
    · obtain ⟨hold, -⟩ := Held.of_revertDb heffect.active rfl hid
      exact ⟨hold, h.snapshots.below id' num db hold⟩
  | some taken =>
    obtain ⟨num, hash⟩ := taken
    rw [hactive] at hok
    obtain ⟨hcopy, hsurvives⟩ := hok
    obtain ⟨db, hdb⟩ := Option.isSome_iff_exists.mp hcopy
    have hid : b.Held id num db := ⟨by rw [hactive]; rfl, hdb⟩
    have hissued : id < b.nextId := h.snapshots.ordered.ids h.snapshots.idsLeft id (Or.inl hcopy)
    obtain ⟨block, -, hrevert⟩ := revert_of_survives hactive hsurvives
    rw [hrevert] at hordered heffect ⊢
    have hold : ∀ {n hash'}, (b.blockchain.revertTo num hash).hashes.lookup n = some hash' →
        n ≤ num ∧ b.blockchain.hashes.lookup n = some hash' := by
      intro n hash' hlook
      obtain ⟨hkept, hold⟩ := (unwound_revertTo b.blockchain num hash).hashes_eq_some hlook
      refine ⟨U64.le_of_not_add_one_le fun hlo => hkept ⟨hlo, ?_⟩, hold⟩
      exact h.snapshots.ordered.heights n (Option.isSome_of_eq_some hold)
    refine ⟨fun n hash' _ hlook => ?_, saturatingToU64_ofU64 num,
      h.snapshots.of_held hordered heffect.nextId (fun id' num' db' hid' => ?_)
        fun _ _ _ _ _ _ _ hlook => (hold hlook).2⟩
    · obtain ⟨hle, hlook⟩ := hold hlook
      rw [revertDb_inner, show (b.backAt rt.toRuntime now id num hash block.header).dbSnapshot id =
        some db from hdb]
      exact h.snapshots.answers id num db hid n hash' hle hlook
    · -- the database has the earlier snapshots only
      obtain ⟨hold', hleft⟩ := Held.of_revertDb heffect.active rfl hid'
      refine ⟨hold', h.snapshots.rising id' id num' num db' db hold' hid ?_⟩
      have hissued' : id' < b.nextId :=
        h.snapshots.ordered.ids h.snapshots.idsLeft id'
          (Or.inl (Option.isSome_of_eq_some hold'.2))
      refine BitVec.not_lt.mp fun hlt => hleft (Or.inr ⟨?_, hissued'⟩)
      rw [BitVec.le_def, toNat_add_one_of_lt hlt]
      exact BitVec.lt_def.mp hlt

variable {state : SerializableState}

/-- The numbers of the dump are those there are. -/
theorem HashesInStep.loadBest (h : HashesInStep rt b)
    (henv : ∀ blockEnv, state.block = some blockEnv →
      saturatingToU64 blockEnv.number = b.bestNumber)
    (hbest : ∀ number, state.bestBlockNumber = some number → number = b.bestNumber) :
    HashesInStep rt (b.loadBest state).2 := by
  unfold Backend.loadBest
  cases hblock : state.block with
  | none => exact h
  | some blockEnv =>
    have henv := henv blockEnv hblock
    have hnumber : state.bestBlockNumber.getD (saturatingToU64 blockEnv.number) =
        b.bestNumber := by
      cases hsome : state.bestBlockNumber with
      | none => exact henv
      | some number => exact hbest number hsome
    dsimp only
    split <;> exact h.of_eq (fun _ => rfl) (fun _ => rfl) hnumber (henv.trans hnumber.symm)
      ⟨rfl, rfl, rfl⟩

theorem HashesInStep.loadAccounts (hkeeps : rt.evm.KeepsBlockHashes rt.asRef)
    (h : HashesInStep rt b) {r : Except BlockchainError Bool}
    (hload : b.loadAccounts rt ord state = some (r, b')) : HashesInStep rt b' := by
  obtain ⟨hdb, hsnap⟩ := sameBlockHashes_loadAccounts hkeeps b.db
    (entries ascendingDbOrder.addresses state.accounts)
  unfold Backend.loadAccounts MemDb.loadState at hload
  generalize b.db.loadAccounts rt _ = res at hload hdb hsnap
  have hkept : ∀ states, HashesInStep rt { b with db := res.2, states := states } := fun _ =>
    h.of_eq hdb (fun _ => rfl) rfl h.number ⟨hsnap, rfl, rfl⟩
  rcases res with ⟨err | _ | _, db⟩
  · cases hload
    exact hkept _
  · cases hload
    exact hkept _
  · dsimp only at hload
    split at hload
    · cases hload
      exact hkept _
    · obtain ⟨states, -, heq⟩ := Option.map_eq_some_iff.mp hload
      cases heq
      exact hkept states

theorem HashesInStep.load (hkeeps : rt.evm.KeepsBlockHashes rt.asRef) (h : HashesInStep rt b)
    (hok : LoadKeepsHashes rt b state) (hstep : StateStep rt b (.load ord state) b') :
    HashesInStep rt b' := by
  obtain ⟨⟨r, b₂⟩, hload, rfl⟩ := Option.map_eq_some_iff.mp hstep
  obtain ⟨hhashes, hbest⟩ := heights_loadBlocks hok.blocks
  -- the chain with the blocks loaded, before anything else happens
  have hblocks : HashesInStep rt { b with
      blockchain := (b.blockchain.loadBlocks rt.evm.hashSlow state.blocks).loadTransactions
        state.transactions } :=
    h.of_eq (fun _ => rfl) hhashes hbest (h.number.trans hbest.symm) ⟨rfl, rfl, rfl⟩
  have henv : ∀ blockEnv, state.block = some blockEnv →
      Word.saturatingToU64 blockEnv.number = _ :=
    fun blockEnv hblock => (hok.env blockEnv hblock).trans hbest.symm
  have hloaded := hblocks.loadBest henv
    fun number hnumber => (hok.best number hnumber).trans hbest.symm
  rw [loadState] at hload
  generalize Backend.loadBest _ state = res at hload hloaded
  rcases res with ⟨err | _, b₁⟩
  · cases hload
    exact hloaded
  · have hfees : HashesInStep rt { b₁ with fees := b₁.loadFees rt state } :=
      hloaded.of_eq (fun _ => rfl) (fun _ => rfl) rfl hloaded.number ⟨rfl, rfl, rfl⟩
    exact hfees.loadAccounts hkeeps hload

theorem HashesInStep.step (hreads : ∀ db, rt.asRef db = db.readThrough below)
    (hkeeps : rt.evm.KeepsBlockHashes rt.asRef) {op : StateOp} (h : HashesInStep rt b)
    (hok : b.KeepsHashes rt op) (hstep : StateStep rt b op b') : HashesInStep rt b' := by
  cases op with
  | load ord state => exact h.load hkeeps hok hstep
  | request op =>
    cases op with
    | mine ord now txs => exact h.mine hreads hkeeps hok hstep
    | snapshot =>
      cases hstep
      exact ⟨h.agrees, h.number, h.snapshots.snapshot h.agrees hok⟩
    | revert now id =>
      cases hstep
      exact h.revert hok
    | rollback ord readable now depth =>
      obtain ⟨hsame, -⟩ := anvilRollback_cases hstep
      cases hstep
      obtain ⟨hdb, hchain, henv⟩ := rollback_of_no_state hok
      refine h.of_eq (fun n => by rw [hdb]) (fun n => by rw [hchain]) ?_ ?_ hsame
      · rw [bestNumber, hchain]
        rfl
      · rw [NumberInStep, henv, bestNumber, hchain]
        exact h.number

end

/-- **Block hashes.** In every run in which each request does no harm, the database answers
the hash that the chain has, at every number the chain has a hash for. -/
theorem blockHashes_agree_of_run (rt : StateRuntime) (below : DatabaseRef)
    (hreads : ∀ db, rt.asRef db = db.readThrough below) (hkeeps : rt.evm.KeepsBlockHashes rt.asRef)
    {ord : DbOrder} {now : UInt64} {g : Genesis} {b₀ b : Backend} {ops : List StateOp}
    (hgenesis : withGenesis rt.toRuntime ord now g = some b₀)
    (hrun : Run (Guarded (KeepsHashes rt) (StateStep rt)) b₀ ops b) {n : UInt64} {hash : B256}
    (hn : b.blockchain.hashes.lookup n = some hash) :
    (rt.asRef b.db.inner).blockHashRef n = .ok hash := by
  have hinv : HashesInStep rt b := by
    refine hrun.keeps ?_ ?_
    · have hordered := ordered_withGenesis hgenesis
      obtain ⟨states, -, rfl⟩ := Option.map_eq_some_iff.mp hgenesis
      -- there is no snapshot yet
      refine ⟨fun n hash _ hlook => ?_, saturatingToU64_ofU64 _, hordered, ?_, ?_, ?_, ?_⟩
      rotate_left
      · show (0 : U256) ≠ BitVec.allOnes 256
        decide
      · exact fun _ _ _ hid => nomatch hid.2
      · exact fun _ _ _ _ _ _ hid => nomatch hid.2
      · exact fun _ _ _ hid => nomatch hid.2
      obtain ⟨rfl, rfl⟩ := Consistent.lookup_hashes_ofGenesis.mp hlook
      exact (blockHashRef_insertBlockHash hreads _ _ _ _).trans (if_pos rfl)
    · exact fun h hstep => h.step hreads hkeeps hstep.1 hstep.2
  exact hinv.agrees n hash trivial hn

/-! ### Harmless requests, evaluated -/

/-- Heights by increasing number. -/
def ascendingHeights : IterOrder UInt64 := .sortedBy UInt64.toNat fun _ _ => UInt64.toNat_inj.mp

/-- `KeepsHashes`, as a test. -/
def keepsHashes? (rt : StateRuntime) (b : Backend) : StateOp → Bool
  | .request (.mine _ _ _) => b.bestNumber ≠ U64.max
  | .request .snapshot => b.createStateSnapshot.2.nextId ≠ BitVec.allOnes 256
  | .request (.revert _ id) =>
    match b.activeStateSnapshots.lookup id with
    | none => (b.dbSnapshot id).isNone
    | some (num, hash) => (b.dbSnapshot id).isSome && (b.blockchain.blocks.lookup hash).isSome &&
      (CacheDb.entries ascendingHeights b.blockchain.hashes).all fun (n, other) =>
        decide (num + 1 ≤ n → other ≠ hash)
  | .request (.rollback ord readable _ depth) =>
    (b.rollbackState rt.toRuntime ord readable depth).isNone
  | .load _ state =>
    (state.blocks.all fun block => decide (b.blockchain.hashes.lookup block.header.number =
      some (rt.evm.hashSlow block.header))) &&
    (state.block.all fun env => saturatingToU64 env.number == b.bestNumber) &&
    state.bestBlockNumber.all (· == b.bestNumber)

theorem keepsHashes_of_test {rt : StateRuntime} (b : Backend) (op : StateOp)
    (h : keepsHashes? rt b op = true) : b.KeepsHashes rt op := by
  cases op with
  | load ord state =>
    simp only [keepsHashes?, Bool.and_eq_true, List.all_eq_true, decide_eq_true_eq,
      Option.all_eq_true_iff_get, beq_iff_eq] at h
    refine ⟨h.1.1, fun blockEnv hblock => ?_, fun number hnumber => ?_⟩
    · simpa [hblock] using h.1.2
    · simpa [hnumber] using h.2
  | request op =>
    cases op with
    | mine ord now txs => exact (decide_eq_true_iff (p := _ ≠ _)).mp h
    | snapshot => exact (decide_eq_true_iff (p := _ ≠ _)).mp h
    | rollback ord readable now depth => exact Option.isNone_iff_eq_none.mp h
    | revert now id =>
      simp only [keepsHashes?] at h
      simp only [KeepsHashes, RevertKeepsHashes]
      cases hactive : b.activeStateSnapshots.lookup id with
      | none =>
        rw [hactive] at h
        exact Option.isNone_iff_eq_none.mp h
      | some taken =>
        rw [hactive] at h
        simp only [Bool.and_eq_true, List.all_eq_true, decide_eq_true_eq] at h
        refine ⟨h.1.1, h.1.2, fun n hlo _ hlook => ?_⟩
        exact h.2 (n, _) (mem_entries.mpr hlook) hlo rfl

/-- The sample runtime, over an empty database that makes up zero for every block hash. -/
def sampleStateRuntime : StateRuntime where
  toRuntime := sampleRuntime
  asRef db := db.readThrough (.emptyDbWrapper 0 fun _ => 0)
  newDb := .empty
  blobExcessGasAndPriceAt excess _ _ := ⟨excess, 1⟩

/-- Maps walked by increasing key. -/
def ascendingDumpOrder : DumpOrder where
  toDbOrder := ascendingDbOrder
  hashes := .sortedBy BitVec.toNat fun _ _ => BitVec.eq_of_toNat_eq

theorem sampleEvm_keepsBlockHashes : sampleEvm.KeepsBlockHashes sampleStateRuntime.asRef :=
  ⟨fun _ _ _ => rfl, fun _ _ _ _ => rfl, fun _ _ _ _ _ => rfl, fun _ _ _ _ => rfl⟩

/-- Requests, as long as they pass the test. -/
def execHarmless (b : Backend) (ops : List StateOp) : Option Backend :=
  ops.foldlM (fun b op =>
    if keepsHashes? sampleStateRuntime b op then b.execState sampleStateRuntime op else none) b

/-- The tables agree after a block was reverted, a rollback was too deep, another block was
mined and the chain was dumped and loaded again. -/
theorem blockHashes_agree_of_run_dumped :
    ∃ b₀ b ops hash, withGenesis sampleRuntime ascendingDbOrder 0 sampleGenesis = some b₀ ∧
      Run (Guarded (KeepsHashes sampleStateRuntime) (StateStep sampleStateRuntime)) b₀ ops b ∧
      b.blockchain.hashes.lookup 2 = some hash ∧
      (sampleStateRuntime.asRef b.db.inner).blockHashRef 2 = .ok hash := by
  let ops : List StateOp :=
    [.request (.mine ascendingDbOrder 10 []), .request .snapshot,
      .request (.mine ascendingDbOrder 20 []), .request (.revert 30 0),
      .request (.rollback ascendingDbOrder true 30 (some 5)),
      .request (.mine ascendingDbOrder 40 [])]
  have htest : ((withGenesis sampleRuntime ascendingDbOrder 0 sampleGenesis).bind fun b₀ =>
      (execHarmless b₀ ops).bind fun b₁ =>
      (b₁.serializedState sampleStateRuntime ascendingDumpOrder (fun _ => true) true).toOption.bind
        fun dump => (execHarmless b₁ [.load ascendingDbOrder dump]).map fun b =>
          (b.blockchain.hashes.lookup 2).isSome) = some true := by
    decide +kernel
  obtain ⟨b₀, hgenesis, htest⟩ := Option.bind_eq_some_iff.mp htest
  obtain ⟨b₁, hops, htest⟩ := Option.bind_eq_some_iff.mp htest
  obtain ⟨dump, -, htest⟩ := Option.bind_eq_some_iff.mp htest
  obtain ⟨b, hload, hsome⟩ := Option.map_eq_some_iff.mp htest
  obtain ⟨hash, hhash⟩ := Option.isSome_iff_exists.mp hsome
  have hrun : Run (Guarded (KeepsHashes sampleStateRuntime) (StateStep sampleStateRuntime)) b₀
      (ops ++ [.load ascendingDbOrder dump]) b :=
    (Run.guarded_of_foldlM keepsHashes_of_test hops).append
      (Run.guarded_of_foldlM keepsHashes_of_test hload)
  exact ⟨b₀, b, _, hash, hgenesis, hrun, hhash,
    blockHashes_agree_of_run sampleStateRuntime _ (fun _ => rfl) sampleEvm_keepsBlockHashes hgenesis
      hrun hhash⟩

/-- What the chain and the database have at a number. -/
def hashesAt (n : UInt64) (b : Backend) : Option B256 × Except DatabaseError B256 :=
  (b.blockchain.hashes.lookup n, (sampleStateRuntime.asRef b.db.inner).blockHashRef n)

/-- After a rollback the database knows no block hash, not even that of the genesis block;
and a chain that is dumped and loaded into a new node has its blocks, but the database of
that node does not know their hashes. -/
theorem rollback_and_load_lose_hashes :
    ((withGenesis sampleRuntime ascendingDbOrder 0 sampleGenesis).bind fun b₀ =>
      (b₀.execAll sampleRuntime [.mine ascendingDbOrder 10 [], .mine ascendingDbOrder 20 [],
        .rollback ascendingDbOrder true 30 none]).map (hashesAt 0)) = some (some 1, .ok 0) ∧
    ((withGenesis sampleRuntime ascendingDbOrder 0 sampleGenesis).bind fun b₀ =>
      (b₀.execAll sampleRuntime [.mine ascendingDbOrder 10 []]).bind fun b₁ =>
      (b₁.serializedState sampleStateRuntime ascendingDumpOrder (fun _ => true) true).toOption.bind
        fun dump => (b₀.execState sampleStateRuntime (.load ascendingDbOrder dump)).map
          (hashesAt 1)) = some (some (10 * 2 ^ 64 + 2), .ok 0) := by
  decide +kernel

end Backend

end BaseAnvil.Chain

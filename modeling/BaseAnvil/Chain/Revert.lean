import BaseAnvil.Chain.Exec
import BaseAnvil.Chain.Unwind

/-!
# BaseAnvil.Chain.Revert

When does a failed `evm_revert` leave everything as it was?

`evm_revert` first forgets which block the snapshot was taken at and rewinds the
chain to it, then resets clock and environment to that block, and only then asks
the database for the snapshot. It can fail after each of these steps, and nothing
is undone. The database also drops all later snapshots before it says that the one
asked for is not there. `RevertClean` says in terms of the state before the call
when none of this shows, and `revertAtomic_iff_clean` that these are all the cases.
-/

namespace BaseAnvil.Chain

open Lib BlockchainStorage
open Pool (B256)

/-! ### Going back to a block -/

/-- The block is stored, and not at a height that is dropped on the way to `num`. -/
structure Survives (s : BlockchainStorage) (num : UInt64) (hash : B256) : Prop where
  stored : (s.blocks.lookup hash).isSome
  not_above : ∀ n, num + 1 ≤ n → n ≤ s.bestNumber → s.hashes.lookup n ≠ some hash

/-- The block is the best one already and no height above it is in use. -/
structure Settled (s : BlockchainStorage) (num : UInt64) (hash : B256) : Prop where
  bestNumber : s.bestNumber = num
  bestHash : s.bestHash = hash
  above : ∀ n, num + 1 ≤ n → n ≤ s.bestNumber → s.hashes.lookup n = none

variable {num : UInt64} {hash : B256}

namespace BlockchainStorage

variable {s : BlockchainStorage}

theorem lookup_revertTo_of_survives (h : Survives s num hash) :
    (s.revertTo num hash).blocks.lookup hash = s.blocks.lookup hash := by
  refine (unwound_revertTo s num hash).blocks_keep hash ?_
  rintro ⟨n, ⟨hlo, hhi⟩, hn⟩
  exact h.not_above n hlo hhi hn

theorem lookup_revertTo_of_not_survives (h : ¬Survives s num hash) :
    (s.revertTo num hash).blocks.lookup hash = none := by
  have hun := unwound_revertTo s num hash
  by_cases hd : DropsBlock s (fun n => num + 1 ≤ n ∧ n ≤ s.bestNumber) hash
  · exact hun.blocks_of hash hd
  · rw [hun.blocks_keep hash hd]
    refine Option.not_isSome_iff_eq_none.mp fun hstored => h ⟨hstored, ?_⟩
    intro n hlo hhi hn
    exact hd ⟨n, ⟨hlo, hhi⟩, hn⟩

/-- A loop over heights that are not in use changes nothing. -/
theorem foldl_revertBlock_of_none {l : List UInt64} (h : ∀ n ∈ l, s.hashes.lookup n = none) :
    l.foldl revertBlock s = s := by
  induction l with
  | nil => rfl
  | cons n l ih =>
    have hn : s.revertBlock n = s := by simp [revertBlock, h n List.mem_cons_self]
    rw [List.foldl_cons, hn]
    exact ih fun m hm => h m (List.mem_cons_of_mem n hm)

theorem revertTo_of_settled (h : Settled s num hash) : s.revertTo num hash = s := by
  have hloop : (U64.range (num + 1) s.bestNumber).reverse.foldl revertBlock s = s := by
    refine foldl_revertBlock_of_none fun n hn => ?_
    obtain ⟨hlo, hhi⟩ := U64.mem_range.mp (List.mem_reverse.mp hn)
    exact h.above n hlo hhi
  rw [revertTo, hloop, ← h.bestNumber, ← h.bestHash]

/-- Going back shows in the height, in the hash or in the heights in use. -/
theorem settled_of_revertTo (hnumber : (s.revertTo num hash).bestNumber = s.bestNumber)
    (hbest : (s.revertTo num hash).bestHash = s.bestHash)
    (hhashes : (s.revertTo num hash).hashes = s.hashes) : Settled s num hash where
  bestNumber := hnumber.symm
  bestHash := hbest.symm
  above n hlo hhi := by
    rw [← hhashes]
    exact (unwound_revertTo s num hash).hashes_of n ⟨hlo, hhi⟩

end BlockchainStorage

theorem Settled.survives {s : BlockchainStorage}
    (h : Settled s num hash) (hstored : (s.blocks.lookup hash).isSome) : Survives s num hash where
  stored := hstored
  not_above n hlo hhi := by simp [h.above n hlo hhi]

/-! ### What `evm_revert` returns -/

namespace Backend

/-- The database snapshot with the given id. -/
def dbSnapshot (b : Backend) (id : U256) : Option CacheDb := b.db.stateSnapshots.get id

/-- The snapshot can be reverted to: the database has it, and if the backend still
knows the block it was taken at, that block survives going back to it. -/
structure Usable (b : Backend) (id : U256) : Prop where
  dbSnapshot : (b.dbSnapshot id).isSome
  survives : ∀ num hash, b.activeStateSnapshots.lookup id = some (num, hash) →
    Survives b.blockchain num hash

variable {b : Backend} {id : U256}

theorem revertDb_fst : (b.revertDb id).1 = .ok (b.dbSnapshot id).isSome :=
  congrArg Except.ok (MemDb.revertState_fst b.db id)

/-- After the database was asked, it has the earlier snapshots only. -/
theorem dbSnapshot_revertDb (k : U256) :
    (b.revertDb id).2.dbSnapshot k =
      if k = id ∨ (id + 1 ≤ k ∧ k < b.db.stateSnapshots.id) then none else b.dbSnapshot k := by
  show (b.db.revertState id .revertRemove).2.stateSnapshots.get k = _
  rw [MemDb.revertState_stateSnapshots, StateSnapshots.get_remove]
  rfl

theorem revertDb_inner : (b.revertDb id).2.db.inner = (b.dbSnapshot id).getD b.db.inner :=
  MemDb.revertState_inner b.db id

/-- The backend without the record of the block of a snapshot. -/
def forgetActive (b : Backend) (id : U256) : Backend :=
  { b with activeStateSnapshots := b.activeStateSnapshots.erase id }

/-- The backend on its way back to a block that is stored. -/
def backAt (rt : Runtime) (now : UInt64) (b : Backend) (id : U256) (num : UInt64) (hash : B256)
    (header : Header) : Backend :=
  { b.forgetActive id with
    blockchain := b.blockchain.revertTo num hash
    time := b.time.reset now header.timestamp
    env := { b.env with blockEnv := revertEnv rt b.env.blockEnv num header } }

theorem revert_of_inactive (h : b.activeStateSnapshots.lookup id = none) :
    b.revertStateSnapshot rt now id = (b.forgetActive id).revertDb id := by
  rw [revertStateSnapshot, h]
  rfl

theorem revert_of_lost (h : b.activeStateSnapshots.lookup id = some (num, hash))
    (hlost : ¬Survives b.blockchain num hash) :
    b.revertStateSnapshot rt now id = (.error .blockNotFound,
      { b.forgetActive id with blockchain := b.blockchain.revertTo num hash }) := by
  rw [revertStateSnapshot, h]
  dsimp only
  rw [blockByHash, lookup_revertTo_of_not_survives hlost]
  rfl

theorem revert_of_survives (h : b.activeStateSnapshots.lookup id = some (num, hash))
    (hs : Survives b.blockchain num hash) :
    ∃ block, b.blockchain.blocks.lookup hash = some block ∧
      b.revertStateSnapshot rt now id = (backAt rt now b id num hash block.header).revertDb id := by
  obtain ⟨block, hblock⟩ := Option.isSome_iff_exists.mp hs.stored
  refine ⟨block, hblock, ?_⟩
  rw [revertStateSnapshot, h]
  dsimp only
  rw [blockByHash, lookup_revertTo_of_survives hs, hblock]
  rfl

/-- A snapshot is usable exactly if reverting to it succeeds. -/
theorem usable_iff (rt : Runtime) (now : UInt64) :
    b.Usable id ↔ (b.revertStateSnapshot rt now id).1 = .ok true := by
  cases hact : b.activeStateSnapshots.lookup id with
  | none =>
    rw [revert_of_inactive hact, revertDb_fst]
    constructor
    · intro h
      exact congrArg Except.ok h.dbSnapshot
    · intro h
      refine ⟨Except.ok.inj h, fun num hash hsome => ?_⟩
      rw [hact] at hsome
      cases hsome
  | some at_ =>
    obtain ⟨num, hash⟩ := at_
    by_cases hs : Survives b.blockchain num hash
    · obtain ⟨block, -, hrev⟩ := revert_of_survives hact hs
      rw [hrev, revertDb_fst]
      constructor
      · intro h
        exact congrArg Except.ok h.dbSnapshot
      · intro h
        refine ⟨Except.ok.inj h, fun num' hash' hsome => ?_⟩
        obtain ⟨rfl, rfl⟩ := Prod.mk.inj (Option.some.inj (hact.symm.trans hsome))
        exact hs
    · rw [revert_of_lost hact hs]
      constructor
      · intro h
        exact absurd (h.survives num hash hact) hs
      · intro h
        cases h

/-! ### Atomicity -/

/-- The same chain, block environment and clock. -/
structure SameBlock (b b' : Backend) : Prop where
  bestNumber : b'.blockchain.bestNumber = b.blockchain.bestNumber
  bestHash : b'.blockchain.bestHash = b.blockchain.bestHash
  blocks : b'.blockchain.blocks = b.blockchain.blocks
  hashes : b'.blockchain.hashes = b.blockchain.hashes
  transactions : b'.blockchain.transactions = b.blockchain.transactions
  blockEnv : b'.env.blockEnv = b.env.blockEnv
  time : b'.time = b.time

/-- What a failed revert has to leave alone: the chain, the block environment, the
clock, the accounts and the other snapshots that can still be used. -/
structure Untouched (id : U256) (b b' : Backend) : Prop extends SameBlock b b' where
  accounts : b'.db.inner = b.db.inner
  snapshots : ∀ k, k ≠ id → b.Usable k →
    b'.activeStateSnapshots.lookup k = b.activeStateSnapshots.lookup k ∧
      b'.dbSnapshot k = b.dbSnapshot k

/-- Unless `evm_revert` succeeds, it leaves everything alone. -/
def RevertAtomic (rt : Runtime) (now : UInt64) (id : U256) (b : Backend) : Prop :=
  (b.revertStateSnapshot rt now id).1 ≠ .ok true →
    Untouched id b (b.revertStateSnapshot rt now id).2

/-- No snapshot in the range the database clears can be used. -/
def NoneLater (b : Backend) (id : U256) : Prop :=
  ∀ k, id + 1 ≤ k → k < b.db.stateSnapshots.id → ¬b.Usable k

/-- Clock and block environment are those of the block already. -/
structure ResetTo (rt : Runtime) (now : UInt64) (b : Backend) (num : UInt64) (header : Header) :
    Prop where
  number : b.env.blockEnv.number = Word.ofU64 256 num
  timestamp : b.env.blockEnv.timestamp = Word.ofU64 256 header.timestamp
  difficulty : b.env.blockEnv.difficulty = header.difficulty
  prevrandao : b.env.blockEnv.prevrandao = some header.mixHash
  gasLimit : b.env.blockEnv.gasLimit = header.gasLimit
  blob : b.env.blockEnv.blobExcessGasAndPrice = rt.defaultBlob
  lastTimestamp : b.time.lastTimestamp = header.timestamp
  offset : b.time.offset = (header.timestamp.toNat : Int) - now.toNat
  nextExactTimestamp : b.time.nextExactTimestamp = none

/-- The states in which `evm_revert` either succeeds or has nothing to damage.

* The block of the snapshot is not on record: the database has the snapshot, or no
  later one can be used.
* It is on record: it survives and the database has the snapshot, or the chain is
  at that block already and, if the block is stored, so are clock and environment,
  and no later snapshot can be used. -/
def RevertClean (rt : Runtime) (now : UInt64) (id : U256) (b : Backend) : Prop :=
  match b.activeStateSnapshots.lookup id with
  | none => (b.dbSnapshot id).isSome ∨ b.NoneLater id
  | some (num, hash) =>
    (Survives b.blockchain num hash ∧ (b.dbSnapshot id).isSome) ∨
    (Settled b.blockchain num hash ∧ ∀ block, b.blockchain.blocks.lookup hash = some block →
      ResetTo rt now b num block.header ∧ b.NoneLater id)

variable {now : UInt64}

/-- The clock after a reset is the clock before, if it shows the block already. -/
theorem reset_eq_iff {t : TimeManager} {start : UInt64} :
    t.reset now start = t ↔ t.lastTimestamp = start ∧
      t.offset = (start.toNat : Int) - now.toNat ∧ t.nextExactTimestamp = none := by
  rw [TimeManager.ext_iff]
  simp only [TimeManager.reset]
  constructor
  · rintro ⟨hoffset, hlast, hexact, -⟩
    exact ⟨hlast.symm, hoffset.symm, hexact.symm⟩
  · rintro ⟨hlast, hoffset, hexact⟩
    exact ⟨hoffset.symm, hlast.symm, hexact.symm, trivial⟩

variable {rt : Runtime} {header : Header}

theorem revertEnv_eq_iff {env : BlockEnv} :
    revertEnv rt env num header = env ↔ env.number = Word.ofU64 256 num ∧
      env.timestamp = Word.ofU64 256 header.timestamp ∧ env.difficulty = header.difficulty ∧
      env.prevrandao = some header.mixHash ∧ env.gasLimit = header.gasLimit ∧
      env.blobExcessGasAndPrice = rt.defaultBlob := by
  rw [BlockEnv.ext_iff]
  simp only [revertEnv]
  constructor
  · rintro ⟨hnum, -, hts, hgas, -, hdiff, hrand, hblob⟩
    exact ⟨hnum.symm, hts.symm, hdiff.symm, hrand.symm, hgas.symm, hblob.symm⟩
  · rintro ⟨hnum, hts, hdiff, hrand, hgas, hblob⟩
    exact ⟨hnum.symm, trivial, hts.symm, hgas.symm, trivial, hdiff.symm, hrand.symm, hblob.symm⟩

/-- Asking the database for a snapshot it lacks harms the usable later ones, and
only those. -/
theorem snapshots_kept_iff {b₁ : Backend}
    (hact : b₁.activeStateSnapshots = b.activeStateSnapshots.erase id) (hdb : b₁.db = b.db) :
    (∀ k, k ≠ id → b.Usable k →
      (b₁.revertDb id).2.activeStateSnapshots.lookup k = b.activeStateSnapshots.lookup k ∧
        (b₁.revertDb id).2.dbSnapshot k = b.dbSnapshot k) ↔ b.NoneLater id := by
  have hsnap : ∀ k, (b₁.revertDb id).2.dbSnapshot k =
      if k = id ∨ (id + 1 ≤ k ∧ k < b.db.stateSnapshots.id) then none else b.dbSnapshot k := by
    intro k
    rw [dbSnapshot_revertDb, dbSnapshot, dbSnapshot, hdb]
  constructor
  · intro h k hlo hhi hk
    have hne : k ≠ id := by
      rintro rfl
      have hsucc := Word.toNat_add_one_of_lt hhi
      rw [BitVec.le_def] at hlo
      omega
    have hgone := (h k hne hk).2
    rw [hsnap, if_pos (Or.inr ⟨hlo, hhi⟩)] at hgone
    have hsome := hk.dbSnapshot
    rw [← hgone] at hsome
    cases hsome
  · intro h k hne hk
    constructor
    · show b₁.activeStateSnapshots.lookup k = _
      rw [hact]
      exact (HashMap.lookup_erase_ite _ _ _).trans (if_neg hne)
    · rw [hsnap, if_neg]
      rintro (rfl | ⟨hlo, hhi⟩)
      · exact hne rfl
      · exact h k hlo hhi hk

/-- When the database lacks the snapshot, what shows is what was done before it was
asked, and the usable snapshots it dropped. -/
theorem untouched_revertDb_iff (b₁ : Backend)
    (hact : b₁.activeStateSnapshots = b.activeStateSnapshots.erase id) (hdb : b₁.db = b.db)
    (hnone : b.dbSnapshot id = none) :
    Untouched id b (b₁.revertDb id).2 ↔ SameBlock b b₁ ∧ b.NoneLater id := by
  have hsnap : b₁.dbSnapshot id = none := by rw [dbSnapshot, hdb, ← dbSnapshot, hnone]
  constructor
  · intro h
    exact ⟨⟨h.bestNumber, h.bestHash, h.blocks, h.hashes, h.transactions, h.blockEnv, h.time⟩,
      (snapshots_kept_iff hact hdb).mp h.snapshots⟩
  · rintro ⟨⟨hnumber, hbest, hblocks, hhashes, htxs, henv, htime⟩, hlater⟩
    refine ⟨⟨hnumber, hbest, hblocks, hhashes, htxs, henv, htime⟩, ?_,
      (snapshots_kept_iff hact hdb).mpr hlater⟩
    rw [revertDb_inner, hsnap, Option.getD_none, hdb]

/-- Going back to a stored block shows, unless everything is at that block already. -/
theorem sameBlock_backAt_iff :
    SameBlock b (backAt rt now b id num hash header) ↔
      Settled b.blockchain num hash ∧ ResetTo rt now b num header := by
  constructor
  · intro h
    obtain ⟨hnum, hts, hdiff, hrand, hgas, hblob⟩ := revertEnv_eq_iff.mp h.blockEnv
    obtain ⟨hlast, hoffset, hexact⟩ := reset_eq_iff.mp h.time
    exact ⟨settled_of_revertTo h.bestNumber h.bestHash h.hashes,
      ⟨hnum, hts, hdiff, hrand, hgas, hblob, hlast, hoffset, hexact⟩⟩
  · rintro ⟨hset, hr⟩
    have hchain : (backAt rt now b id num hash header).blockchain = b.blockchain :=
      revertTo_of_settled hset
    refine ⟨by rw [hchain], by rw [hchain], by rw [hchain], by rw [hchain], by rw [hchain], ?_, ?_⟩
    · exact revertEnv_eq_iff.mpr
        ⟨hr.number, hr.timestamp, hr.difficulty, hr.prevrandao, hr.gasLimit, hr.blob⟩
    · exact reset_eq_iff.mpr ⟨hr.lastTimestamp, hr.offset, hr.nextExactTimestamp⟩

/-- A revert that comes to the database leaves everything alone if the database has the snapshot,
or if nothing shows. -/
theorem revertAtomic_iff_of_revertDb {b₁ : Backend}
    (hrev : b.revertStateSnapshot rt now id = b₁.revertDb id)
    (hact : b₁.activeStateSnapshots = b.activeStateSnapshots.erase id) (hdb : b₁.db = b.db) :
    RevertAtomic rt now id b ↔ (b.dbSnapshot id).isSome ∨ SameBlock b b₁ ∧ b.NoneLater id := by
  have hfst : (b₁.revertDb id).1 = .ok (b.dbSnapshot id).isSome := by
    rw [revertDb_fst, dbSnapshot, hdb, ← dbSnapshot]
  rw [RevertAtomic, hrev, hfst]
  cases hsnap : b.dbSnapshot id with
  | some snapshot => simp
  | none =>
    rw [untouched_revertDb_iff b₁ hact hdb hsnap]
    simp

theorem revertAtomic_iff_of_inactive (hact : b.activeStateSnapshots.lookup id = none) :
    RevertAtomic rt now id b ↔ (b.dbSnapshot id).isSome ∨ b.NoneLater id := by
  have hsame : SameBlock b (b.forgetActive id) := ⟨rfl, rfl, rfl, rfl, rfl, rfl, rfl⟩
  rw [revertAtomic_iff_of_revertDb (revert_of_inactive hact) rfl rfl, and_iff_right hsame]

theorem revertAtomic_iff_of_lost (hact : b.activeStateSnapshots.lookup id = some (num, hash))
    (hlost : ¬Survives b.blockchain num hash) :
    RevertAtomic rt now id b ↔ Settled b.blockchain num hash := by
  rw [RevertAtomic, revert_of_lost hact hlost]
  constructor
  · intro h
    have hun := h (by simp)
    exact settled_of_revertTo hun.bestNumber hun.bestHash hun.hashes
  · intro hset _
    rw [revertTo_of_settled hset]
    refine ⟨⟨rfl, rfl, rfl, rfl, rfl, rfl, rfl⟩, rfl, fun k hne _ => ⟨?_, rfl⟩⟩
    exact (HashMap.lookup_erase_ite _ _ _).trans (if_neg hne)

theorem revertAtomic_iff_of_survives (hact : b.activeStateSnapshots.lookup id = some (num, hash))
    (hs : Survives b.blockchain num hash) :
    RevertAtomic rt now id b ↔ (b.dbSnapshot id).isSome ∨
      (Settled b.blockchain num hash ∧ ∀ block, b.blockchain.blocks.lookup hash = some block →
        ResetTo rt now b num block.header ∧ b.NoneLater id) := by
  obtain ⟨block, hblock, hrev⟩ := revert_of_survives hact hs
  rw [revertAtomic_iff_of_revertDb hrev rfl rfl, sameBlock_backAt_iff]
  simp [hblock, and_assoc]

/-- **Atomicity of a revert.** Unless it returns `true`, `evm_revert` has to leave the chain, the
clock, the accounts and the other usable snapshots as they are. It does so exactly in the clean
states: the chain is rewound before it is known whether the database has the snapshot, and the
database drops the later snapshots in any case. -/
theorem revertAtomic_iff_clean (rt : Runtime) (now : UInt64) (id : U256) (b : Backend) :
    RevertAtomic rt now id b ↔ RevertClean rt now id b := by
  rw [RevertClean]
  cases hact : b.activeStateSnapshots.lookup id with
  | none => exact revertAtomic_iff_of_inactive hact
  | some taken =>
    obtain ⟨num, hash⟩ := taken
    by_cases hs : Survives b.blockchain num hash
    · simp [revertAtomic_iff_of_survives hact hs, hs]
    · -- a block that is lost although the chain is at it is not stored
      rw [revertAtomic_iff_of_lost hact hs]
      simp only [hs, false_and, false_or, iff_self_and]
      intro hset block hblock
      exact absurd (hset.survives (by simp [hblock])) hs

/-- A snapshot taken and used up, then a second one. Reverting to the first again
fails, and with it the second is gone. -/
theorem used_up_revert_drops_later :
    ∃ ops b, BackendRun sampleRuntime ops b ∧
      (b.revertStateSnapshot sampleRuntime 0 0).1 = .ok false ∧
      b.Usable 1 ∧ ¬(b.revertStateSnapshot sampleRuntime 0 0).2.Usable 1 := by
  obtain ⟨b, hrun, hfail, huse, hgone⟩ := run_of_sample [.snapshot, .revert 0 0, .snapshot]
    (fun b => (b.revertStateSnapshot sampleRuntime 0 0).1 = .ok false ∧
      (b.revertStateSnapshot sampleRuntime 0 1).1 = .ok true ∧
      ((b.revertStateSnapshot sampleRuntime 0 0).2.revertStateSnapshot sampleRuntime 0 1).1 ≠
        .ok true) (by decide +kernel)
  refine ⟨_, b, hrun, hfail, (usable_iff sampleRuntime 0).mpr huse, ?_⟩
  intro h
  exact hgone ((usable_iff sampleRuntime 0).mp h)

end Backend

end BaseAnvil.Chain

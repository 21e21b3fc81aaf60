import BaseAnvil.Chain.Frame

/-!
# BaseAnvil.Chain.Restore

When does a successful `evm_revert` bring back the state of the snapshot?

The database gets back a copy, so it is right whenever the copy is still there. The
chain is brought back by dropping the heights above that of the snapshot, so it is
right as long as the chain of the snapshot is what is left when they are dropped:
`Unwound b (s.bestNumber < ·) s`. Mining a new block keeps this, dropping heights
above the snapshot keeps it, and the snapshots taken meanwhile are at heights where
going back to them keeps it too. It breaks when the chain is rolled back below the
snapshot, by `anvil_rollback` or by an `evm_revert` that fails half way, since the
database goes on to have the copy.
-/

namespace BaseAnvil.Chain

open Lib BlockchainStorage HashMap U64 Word StateSnapshots
open Pool (B256 PoolTransaction)

/-! ### Heights and ids of every run -/

/-- No height above the best one is in use. -/
def HeightsBounded (s : BlockchainStorage) : Prop :=
  ∀ n, (s.hashes.lookup n).isSome → n ≤ s.bestNumber

theorem HeightsBounded.unwound {s t : BlockchainStorage} (h : HeightsBounded s)
    (hun : Unwound s (fun n => t.bestNumber + 1 ≤ n ∧ n ≤ s.bestNumber) t) : HeightsBounded t := by
  intro n hn
  by_cases hR : t.bestNumber + 1 ≤ n ∧ n ≤ s.bestNumber
  · rw [hun.hashes_of n hR] at hn
    cases hn
  · rw [hun.hashes_keep n hR] at hn
    exact le_of_not_add_one_le fun hlo => hR ⟨hlo, h n hn⟩

theorem HeightsBounded.insertBlock {s : BlockchainStorage} (h : HeightsBounded s) (flag : Bool)
    (hash : B256) (executed : ExecutedTransactions) :
    HeightsBounded (s.insertBlock flag (saturatingAdd s.bestNumber 1) hash executed) := by
  intro n hn
  change ((s.hashes.insert (saturatingAdd s.bestNumber 1) hash).lookup n).isSome at hn
  show n ≤ saturatingAdd s.bestNumber 1
  rw [lookup_insert_ite] at hn
  split at hn
  · rename_i heq
    rw [heq]
    exact UInt64.le_refl _
  · exact UInt64.le_trans (h n hn) (le_saturatingAdd _ _)

variable {rt : Runtime} {b b' s : Backend} {id : U256} {now : UInt64} {ord : DbOrder} {k : U256}
  {ops : List BackendOp} {op : BackendOp}

namespace Backend

/-- The id of the next snapshot. -/
def nextId (b : Backend) : U256 := b.db.stateSnapshots.id

/-- Every snapshot has an id that was handed out. -/
def IdsIssued (b : Backend) : Prop :=
  ∀ k, (b.dbSnapshot k).isSome ∨ (b.activeStateSnapshots.lookup k).isSome → k < b.nextId

/-- `evm_revert` hands out no id, adds no snapshot, and leaves the chain or goes
back to the block of the snapshot. -/
structure RevertEffect (b : Backend) (id : U256) (b' : Backend) : Prop where
  nextId : b'.nextId = b.nextId
  keeper : b'.transactionBlockKeeper = b.transactionBlockKeeper
  dbSnapshot : ∀ k, (b'.dbSnapshot k).isSome → (b.dbSnapshot k).isSome
  active : b'.activeStateSnapshots = b.activeStateSnapshots.erase id
  chain : b'.blockchain = b.blockchain ∨ ∃ num hash,
    b.activeStateSnapshots.lookup id = some (num, hash) ∧
      b'.blockchain = b.blockchain.revertTo num hash

theorem nextId_revertDb : (b.revertDb id).2.nextId = b.nextId := by
  show (b.db.revertState id .revertRemove).2.stateSnapshots.id = _
  rw [MemDb.revertState_stateSnapshots, remove_id]
  rfl

theorem isSome_of_revertDb (h : ((b.revertDb id).2.dbSnapshot k).isSome) :
    (b.dbSnapshot k).isSome := by
  rw [dbSnapshot_revertDb] at h
  split at h
  · cases h
  · exact h

theorem revertEffect (rt : Runtime) (now : UInt64) (b : Backend) (id : U256) :
    RevertEffect b id (b.revertStateSnapshot rt now id).2 := by
  cases hact : b.activeStateSnapshots.lookup id with
  | none =>
    rw [revert_of_inactive hact]
    exact ⟨nextId_revertDb, rfl, fun k hk => isSome_of_revertDb hk, rfl, Or.inl rfl⟩
  | some taken =>
    obtain ⟨num, hash⟩ := taken
    by_cases hs : Survives b.blockchain num hash
    · obtain ⟨block, -, hrev⟩ := revert_of_survives hact hs
      rw [hrev]
      exact ⟨nextId_revertDb, rfl, fun k hk => isSome_of_revertDb hk, rfl,
        Or.inr ⟨num, hash, hact, rfl⟩⟩
    · rw [revert_of_lost hact hs]
      exact ⟨rfl, rfl, fun k hk => hk, rfl, Or.inr ⟨num, hash, hact, rfl⟩⟩

/-- What holds in every state reached: heights are bounded, and so are ids as long
as there are ids left. -/
structure Ordered (b : Backend) : Prop where
  heights : HeightsBounded b.blockchain
  ids : b.nextId ≠ BitVec.allOnes 256 → b.IdsIssued

theorem SameSnapshots.nextId (h : SameSnapshots b b') : b'.nextId = b.nextId :=
  congrArg StateSnapshots.id h.table

theorem SameSnapshots.dbSnapshot (h : SameSnapshots b b') (k : U256) :
    b'.dbSnapshot k = b.dbSnapshot k :=
  congrArg (fun t => t.get k) h.table

theorem SameSnapshots.idsIssued (h : SameSnapshots b b') (hids : b.IdsIssued) : b'.IdsIssued := by
  intro k hk
  rw [h.nextId]
  rw [h.dbSnapshot, h.active] at hk
  exact hids k hk

theorem nextId_createStateSnapshot :
    b.createStateSnapshot.2.nextId = saturatingAdd b.nextId 1 := rfl

theorem dbSnapshot_createStateSnapshot :
    b.createStateSnapshot.2.dbSnapshot k =
      if k = b.nextId then some b.db.inner else b.dbSnapshot k :=
  get_insert _ _

theorem active_createStateSnapshot (b : Backend) :
    b.createStateSnapshot.2.activeStateSnapshots.lookup k =
      if k = b.nextId then some (b.bestNumber, b.bestHash)
      else b.activeStateSnapshots.lookup k :=
  lookup_insert_ite _ _ _ _

theorem IdsIssued.createStateSnapshot (h : b.IdsIssued) (hne : b.nextId ≠ BitVec.allOnes 256) :
    b.createStateSnapshot.2.IdsIssued := by
  intro k hk
  have hsucc := toNat_saturatingAdd_one hne
  rw [nextId_createStateSnapshot, BitVec.lt_def, hsucc]
  rw [dbSnapshot_createStateSnapshot, active_createStateSnapshot] at hk
  by_cases heq : k = b.nextId
  · rw [heq]
    omega
  · rw [if_neg heq, if_neg heq] at hk
    have hlt := BitVec.lt_def.mp (h k hk)
    omega

theorem RevertEffect.idsIssued (h : RevertEffect b id b') (hids : b.IdsIssued) : b'.IdsIssued := by
  intro k hk
  rw [h.nextId]
  refine hids k (hk.imp (h.dbSnapshot k) fun hact => ?_)
  rw [h.active, lookup_erase_ite] at hact
  split at hact
  · cases hact
  · exact hact

theorem RevertEffect.heights (h : RevertEffect b id b') (hb : HeightsBounded b.blockchain) :
    HeightsBounded b'.blockchain := by
  rcases h.chain with hsame | ⟨num, hash, -, hrev⟩
  · rw [hsame]
    exact hb
  · rw [hrev]
    exact hb.unwound (unwound_revertTo b.blockchain num hash)

theorem heights_keepTransactions {t : BlockchainStorage} (h : HeightsBounded t)
    (keeper : Option UInt64) (number : UInt64) :
    HeightsBounded (t.keepTransactions keeper number) := by
  obtain ⟨hhashes, hbest, -⟩ := t.keepTransactions_heights keeper number
  intro n hn
  rw [hhashes] at hn
  rw [hbest]
  exact h n hn

theorem Ordered.step (h : b.Ordered) (hstep : BackendStep rt b op b') : b'.Ordered := by
  cases op with
  | mine ord now txs =>
    obtain ⟨executed, inner, env, -, hchain, hsame⟩ := mine_cases hstep
    refine ⟨?_, fun hne => hsame.idsIssued (h.ids (hsame.nextId ▸ hne))⟩
    rw [hchain]
    exact heights_keepTransactions (h.heights.insertBlock _ _ _) _ _
  | snapshot =>
    cases hstep
    refine ⟨h.heights, fun hne => ?_⟩
    have hold : b.nextId ≠ BitVec.allOnes 256 := by
      intro hmax
      apply hne
      rw [nextId_createStateSnapshot, hmax]
      rfl
    exact (h.ids hold).createStateSnapshot hold
  | revert now id =>
    cases hstep
    have heff := revertEffect rt now b id
    exact ⟨heff.heights h.heights, fun hne => heff.idsIssued (h.ids (heff.nextId ▸ hne))⟩
  | rollback ord readable now depth =>
    obtain ⟨hsame, hchain⟩ := anvilRollback_cases hstep
    refine ⟨?_, fun hne => hsame.idsIssued (h.ids (hsame.nextId ▸ hne))⟩
    rcases hchain with hsame | ⟨_, commonBlock, -, -, hunwind⟩
    · rw [hsame]
      exact h.heights
    · rw [hunwind]
      exact h.heights.unwound (unwound_unwindTo b.blockchain _ _)

theorem ordered_withGenesis {g : Genesis} (h : withGenesis rt ord now g = some b) : b.Ordered := by
  obtain ⟨states, -, rfl⟩ := Option.map_eq_some_iff.mp h
  refine ⟨fun n hn => ?_, fun _ k hk => ?_⟩
  · change ((Finmap.singleton g.number _).lookup n).isSome at hn
    show n ≤ g.number
    by_cases heq : n = g.number
    · rw [heq]
      exact UInt64.le_refl _
    · rw [Finmap.lookup_eq_none.mpr (by simpa using heq)] at hn
      cases hn
  · rcases hk with hk | hk <;> cases hk

theorem ordered_of_run (h : BackendRun rt ops b) : b.Ordered := by
  obtain ⟨ord, now, g, b₀, hgenesis, hrun⟩ := h
  exact hrun.keeps (ordered_withGenesis hgenesis) Ordered.step

end Backend

/-! ### The chain of the snapshot under the current one -/

/-- The chain `t` goes on from `s`: without the heights above `s`, it is `s`. -/
structure Extends (s t : BlockchainStorage) : Prop where
  best_le : s.bestNumber ≤ t.bestNumber
  best_ne : t.bestNumber ≠ U64.max
  heights : HeightsBounded t
  below : Unwound t (s.bestNumber < ·) s

namespace Extends

variable {s t u : BlockchainStorage}

theorem refl (h : HeightsBounded s) (hne : s.bestNumber ≠ U64.max) : Extends s s where
  best_le := UInt64.le_refl _
  best_ne := hne
  heights := h
  below := (Unwound.refl s).congr_used fun n hn =>
    ⟨False.elim, fun hlt => absurd (h n hn) (UInt64.not_le.mpr hlt)⟩

variable (h : Extends s t)
include h

/-- Dropping heights above the snapshot. -/
theorem unwound (hun : Unwound t (fun n => u.bestNumber + 1 ≤ n ∧ n ≤ t.bestNumber) u)
    (hle : s.bestNumber ≤ u.bestNumber) (hne : u.bestNumber ≠ U64.max) :
    Extends s u where
  best_le := hle
  best_ne := hne
  heights := h.heights.unwound hun
  below := h.below.rest hun fun _ hn =>
    UInt64.lt_of_le_of_lt hle ((add_one_le_iff hne).mp hn.1)

/-- A height above the best one names nothing. -/
theorem lookup_next : t.hashes.lookup (saturatingAdd t.bestNumber 1) = none := by
  refine Option.not_isSome_iff_eq_none.mp fun hused => ?_
  have hle := h.heights _ hused
  rw [UInt64.le_iff_toNat_le, toNat_saturatingAdd_one h.best_ne] at hle
  omega

/-- A new block on top: its hash is new, and its transactions are not among those of
the snapshot. -/
theorem insertBlock {flag : Bool} {hash : B256} {executed : ExecutedTransactions}
    (hne : saturatingAdd t.bestNumber 1 ≠ U64.max) (hnew : t.blocks.lookup hash = none)
    (hinfos : executed.transactions.map (·.transactionHash) = executed.block.txHashes)
    (htxs : ∀ x ∈ executed.block.txHashes, s.transactions.lookup x = none) :
    Extends s (t.insertBlock flag (saturatingAdd t.bestNumber 1) hash executed) := by
  have habove : s.bestNumber < saturatingAdd t.bestNumber 1 := by
    have hle := UInt64.le_iff_toNat_le.mp h.best_le
    rw [UInt64.lt_iff_toNat_lt, toNat_saturatingAdd_one h.best_ne]
    omega
  exact ⟨UInt64.le_of_lt habove, hne, h.heights.insertBlock flag hash executed,
    unwound_insertBlock h.below habove h.lookup_next hnew hinfos htxs⟩

/-- The block of the snapshot survives going back to it. -/
theorem survives (hne : s.bestNumber ≠ U64.max) {hash : B256}
    (hstored : (s.blocks.lookup hash).isSome) : Survives t s.bestNumber hash := by
  have hkeep : ¬DropsBlock t (s.bestNumber < ·) hash := by
    intro hd
    rw [h.below.blocks_of hash hd] at hstored
    cases hstored
  refine ⟨?_, fun n hlo _ hn => hkeep ⟨n, ?_, hn⟩⟩
  · rw [← h.below.blocks_keep hash hkeep]
    exact hstored
  · exact (add_one_le_iff hne).mp hlo

/-- Going back to the height of the snapshot leaves its chain. -/
theorem revertTo (hne : s.bestNumber ≠ U64.max) (hash : B256) :
    (t.revertTo s.bestNumber hash).hashes = s.hashes ∧
      (t.revertTo s.bestNumber hash).blocks = s.blocks ∧
      (t.revertTo s.bestNumber hash).transactions = s.transactions := by
  have hun := unwound_revertTo t s.bestNumber hash
  refine (hun.congr_used fun n hn => ?_).unique h.below
  rw [add_one_le_iff hne]
  exact and_iff_left (h.heights n hn)

end Extends

namespace Backend

/-! ### While the snapshot is there -/

/-- A snapshot can be taken and reverted to: the best block is stored, and neither its number nor
the next id is the last one. -/
structure CanSnapshot (s : Backend) : Prop where
  stored : (s.blockchain.blocks.lookup s.bestHash).isSome
  number : s.bestNumber ≠ U64.max
  id : s.nextId ≠ BitVec.allOnes 256

/-- What holds in `b` as long as the database has the snapshot taken in `s`. -/
structure Kept (s b : Backend) : Prop where
  dbSnapshot : b.dbSnapshot s.nextId = some s.db.inner
  active : b.activeStateSnapshots.lookup s.nextId = some (s.bestNumber, s.bestHash)
  chain : Extends s.blockchain b.blockchain
  earlier : ∀ k, k < s.nextId → b.activeStateSnapshots.lookup k = s.activeStateSnapshots.lookup k ∧
    b.dbSnapshot k = s.dbSnapshot k
  later : ∀ k num hash, s.nextId < k → b.activeStateSnapshots.lookup k = some (num, hash) →
    s.bestNumber ≤ num ∧ num ≠ U64.max
  ids : b.IdsIssued

/-- What holds from the snapshot on. Once the database has dropped the snapshot it
does not come back, since its id is not handed out again. -/
structure Tracked (s b : Backend) : Prop where
  issued : s.nextId < b.nextId
  keeper : b.transactionBlockKeeper = none
  kept : b.dbSnapshot s.nextId = none ∨ Kept s b

/-- The requests that keep the snapshot taken in `s` good, while the database has it.

* A block that is mined gets a number below the last one, a hash that is not stored
  and no transaction that was mined before the snapshot.
* A snapshot does not get the last id.
* A revert to an earlier snapshot finds its block.
* A rollback does not go below the snapshot. -/
def KeepsSnapshot (rt : Runtime) (s b : Backend) (op : BackendOp) : Prop :=
  (b.dbSnapshot s.nextId).isSome → match op with
  | .mine _ now txs =>
    let number := U64.saturatingAdd b.bestNumber 1
    number ≠ U64.max ∧ ∀ executed inner env,
      b.executeBlock rt now number txs = some (executed, inner, env) →
        b.blockchain.blocks.lookup (rt.evm.hashSlow executed.block.header) = none ∧
        ∀ x ∈ executed.block.txHashes, s.blockchain.transactions.lookup x = none
  | .snapshot => b.nextId ≠ BitVec.allOnes 256
  | .revert _ id => id < s.nextId → ∀ num hash,
      b.activeStateSnapshots.lookup id = some (num, hash) → Survives b.blockchain num hash
  | .rollback _ _ _ depth => ∀ commonHeight commonBlock,
      U64.checkedSub b.bestNumber (depth.getD 1) = some commonHeight →
      b.getBlock commonHeight = some commonBlock →
        s.bestNumber ≤ commonBlock.header.number ∧ commonBlock.header.number ≠ U64.max

theorem Kept.issued (h : Kept s b) : s.nextId < b.nextId :=
  h.ids s.nextId (Or.inl (by simp [h.dbSnapshot]))

theorem Kept.of_sameSnapshots (h : Kept s b) (hsame : SameSnapshots b b')
    (hchain : Extends s.blockchain b'.blockchain) : Kept s b' where
  dbSnapshot := by rw [hsame.dbSnapshot, h.dbSnapshot]
  active := by rw [hsame.active, h.active]
  chain := hchain
  earlier k hk := by
    rw [hsame.active, hsame.dbSnapshot]
    exact h.earlier k hk
  later k num hash hk hact := h.later k num hash hk (hsame.active ▸ hact)
  ids := hsame.idsIssued h.ids

/-- Taking the snapshot. -/
theorem kept_createStateSnapshot (hs : s.CanSnapshot) (ho : s.Ordered) :
    Kept s s.createStateSnapshot.2 := by
  have hids := ho.ids hs.id
  refine ⟨?_, ?_, Extends.refl ho.heights hs.number, ?_, ?_, hids.createStateSnapshot hs.id⟩
  · rw [dbSnapshot_createStateSnapshot, if_pos rfl]
  · rw [active_createStateSnapshot, if_pos rfl]
  · intro k hk
    have hne : k ≠ s.nextId := BitVec.ne_of_lt hk
    rw [active_createStateSnapshot, dbSnapshot_createStateSnapshot, if_neg hne, if_neg hne]
    exact ⟨rfl, rfl⟩
  · intro k num hash hk hact
    have hne : k ≠ s.nextId := (BitVec.ne_of_lt hk).symm
    rw [active_createStateSnapshot, if_neg hne] at hact
    have hlt := hids k (Or.inr (by simp [hact]))
    exact absurd hlt (BitVec.not_lt.mpr (BitVec.le_of_lt hk))

/-- Taking a later snapshot. -/
theorem Kept.createStateSnapshot (h : Kept s b) (hissued : s.nextId < b.nextId)
    (hne : b.nextId ≠ BitVec.allOnes 256) : Kept s b.createStateSnapshot.2 := by
  have hother : ∀ k, k ≤ s.nextId → k ≠ b.nextId := by
    rintro k hk rfl
    exact absurd hissued (BitVec.not_lt.mpr hk)
  refine ⟨?_, ?_, h.chain, ?_, ?_, h.ids.createStateSnapshot hne⟩
  · rw [dbSnapshot_createStateSnapshot, if_neg (hother _ (BitVec.le_refl _)), h.dbSnapshot]
  · rw [active_createStateSnapshot, if_neg (hother _ (BitVec.le_refl _)), h.active]
  · intro k hk
    have hk' := hother k (BitVec.le_of_lt hk)
    rw [active_createStateSnapshot, dbSnapshot_createStateSnapshot, if_neg hk', if_neg hk']
    exact h.earlier k hk
  · intro k num hash hk hact
    rw [active_createStateSnapshot] at hact
    split at hact
    · cases hact
      exact ⟨h.chain.best_le, h.chain.best_ne⟩
    · exact h.later k num hash hk hact

/-- The record of a later snapshot goes. -/
theorem Kept.forgetActive (h : Kept s b)
    (hact : b'.activeStateSnapshots = b.activeStateSnapshots.erase k) (hdb : b'.db = b.db)
    (hchain : Extends s.blockchain b'.blockchain) (hk : s.nextId < k) : Kept s b' := by
  have hactive : ∀ j, b'.activeStateSnapshots.lookup j =
      if j = k then none else b.activeStateSnapshots.lookup j := by
    intro j
    rw [hact, lookup_erase_ite]
  have hne : ∀ j, j ≤ s.nextId → j ≠ k := by
    rintro j hj rfl
    exact absurd hk (BitVec.not_lt.mpr hj)
  have hsnap : ∀ j, b'.dbSnapshot j = b.dbSnapshot j := by
    intro j
    rw [Backend.dbSnapshot, Backend.dbSnapshot, hdb]
  refine ⟨?_, ?_, hchain, ?_, ?_, ?_⟩
  · rw [hsnap, h.dbSnapshot]
  · rw [hactive, if_neg (hne _ (BitVec.le_refl _)), h.active]
  · intro j hj
    rw [hactive, if_neg (hne j (BitVec.le_of_lt hj)), hsnap]
    exact h.earlier j hj
  · intro j num hash hj hlook
    rw [hact] at hlook
    exact h.later j num hash hj (lookup_erase_eq_some.mp hlook).2
  · intro j hj
    rw [nextId, hdb]
    rw [hsnap, hactive] at hj
    refine h.ids j (hj.imp_right fun hsome => ?_)
    split at hsome
    · cases hsome
    · exact hsome

/-- When the database was asked for a later snapshot, this one is gone or as before. -/
theorem Kept.revertDb (h : Kept s b) (hk : s.nextId < k) :
    (b.revertDb k).2.dbSnapshot s.nextId = none ∨ Kept s (b.revertDb k).2 := by
  by_cases hwrap : k + 1 ≤ s.nextId
  · -- the last id: the loop starts over at zero
    left
    rw [dbSnapshot_revertDb]
    exact if_pos (Or.inr ⟨hwrap, h.issued⟩)
  · right
    have hkeep : ∀ j, j ≤ s.nextId → (b.revertDb k).2.dbSnapshot j = b.dbSnapshot j := by
      intro j hj
      rw [dbSnapshot_revertDb, if_neg]
      rintro (rfl | ⟨hlo, -⟩)
      · exact absurd hk (BitVec.not_lt.mpr hj)
      · exact hwrap (BitVec.le_trans hlo hj)
    refine ⟨?_, h.active, h.chain, fun j hj => ⟨(h.earlier j hj).1, ?_⟩, h.later, fun j hj => ?_⟩
    · rw [hkeep _ (BitVec.le_refl _), h.dbSnapshot]
    · rw [hkeep j (BitVec.le_of_lt hj)]
      exact (h.earlier j hj).2
    · rw [nextId_revertDb]
      exact h.ids j (hj.imp_left isSome_of_revertDb)

/-- Reverting to a snapshot drops the later ones, if it comes to asking the database. -/
theorem dbSnapshot_revertDb_of_le (h : k ≤ id) (hid : id < b.nextId) :
    (b.revertDb k).2.dbSnapshot id = none := by
  rw [dbSnapshot_revertDb, if_pos]
  by_cases heq : id = k
  · exact Or.inl heq
  · refine Or.inr ⟨?_, hid⟩
    have hlt : k < id := BitVec.lt_of_le_ne h (Ne.symm heq)
    rw [BitVec.le_def, toNat_add_one_of_lt hlt]
    exact BitVec.lt_def.mp hlt

/-- Reverting to a snapshot that was issued keeps the earlier ones. -/
theorem dbSnapshot_revertDb_of_lt (h : k < id) (hid : id < b.nextId) :
    (b.revertDb id).2.dbSnapshot k = b.dbSnapshot k := by
  rw [dbSnapshot_revertDb, if_neg]
  rintro (rfl | ⟨hlo, -⟩)
  · exact absurd h (BitVec.lt_irrefl _)
  · have hlt := BitVec.lt_def.mp h
    rw [BitVec.le_def, toNat_add_one_of_lt hid] at hlo
    omega

/-- Reverting to this snapshot or to an earlier one whose block is found drops it. -/
theorem Kept.revert_of_le (h : Kept s b) (hk : k ≤ s.nextId)
    (hs : ∀ num hash, b.activeStateSnapshots.lookup k = some (num, hash) →
      Survives b.blockchain num hash) :
    (b.revertStateSnapshot rt now k).2.dbSnapshot s.nextId = none := by
  cases hact : b.activeStateSnapshots.lookup k with
  | none =>
    rw [revert_of_inactive hact]
    exact dbSnapshot_revertDb_of_le hk h.issued
  | some taken =>
    obtain ⟨num, hash⟩ := taken
    obtain ⟨block, -, hrev⟩ := revert_of_survives hact (hs num hash hact)
    rw [hrev]
    exact dbSnapshot_revertDb_of_le hk h.issued

/-- Reverting to a later one, whether it succeeds or not. -/
theorem Kept.revert_of_lt (h : Kept s b) (hk : s.nextId < k) :
    (b.revertStateSnapshot rt now k).2.dbSnapshot s.nextId = none ∨
      Kept s (b.revertStateSnapshot rt now k).2 := by
  cases hact : b.activeStateSnapshots.lookup k with
  | none =>
    rw [revert_of_inactive hact]
    have hforget : Kept s (b.forgetActive k) := h.forgetActive rfl rfl h.chain hk
    exact hforget.revertDb hk
  | some taken =>
    obtain ⟨num, hash⟩ := taken
    obtain ⟨hle, hne⟩ := h.later k num hash hk hact
    have hchain : Extends s.blockchain (b.blockchain.revertTo num hash) :=
      h.chain.unwound (unwound_revertTo b.blockchain num hash) hle hne
    by_cases hs : Survives b.blockchain num hash
    · obtain ⟨block, -, hrev⟩ := revert_of_survives hact hs
      have hback : Kept s (backAt rt now b k num hash block.header) :=
        h.forgetActive rfl rfl hchain hk
      rw [hrev]
      exact hback.revertDb hk
    · rw [revert_of_lost hact hs]
      exact Or.inr (h.forgetActive rfl rfl hchain hk)

/-- A mined block that meets the condition. -/
theorem Kept.mine {txs : List PoolTransaction} (h : Kept s b)
    (hkeeper : b.transactionBlockKeeper = none) (hkeep : KeepsSnapshot rt s b (.mine ord now txs))
    (hstep : BackendStep rt b (.mine ord now txs) b') : Kept s b' := by
  obtain ⟨executed, inner, env, hexec, hchain, hsame⟩ := mine_cases hstep
  obtain ⟨hne, hfresh⟩ := hkeep (by simp [h.dbSnapshot])
  obtain ⟨hnew, htxs⟩ := hfresh executed inner env hexec
  obtain ⟨⟨executed', inner'⟩, hrun, heq⟩ := Option.map_eq_some_iff.mp hexec
  cases heq
  rw [hkeeper] at hchain
  refine h.of_sameSnapshots hsame ?_
  rw [hchain]
  exact h.chain.insertBlock hne hnew (TransactionExecutor.infos_of_execute hrun) htxs

/-- A rollback that meets the condition. -/
theorem Kept.rollback {readable : Bool} {depth : Option UInt64} (h : Kept s b)
    (hkeep : KeepsSnapshot rt s b (.rollback ord readable now depth))
    (hstep : BackendStep rt b (.rollback ord readable now depth) b') : Kept s b' := by
  obtain ⟨hsame, hchain⟩ := anvilRollback_cases hstep
  refine h.of_sameSnapshots hsame ?_
  rcases hchain with heq | ⟨commonHeight, commonBlock, hheight, hblock, hunwind⟩
  · rw [heq]
    exact h.chain
  · obtain ⟨hle, hne⟩ := hkeep (by simp [h.dbSnapshot]) commonHeight commonBlock hheight hblock
    rw [hunwind]
    exact h.chain.unwound (unwound_unwindTo b.blockchain _ _) hle hne

theorem Tracked.of_sameSnapshots (h : Tracked s b) (hsame : SameSnapshots b b')
    (hkept : Kept s b → Kept s b') : Tracked s b' where
  issued := by
    rw [hsame.nextId]
    exact h.issued
  keeper := by rw [hsame.keeper, h.keeper]
  kept := by
    rw [hsame.dbSnapshot]
    exact h.kept.imp_right hkept

theorem Tracked.createStateSnapshot (h : Tracked s b) (hkeep : KeepsSnapshot rt s b .snapshot) :
    Tracked s b.createStateSnapshot.2 := by
  have hne : s.nextId ≠ b.nextId := BitVec.ne_of_lt h.issued
  refine ⟨?_, h.keeper, ?_⟩
  · have hle := BitVec.le_def.mp (le_saturatingAdd_one b.nextId)
    rw [nextId_createStateSnapshot]
    exact BitVec.lt_def.mpr (Nat.lt_of_lt_of_le (BitVec.lt_def.mp h.issued) hle)
  · rcases h.kept with hnone | hkept
    · left
      rw [dbSnapshot_createStateSnapshot, if_neg hne, hnone]
    · exact Or.inr (hkept.createStateSnapshot h.issued (hkeep (by simp [hkept.dbSnapshot])))

theorem Tracked.revert (hs : s.CanSnapshot) (h : Tracked s b)
    (hkeep : KeepsSnapshot rt s b (.revert now k)) :
    Tracked s (b.revertStateSnapshot rt now k).2 := by
  have heff := revertEffect rt now b k
  refine ⟨?_, heff.keeper.trans h.keeper, ?_⟩
  · rw [heff.nextId]
    exact h.issued
  · rcases h.kept with hnone | hkept
    · refine Or.inl (Option.not_isSome_iff_eq_none.mp fun hsome => ?_)
      have := heff.dbSnapshot _ hsome
      rw [hnone] at this
      cases this
    · by_cases hlater : s.nextId < k
      · exact hkept.revert_of_lt hlater
      · have hle : k ≤ s.nextId := BitVec.not_lt.mp hlater
        refine Or.inl (hkept.revert_of_le hle fun num hash hact => ?_)
        by_cases heq : k = s.nextId
        · subst heq
          obtain ⟨rfl, rfl⟩ := Prod.mk.inj (Option.some.inj (hkept.active.symm.trans hact))
          exact hkept.chain.survives hs.number hs.stored
        · exact hkeep (by simp [hkept.dbSnapshot]) (BitVec.lt_of_le_ne hle heq) num hash hact

theorem Tracked.step (hs : s.CanSnapshot) (h : Tracked s b) (hkeep : KeepsSnapshot rt s b op)
    (hstep : BackendStep rt b op b') : Tracked s b' := by
  cases op with
  | mine ord now txs =>
    obtain ⟨_, _, _, -, -, hsame⟩ := mine_cases hstep
    exact h.of_sameSnapshots hsame fun hkept => hkept.mine h.keeper hkeep hstep
  | snapshot =>
    cases hstep
    exact h.createStateSnapshot hkeep
  | revert now k =>
    cases hstep
    exact h.revert hs hkeep
  | rollback ord readable now depth =>
    exact h.of_sameSnapshots (anvilRollback_cases hstep).1
      fun hkept => hkept.rollback hkeep hstep

/-- Every state reached from the snapshot by requests that meet the condition. -/
theorem tracked_of_run (hs : s.CanSnapshot) (ho : s.Ordered)
    (hkeeper : s.transactionBlockKeeper = none)
    (h : Run (Guarded (KeepsSnapshot rt s) (BackendStep rt)) s.createStateSnapshot.2 ops b) :
    Tracked s b := by
  have hstart : Tracked s s.createStateSnapshot.2 := by
    refine ⟨?_, hkeeper, Or.inr (kept_createStateSnapshot hs ho)⟩
    rw [nextId_createStateSnapshot, BitVec.lt_def, toNat_saturatingAdd_one hs.id]
    exact Nat.lt_succ_self _
  exact h.keeps hstart fun hb hstep => hb.step hs hstep.1 hstep.2

/-! ### After a successful revert -/

/-- `b` has the chain and the accounts of `s`, and of the snapshots usable in `s`
those taken before `id`. -/
structure Restored (s : Backend) (id : U256) (b : Backend) : Prop where
  blocks : b.blockchain.blocks = s.blockchain.blocks
  hashes : b.blockchain.hashes = s.blockchain.hashes
  transactions : b.blockchain.transactions = s.blockchain.transactions
  bestNumber : b.bestNumber = s.bestNumber
  bestHash : b.bestHash = s.bestHash
  accounts : b.db.inner = s.db.inner
  usable : ∀ k, b.Usable k ↔ k < id ∧ s.Usable k

/-- Whether a snapshot can be used is a matter of the database, the record of its
block, and the chain. -/
theorem Usable.of_eq (h : b.Usable k) (hdb : b'.dbSnapshot k = b.dbSnapshot k)
    (hact : b'.activeStateSnapshots.lookup k = b.activeStateSnapshots.lookup k)
    (hblocks : b'.blockchain.blocks = b.blockchain.blocks)
    (hhashes : b'.blockchain.hashes = b.blockchain.hashes)
    (hbest : b'.blockchain.bestNumber = b.blockchain.bestNumber) : b'.Usable k where
  dbSnapshot := by
    rw [hdb]
    exact h.dbSnapshot
  survives num hash hlook := by
    rw [hact] at hlook
    obtain ⟨hstored, habove⟩ := h.survives num hash hlook
    refine ⟨?_, ?_⟩
    · rw [hblocks]
      exact hstored
    · rw [hhashes, hbest]
      exact habove

theorem Kept.restored (h : Kept s b) (hs : s.CanSnapshot) :
    Restored s s.nextId (b.revertStateSnapshot rt now s.nextId).2 := by
  obtain ⟨block, -, hrev⟩ := revert_of_survives h.active
    (h.chain.survives hs.number hs.stored)
  obtain ⟨hhashes, hblocks, htxs⟩ := h.chain.revertTo hs.number s.bestHash
  rw [hrev]
  generalize hback : backAt rt now b s.nextId s.bestNumber s.bestHash block.header = b₁
  have hdb : ∀ k, b₁.dbSnapshot k = b.dbSnapshot k := by
    intro k
    rw [← hback]
    rfl
  have hnext : b₁.nextId = b.nextId := by
    rw [← hback]
    rfl
  have hissued : s.nextId < b₁.nextId := by
    rw [hnext]
    exact h.issued
  have hchain : (b₁.revertDb s.nextId).2.blockchain =
      b.blockchain.revertTo s.blockchain.bestNumber s.bestHash := by
    rw [← hback]
    rfl
  -- the earlier snapshots are those of `s`
  have hearlier : ∀ k, k < s.nextId → (b₁.revertDb s.nextId).2.dbSnapshot k = s.dbSnapshot k ∧
      (b₁.revertDb s.nextId).2.activeStateSnapshots.lookup k = s.activeStateSnapshots.lookup k := by
    intro k hk
    constructor
    · rw [dbSnapshot_revertDb_of_lt hk hissued, hdb, (h.earlier k hk).2]
    · rw [← (h.earlier k hk).1, ← hback]
      exact (lookup_erase_ite _ _ _).trans (if_neg (BitVec.ne_of_lt hk))
  -- the others are gone
  have hgone : ∀ k, ¬k < s.nextId → (b₁.revertDb s.nextId).2.dbSnapshot k = none := by
    intro k hk
    by_cases hlt : k < b₁.nextId
    · exact dbSnapshot_revertDb_of_le (BitVec.not_lt.mp hk) hlt
    · refine Option.not_isSome_iff_eq_none.mp fun hsome => hlt ?_
      rw [hnext]
      exact h.ids k (Or.inl (hdb k ▸ isSome_of_revertDb hsome))
  rw [← hchain] at hhashes hblocks htxs
  have hbest : (b₁.revertDb s.nextId).2.blockchain.bestNumber = s.blockchain.bestNumber := by
    rw [hchain]
    rfl
  have hhash : (b₁.revertDb s.nextId).2.blockchain.bestHash = s.blockchain.bestHash := by
    rw [hchain]
    rfl
  refine ⟨hblocks, hhashes, htxs, hbest, hhash, ?_, fun k => ⟨fun hu => ?_, fun ⟨hk, hu⟩ => ?_⟩⟩
  · rw [revertDb_inner, hdb, h.dbSnapshot, Option.getD_some]
  · by_cases hk : k < s.nextId
    · obtain ⟨hsnap, hact⟩ := hearlier k hk
      exact ⟨hk, hu.of_eq hsnap.symm hact.symm hblocks.symm hhashes.symm hbest.symm⟩
    · have hsome := hu.dbSnapshot
      rw [hgone k hk] at hsome
      cases hsome
  · obtain ⟨hsnap, hact⟩ := hearlier k hk
    exact hu.of_eq hsnap hact hblocks hhashes hbest

/-- **Restoring a snapshot.** After a run that keeps the snapshot good, a revert that succeeds
brings back the chain, the accounts and the usable snapshots of the state it was taken in. What a
step has to keep is said by `KeepsSnapshot`: above all, the block of the snapshot stays on the
chain. -/
theorem revert_restores {ops ops' : List BackendOp} {s₁ t : Backend} {now : UInt64}
    (hrun : BackendRun rt ops s) (hkeeper : s.transactionBlockKeeper = none) (hcan : s.CanSnapshot)
    (hid : s.createStateSnapshot = (id, s₁))
    (hrest : Run (Guarded (KeepsSnapshot rt s) (BackendStep rt)) s₁ ops' t)
    (hok : (t.revertStateSnapshot rt now id).1 = .ok true) :
    Restored s id (t.revertStateSnapshot rt now id).2 := by
  cases hid
  have htracked := tracked_of_run hcan (ordered_of_run hrun) hkeeper hrest
  have huse : t.Usable s.nextId := (usable_iff rt now).mpr hok
  rcases htracked.kept with hnone | hkept
  · have hsome := huse.dbSnapshot
    rw [hnone] at hsome
    cases hsome
  · exact hkept.restored hcan

/-- A block with a transaction is mined on top of the snapshot and reverted. The sender's account is
another one in between. -/
theorem revert_restores_mined :
    ∃ ops s t, BackendRun sampleRuntime ops s ∧
      Run (BackendStep sampleRuntime) s.createStateSnapshot.2
        [.mine ascendingDbOrder 2 [⟨⟨7, 1, 0, 10⟩, [], [], 0⟩]] t ∧
      t.bestNumber ≠ s.bestNumber ∧ t.db.inner.accounts.lookup 1 ≠ s.db.inner.accounts.lookup 1 ∧
      Restored s s.createStateSnapshot.1
        (t.revertStateSnapshot sampleRuntime 3 s.createStateSnapshot.1).2 := by
  obtain ⟨s, hrun, hkeeper, hstored, hnumber, hid, hnext, hfresh, hmine⟩ :=
    run_of_sample [.mine ascendingDbOrder 1 []] (fun s => s.transactionBlockKeeper = none ∧
      (s.blockchain.blocks.lookup s.bestHash).isSome ∧ s.bestNumber ≠ U64.max ∧
      s.nextId ≠ BitVec.allOnes 256 ∧ saturatingAdd s.bestNumber 1 ≠ U64.max ∧
      ((s.createStateSnapshot.2.executeBlock sampleRuntime 2 (saturatingAdd s.bestNumber 1)
        [⟨⟨7, 1, 0, 10⟩, [], [], 0⟩]).all fun r => decide
          (s.blockchain.blocks.lookup (sampleRuntime.evm.hashSlow r.1.block.header) = none ∧
            (r.1.block.txHashes.all fun x => decide
              (s.blockchain.transactions.lookup x = none)) = true)) = true ∧
      ((s.createStateSnapshot.2.exec sampleRuntime
        (.mine ascendingDbOrder 2 [⟨⟨7, 1, 0, 10⟩, [], [], 0⟩])).map fun t => decide
          (t.bestNumber ≠ s.bestNumber ∧
            t.db.inner.accounts.lookup 1 ≠ s.db.inner.accounts.lookup 1 ∧
            (t.revertStateSnapshot sampleRuntime 3 s.createStateSnapshot.1).1 = .ok true)) =
        some true) (by decide +kernel)
  obtain ⟨t, hstep, hne, hchanged, hok⟩ := exists_of_map_decide hmine
  refine ⟨_, s, t, hrun, .snoc .nil hstep, hne, hchanged, ?_⟩
  refine revert_restores hrun hkeeper ⟨hstored, hnumber, hid⟩ rfl (.snoc .nil ⟨?_, hstep⟩) hok
  intro _
  refine ⟨hnext, fun executed inner env hexec => ?_⟩
  change s.createStateSnapshot.2.executeBlock sampleRuntime 2 (saturatingAdd s.bestNumber 1) _ = _
    at hexec
  rw [hexec] at hfresh
  obtain ⟨hnew, htxs⟩ := of_decide_eq_true hfresh
  exact ⟨hnew, fun x hx => of_decide_eq_true (List.all_eq_true.mp htxs x hx)⟩

/-- The chain is rolled back below the snapshot and another block is mined there. A
first revert fails since the block of the snapshot is lost. A second one then
succeeds, with the other block still in place and the best block not stored. -/
theorem second_revert_keeps_chain :
    ∃ ops s ops' t, BackendRun sampleRuntime ops s ∧ s.transactionBlockKeeper = none ∧
      Run (BackendStep sampleRuntime) s.createStateSnapshot.2 ops' t ∧
      (t.revertStateSnapshot sampleRuntime 8 s.createStateSnapshot.1).1 = .ok true ∧
      (t.revertStateSnapshot sampleRuntime 8 s.createStateSnapshot.1).2.blockchain.hashes ≠
        s.blockchain.hashes ∧
      (t.revertStateSnapshot sampleRuntime 8 s.createStateSnapshot.1).2.blockchain.blocks.lookup
        s.bestHash = none ∧
      (s.blockchain.blocks.lookup s.bestHash).isSome := by
  obtain ⟨s, hrun, hkeeper, hrest⟩ := run_of_sample
    [.mine ascendingDbOrder 1 [], .mine ascendingDbOrder 2 []]
    (fun s => s.transactionBlockKeeper = none ∧
      ((s.createStateSnapshot.2.execAll sampleRuntime
        [.rollback ascendingDbOrder true 3 none, .mine ascendingDbOrder 5 [], .revert 7 0]).map
        fun t => decide
          ((t.revertStateSnapshot sampleRuntime 8 s.createStateSnapshot.1).1 = .ok true ∧
          (t.revertStateSnapshot sampleRuntime 8 s.createStateSnapshot.1).2.blockchain.hashes ≠
            s.blockchain.hashes ∧
          (t.revertStateSnapshot sampleRuntime 8
            s.createStateSnapshot.1).2.blockchain.blocks.lookup s.bestHash = none ∧
          (s.blockchain.blocks.lookup s.bestHash).isSome)) = some true) (by decide +kernel)
  obtain ⟨t, hops, ht⟩ := exists_of_map_decide hrest
  exact ⟨_, s, _, t, hrun, hkeeper, run_of_execAll hops, ht⟩

end Backend

end BaseAnvil.Chain

import BaseAnvil.Chain.Revert

/-!
# BaseAnvil.Chain.Frame

What each request does to the chain, to the table of database snapshots and to the
blocks on record for them. Mining and rolling back touch the chain only; taking a
snapshot touches the other two; the cases of `evm_revert` are in
`BaseAnvil.Chain.Revert`. Everything proved about whole runs is proved from these.
-/

namespace BaseAnvil.Chain

open Lib HashMap U64 Word CacheDb
open Pool (B256 Address TxHash PoolTransaction)

/-! ### The database keeps its table -/

variable {b b' : Backend} {now : UInt64} {rt : Runtime}

namespace Backend

theorem writeStorage_stateSnapshots (api : CacheDbApi) (address : Address) (db : MemDb)
    (slots : List (U256 × U256)) :
    (writeStorage api address db slots).2.stateSnapshots = db.stateSnapshots := by
  induction slots generalizing db with
  | nil => rfl
  | cons slot slots ih =>
    obtain ⟨key, value⟩ := slot
    have hset : (db.setStorageAt api address key value).2.stateSnapshots = db.stateSnapshots := rfl
    rw [writeStorage]
    generalize db.setStorageAt api address key value = res at hset ⊢
    rcases res with ⟨err | _, db'⟩
    · exact hset
    · exact (ih db').trans hset

theorem writeAccounts_stateSnapshots (api : CacheDbApi) (ord : DbOrder) (db : MemDb)
    (accounts : List (Address × DbAccount)) :
    (writeAccounts api ord db accounts).2.stateSnapshots = db.stateSnapshots := by
  induction accounts generalizing db with
  | nil => rfl
  | cons account accounts ih =>
    obtain ⟨address, acc⟩ := account
    have hwrite := writeStorage_stateSnapshots api address db
      (entries ord.slots acc.storage)
    rw [writeAccounts]
    generalize writeStorage api address db (entries ord.slots acc.storage) = res
      at hwrite ⊢
    rcases res with ⟨err | _, db'⟩
    · exact hwrite
    · exact (ih _).trans hwrite

/-! ### Requests that leave the snapshots alone -/

/-- The snapshots, and how long transactions are kept, are the same. -/
structure SameSnapshots (b b' : Backend) : Prop where
  table : b'.db.stateSnapshots = b.db.stateSnapshots
  active : b'.activeStateSnapshots = b.activeStateSnapshots
  keeper : b'.transactionBlockKeeper = b.transactionBlockKeeper

variable {ord : DbOrder} {txs : List PoolTransaction}

/-- What a backend that mines a block becomes. -/
theorem mine_eq (h : BackendStep rt b (.mine ord now txs) b') :
    ∃ states executed inner env, b.recordState ord = some states ∧
      b.executeBlock rt now (saturatingAdd b.bestNumber 1) txs = some (executed, inner, env) ∧
      b' = { b with
        db := MemDb.insertBlockHash { b.db with inner := inner }
          (ofU64 256 executed.block.header.number) (rt.evm.hashSlow executed.block.header)
        blockchain := (b.blockchain.insertBlock b.isEip3675 (saturatingAdd b.bestNumber 1)
          (rt.evm.hashSlow executed.block.header) executed).keepTransactions
            b.transactionBlockKeeper (saturatingAdd b.bestNumber 1)
        states := states
        env := { env with blockEnv := { env.blockEnv with difficulty := 0 } }
        time := (b.time.nextTimestamp now).2
        fees := nextFees rt b.fees env.cfgEnv.spec executed.block.header } := by
  obtain ⟨⟨outcome, b₁⟩, hmine, rfl⟩ := Option.map_eq_some_iff.mp h
  rw [doMineBlock] at hmine
  obtain ⟨states, hstates, hmine⟩ := Option.bind_eq_some_iff.mp hmine
  obtain ⟨⟨executed, inner, env⟩, hexec, hmine⟩ := Option.bind_eq_some_iff.mp hmine
  dsimp only at hmine
  split at hmine
  · cases hmine
    exact ⟨states, executed, inner, env, hstates, hexec, rfl⟩
  · cases hmine

/-- Mining stores the block it executed at the next number. -/
theorem mine_cases (h : BackendStep rt b (.mine ord now txs) b') :
    ∃ executed inner env,
      b.executeBlock rt now (saturatingAdd b.bestNumber 1) txs = some (executed, inner, env) ∧
      b'.blockchain = (b.blockchain.insertBlock b.isEip3675 (saturatingAdd b.bestNumber 1)
        (rt.evm.hashSlow executed.block.header) executed).keepTransactions
          b.transactionBlockKeeper (saturatingAdd b.bestNumber 1) ∧
      SameSnapshots b b' := by
  obtain ⟨states, executed, inner, env, -, hexec, rfl⟩ := mine_eq h
  exact ⟨executed, inner, env, hexec, rfl, rfl, rfl, rfl⟩

/-- Rolling back fails and leaves the chain, or unwinds it. -/
theorem rollbackTo_cases (b : Backend)
    (commonBlock : Block) (commonState : HashMap Address DbAccount) :
    SameSnapshots b (b.rollbackTo rt ord now commonBlock commonState).2 ∧
      ((∃ err, (b.rollbackTo rt ord now commonBlock commonState).1 = .error err) ∧
          (b.rollbackTo rt ord now commonBlock commonState).2.blockchain = b.blockchain ∨
        (b.rollbackTo rt ord now commonBlock commonState).1 = .ok () ∧
          (b.rollbackTo rt ord now commonBlock commonState).2.blockchain =
            b.blockchain.unwindTo commonBlock.header.number
              (rt.evm.hashSlow commonBlock.header)) := by
  have hwrite := writeAccounts_stateSnapshots rt.evm.toCacheDbApi ord (b.db.clear ord)
    (entries ord.addresses commonState)
  rw [rollbackTo]
  generalize writeAccounts rt.evm.toCacheDbApi ord (b.db.clear ord)
    (entries ord.addresses commonState) = res at hwrite ⊢
  rcases res with ⟨err | _, db⟩
  · exact ⟨⟨hwrite, rfl, rfl⟩, Or.inl ⟨⟨_, rfl⟩, rfl⟩⟩
  · exact ⟨⟨hwrite, rfl, rfl⟩, Or.inr ⟨rfl, rfl⟩⟩

theorem rollback_cases (readable : Bool)
    (commonBlock : Block) :
    SameSnapshots b (b.rollback rt ord readable now commonBlock).2 ∧
      ((∃ err, (b.rollback rt ord readable now commonBlock).1 = .error err) ∧
          (b.rollback rt ord readable now commonBlock).2.blockchain = b.blockchain ∨
        (b.rollback rt ord readable now commonBlock).1 = .ok () ∧
          (b.rollback rt ord readable now commonBlock).2.blockchain =
            b.blockchain.unwindTo commonBlock.header.number
              (rt.evm.hashSlow commonBlock.header)) := by
  rw [rollback]
  cases b.states.getState (rt.evm.hashSlow commonBlock.header) with
  | some db => exact rollbackTo_cases b commonBlock db.accounts
  | none =>
    rcases b.states.getOnDiskState ord readable (rt.evm.hashSlow commonBlock.header) with
      ⟨_ | db, states⟩
    · exact ⟨⟨rfl, rfl, rfl⟩, Or.inl ⟨⟨_, rfl⟩, rfl⟩⟩
    · obtain ⟨⟨htable, hactive, hkeeper⟩, hchain⟩ :=
        rollbackTo_cases { b with states := states } commonBlock db.accounts
      exact ⟨⟨htable, hactive, hkeeper⟩, hchain⟩

/-- Rolling back, if it gets so far, unwinds to the block at the common height. -/
theorem anvilRollback_cases {readable : Bool} {depth : Option UInt64}
    (h : BackendStep rt b (.rollback ord readable now depth) b') :
    SameSnapshots b b' ∧ (b'.blockchain = b.blockchain ∨
      ∃ commonHeight commonBlock,
        checkedSub b.bestNumber (depth.getD 1) = some commonHeight ∧
        b.getBlock commonHeight = some commonBlock ∧
        b'.blockchain = b.blockchain.unwindTo commonBlock.header.number
          (rt.evm.hashSlow commonBlock.header)) := by
  cases h
  have hself : SameSnapshots b b := ⟨rfl, rfl, rfl⟩
  rw [anvilRollback]
  cases hheight : checkedSub b.bestNumber (depth.getD 1) with
  | none => exact ⟨hself, Or.inl rfl⟩
  | some commonHeight =>
    dsimp only
    cases hblock : b.getBlock commonHeight with
    | none => exact ⟨hself, Or.inl rfl⟩
    | some commonBlock =>
      obtain ⟨hsame, hchain⟩ := rollback_cases readable commonBlock
      refine ⟨hsame, hchain.imp And.right fun hunwind => ?_⟩
      exact ⟨commonHeight, commonBlock, rfl, hblock, hunwind.2⟩

end Backend

/-! ### A new block -/

namespace BlockchainStorage

variable {s : BlockchainStorage} {flag : Bool} {number : UInt64} {hash : B256}
  {executed : ExecutedTransactions}

variable {x : TxHash}

theorem lookup_insertTransactions_of_notMem {transactions : HashMap TxHash MinedTransaction}
    {mined : List (TransactionInfo × Receipt)} (h : x ∉ mined.map (·.1.transactionHash)) :
    (insertTransactions transactions hash number mined).lookup x = transactions.lookup x := by
  induction mined generalizing transactions with
  | nil => rfl
  | cons entry mined ih =>
    obtain ⟨info, receipt⟩ := entry
    rw [List.map_cons, List.mem_cons, not_or] at h
    show (insertTransactions (transactions.insert info.transactionHash _) hash number mined).lookup
      x = _
    rw [ih h.2, lookup_insert_ite, if_neg h.1]

/-- A transaction that is not in the block keeps its entry. -/
theorem lookup_insertBlock_of_notMem
    (hinfos : executed.transactions.map (·.transactionHash) = executed.block.txHashes)
    (h : x ∉ executed.block.txHashes) :
    (s.insertBlock flag number hash executed).transactions.lookup x = s.transactions.lookup x := by
  refine lookup_insertTransactions_of_notMem fun hx => h ?_
  obtain ⟨⟨info, receipt⟩, hmem, rfl⟩ := List.mem_map.mp hx
  rw [← hinfos]
  exact List.mem_map_of_mem (List.of_mem_zip hmem).1

theorem lookup_hashes_insertBlock (n : UInt64) :
    (s.insertBlock flag number hash executed).hashes.lookup n =
      if n = number then some hash else s.hashes.lookup n :=
  lookup_insert_ite _ _ _ _

theorem lookup_blocks_insertBlock (h : B256) :
    (s.insertBlock flag number hash executed).blocks.lookup h =
      if h = hash then some executed.block else s.blocks.lookup h :=
  lookup_insert_ite _ _ _ _

variable {R : UInt64 → Prop}

/-- Dropping the new height as well drops the new block as well. -/
theorem dropsBlock_insertBlock (hR : R number) (hfree : s.hashes.lookup number = none) {h : B256} :
    DropsBlock (s.insertBlock flag number hash executed) R h ↔ h = hash ∨ DropsBlock s R h := by
  constructor
  · rintro ⟨n, hn, hlook⟩
    rw [lookup_hashes_insertBlock] at hlook
    split at hlook
    · exact Or.inl (Option.some.inj hlook).symm
    · exact Or.inr ⟨n, hn, hlook⟩
  · rintro (rfl | ⟨n, hn, hlook⟩)
    · exact ⟨number, hR, by rw [lookup_hashes_insertBlock, if_pos rfl]⟩
    · refine ⟨n, hn, ?_⟩
      rw [lookup_hashes_insertBlock, if_neg, hlook]
      rintro rfl
      rw [hfree] at hlook
      cases hlook

theorem dropsTx_insertBlock (hR : R number) (hfree : s.hashes.lookup number = none)
    (hnew : s.blocks.lookup hash = none) :
    DropsTx (s.insertBlock flag number hash executed) R x ↔
      x ∈ executed.block.txHashes ∨ DropsTx s R x := by
  constructor
  · rintro ⟨h, block, hd, hlook, hx⟩
    rw [lookup_blocks_insertBlock] at hlook
    split at hlook
    · cases hlook
      exact Or.inl hx
    · rename_i hne
      exact Or.inr ⟨h, block, ((dropsBlock_insertBlock hR hfree).mp hd).resolve_left hne, hlook, hx⟩
  · rintro (hx | ⟨h, block, hd, hlook, hx⟩)
    · exact ⟨hash, executed.block, (dropsBlock_insertBlock hR hfree).mpr (Or.inl rfl),
        by rw [lookup_blocks_insertBlock, if_pos rfl], hx⟩
    · refine ⟨h, block, (dropsBlock_insertBlock hR hfree).mpr (Or.inr hd), ?_, hx⟩
      rw [lookup_blocks_insertBlock, if_neg, hlook]
      rintro rfl
      rw [hnew] at hlook
      cases hlook

/-- A block at a height to be dropped makes no difference to what is left, if its
hash is new and its transactions are not among those left. -/
theorem unwound_insertBlock {t : BlockchainStorage} (h : Unwound s R t) (hR : R number)
    (hfree : s.hashes.lookup number = none) (hnew : s.blocks.lookup hash = none)
    (hinfos : executed.transactions.map (·.transactionHash) = executed.block.txHashes)
    (htxs : ∀ x ∈ executed.block.txHashes, t.transactions.lookup x = none) :
    Unwound (s.insertBlock flag number hash executed) R t where
  hashes_of := h.hashes_of
  hashes_keep n hn := by
    rw [h.hashes_keep n hn, lookup_hashes_insertBlock, if_neg]
    rintro rfl
    exact hn hR
  blocks_of k hd := by
    rcases (dropsBlock_insertBlock hR hfree).mp hd with rfl | hd
    · exact h.block_stays_away hnew
    · exact h.blocks_of k hd
  blocks_keep k hd := by
    rw [dropsBlock_insertBlock hR hfree, not_or] at hd
    rw [h.blocks_keep k hd.2, lookup_blocks_insertBlock, if_neg hd.1]
  txs_of x hd := by
    rcases (dropsTx_insertBlock hR hfree hnew).mp hd with hx | hd
    · exact htxs x hx
    · exact h.txs_of x hd
  txs_keep x hd := by
    rw [dropsTx_insertBlock hR hfree hnew, not_or] at hd
    rw [h.txs_keep x hd.2, lookup_insertBlock_of_notMem hinfos hd.1]

/-- Old transactions are removed, heights are not. -/
theorem keepTransactions_heights (s : BlockchainStorage) (keeper : Option UInt64)
    (number : UInt64) :
    (s.keepTransactions keeper number).hashes = s.hashes ∧
      (s.keepTransactions keeper number).bestNumber = s.bestNumber ∧
      (s.keepTransactions keeper number).bestHash = s.bestHash := by
  unfold keepTransactions removeBlockTransactionsByNumber removeBlockTransactions
  repeat' split
  all_goals exact ⟨rfl, rfl, rfl⟩

end BlockchainStorage

/-! ### The number of the next block -/

namespace Backend

/-- The environment is that of the best block, as far as its number goes. -/
def NumberInStep (b : Backend) : Prop :=
  Word.saturatingToU64 b.env.blockEnv.number = b.bestNumber

variable {txs : List PoolTransaction}
  {executed : ExecutedTransactions} {inner : CacheDb} {env : EvmEnv}

theorem header_number_of_executeBlock {number : UInt64}
    (h : b.executeBlock rt now number txs = some (executed, inner, env)) :
    executed.block.header.number = saturatingToU64 env.blockEnv.number ∧
      env.blockEnv.number = (b.nextEnv rt number).blockEnv.number := by
  obtain ⟨⟨executed', inner'⟩, hexec, heq⟩ := Option.map_eq_some_iff.mp h
  cases heq
  obtain ⟨⟨a, ex⟩, -, heq⟩ := Option.map_eq_some_iff.mp hexec
  cases heq
  exact ⟨rfl, rfl⟩

/-- The next block carries the number it is stored at. -/
theorem NumberInStep.header_number (h : b.NumberInStep)
    (hexec : b.executeBlock rt now (saturatingAdd b.bestNumber 1) txs =
      some (executed, inner, env)) :
    executed.block.header.number = saturatingAdd b.bestNumber 1 := by
  obtain ⟨hheader, henv⟩ := header_number_of_executeBlock hexec
  rw [hheader, henv, nextEnv]
  split
  · exact saturatingToU64_ofU64 _
  · rw [saturatingToU64_saturatingAdd_one, h]

theorem NumberInStep.mine (h : b.NumberInStep) {ord : DbOrder}
    (hstep : BackendStep rt b (.mine ord now txs) b') : b'.NumberInStep := by
  obtain ⟨states, executed, inner, env, -, hexec, rfl⟩ := mine_eq hstep
  have hbest := (BlockchainStorage.keepTransactions_heights (b.blockchain.insertBlock b.isEip3675
    (saturatingAdd b.bestNumber 1) (rt.evm.hashSlow executed.block.header) executed)
    b.transactionBlockKeeper (saturatingAdd b.bestNumber 1)).2.1
  show saturatingToU64 env.blockEnv.number = _
  rw [← (header_number_of_executeBlock hexec).1, h.header_number hexec]
  exact hbest.symm

end Backend

end BaseAnvil.Chain

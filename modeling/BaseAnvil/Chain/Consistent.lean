import BaseAnvil.Chain.Frame

/-!
# BaseAnvil.Chain.Consistent

The four indexes of the chain agree.

`Consistent` says what the indexes have to do with each other: heights name blocks,
blocks name their parents, and the transactions indexed are those in the bodies. It is
kept by each of the three things that happen to a chain: a new block is stored, old
bodies are dropped, and the chain is unwound to a block it has.
-/

namespace BaseAnvil.Chain

open Lib BlockchainStorage HashMap
open Pool (B256 TxHash)
open UInt64 (le_iff_toNat_le)

/-- The indexes of a chain from `genesisNumber` on agree. -/
structure Consistent (hashSlow : Header → B256) (genesisNumber : UInt64) (s : BlockchainStorage) :
    Prop where
  /-- There is a hash for the heights from genesis to the best block. -/
  heights : ∀ n, (s.hashes.lookup n).isSome ↔ genesisNumber ≤ n ∧ n ≤ s.bestNumber
  best : s.hashes.lookup s.bestNumber = some s.bestHash
  /-- The blocks are those the heights name. -/
  named : ∀ hash, (s.blocks.lookup hash).isSome ↔ ∃ n, s.hashes.lookup n = some hash
  block : ∀ n hash block, s.hashes.lookup n = some hash → s.blocks.lookup hash = some block →
    block.header.number = n ∧ hashSlow block.header = hash
  parent : ∀ n hash block, s.hashes.lookup n = some hash → s.blocks.lookup hash = some block →
    genesisNumber < n → s.hashes.lookup (n - 1) = some block.header.parentHash
  /-- The transactions in the bodies are indexed, with where they are. -/
  indexed : ∀ hash block (i : Nat) x, s.blocks.lookup hash = some block →
    block.txHashes[i]? = some x → ∃ m, s.transactions.lookup x = some m ∧
      m.info.transactionHash = x ∧ m.blockHash = hash ∧ m.blockNumber = block.header.number ∧
      m.info.transactionIndex = UInt64.ofNat i
  /-- No other transactions are. -/
  body : ∀ x m, s.transactions.lookup x = some m →
    ∃ block, s.blocks.lookup m.blockHash = some block ∧ x ∈ block.txHashes

/-- A block that goes on top of the chain and is new to it. -/
structure NextBlock (hashSlow : Header → B256) (s : BlockchainStorage) (block : Block) : Prop where
  number : block.header.number.toNat = s.bestNumber.toNat + 1
  hash : s.blocks.lookup (hashSlow block.header) = none
  nodup : block.txHashes.Nodup
  transactions : ∀ x ∈ block.txHashes, s.transactions.lookup x = none

/-- Infos and receipts are those of the transactions in the body, in order. -/
structure ExecutedTransactions.InOrder (executed : ExecutedTransactions) : Prop where
  infos : executed.transactions.map (·.transactionHash) = executed.block.txHashes
  index : ∀ (i : Nat) info, executed.transactions[i]? = some info →
    info.transactionIndex = UInt64.ofNat i
  receipts : executed.transactions.length ≤ executed.receipts.length

namespace Consistent

variable {hashSlow : Header → B256} {genesisNumber : UInt64} {s t : BlockchainStorage}
  {hash : B256} {n : UInt64} {block : Block}

section

variable (h : Consistent hashSlow genesisNumber s)
include h

theorem of_height (hn : s.hashes.lookup n = some hash) : genesisNumber ≤ n ∧ n ≤ s.bestNumber :=
  (h.heights n).mp (by rw [hn]; rfl)

theorem genesis_le_best : genesisNumber ≤ s.bestNumber :=
  (h.of_height h.best).1

theorem exists_block (hn : s.hashes.lookup n = some hash) :
    ∃ block, s.blocks.lookup hash = some block :=
  Option.isSome_iff_exists.mp ((h.named hash).mpr ⟨n, hn⟩)

/-- A block is at one height only. -/
theorem height_unique {m : UInt64} (hn : s.hashes.lookup n = some hash)
    (hm : s.hashes.lookup m = some hash) : n = m := by
  obtain ⟨block, hblock⟩ := h.exists_block hn
  exact (h.block n hash block hn hblock).1.symm.trans (h.block m hash block hm hblock).1

/-- A transaction is in one block only. -/
theorem block_unique {hash' : B256} {block' : Block} {x : TxHash}
    (hblock : s.blocks.lookup hash = some block) (hblock' : s.blocks.lookup hash' = some block')
    (hx : x ∈ block.txHashes) (hx' : x ∈ block'.txHashes) : hash = hash' := by
  obtain ⟨i, hi⟩ := List.mem_iff_getElem?.mp hx
  obtain ⟨j, hj⟩ := List.mem_iff_getElem?.mp hx'
  obtain ⟨m, hm, -, rfl, -⟩ := h.indexed hash block i x hblock hi
  obtain ⟨m', hm', -, rfl, -⟩ := h.indexed hash' block' j x hblock' hj
  rw [hm] at hm'
  cases hm'
  rfl

end

/-! ### Genesis -/

theorem lookup_hashes_ofGenesis :
    (BlockchainStorage.ofGenesis hashSlow block genesisNumber).hashes.lookup n = some hash ↔
      n = genesisNumber ∧ hash = hashSlow block.header := by
  refine (Eq.congr_left (lookup_insert_ite ∅ _ _ _)).trans ?_
  by_cases hn : n = genesisNumber <;> simp [hn, eq_comm]

theorem lookup_blocks_ofGenesis {b : Block} :
    (BlockchainStorage.ofGenesis hashSlow block genesisNumber).blocks.lookup hash = some b ↔
      hash = hashSlow block.header ∧ b = block := by
  refine (Eq.congr_left (lookup_insert_ite ∅ _ _ _)).trans ?_
  by_cases hh : hash = hashSlow block.header <;> simp [hh, eq_comm]

theorem ofGenesis (hnumber : block.header.number = genesisNumber)
    (hbody : block.transactions = []) :
    Consistent hashSlow genesisNumber
      (BlockchainStorage.ofGenesis hashSlow block genesisNumber) := by
  refine ⟨fun n => ?_, lookup_hashes_ofGenesis.mpr ⟨rfl, rfl⟩, fun hash => ?_, ?_, ?_, ?_, ?_⟩
  · rw [Option.isSome_iff_exists]
    simp only [lookup_hashes_ofGenesis]
    show (∃ hash, n = genesisNumber ∧ hash = _) ↔ genesisNumber ≤ n ∧ n ≤ genesisNumber
    rw [le_iff_toNat_le, le_iff_toNat_le, ← UInt64.toNat_inj]
    constructor
    · rintro ⟨_, hn, -⟩
      omega
    · intro hn
      exact ⟨_, by omega, rfl⟩
  · rw [Option.isSome_iff_exists]
    simp only [lookup_blocks_ofGenesis, lookup_hashes_ofGenesis]
    constructor
    · rintro ⟨_, rfl, -⟩
      exact ⟨_, rfl, rfl⟩
    · rintro ⟨_, -, rfl⟩
      exact ⟨_, rfl, rfl⟩
  · intro n hash b hn hb
    obtain ⟨rfl, rfl⟩ := lookup_hashes_ofGenesis.mp hn
    obtain ⟨-, rfl⟩ := lookup_blocks_ofGenesis.mp hb
    exact ⟨hnumber, rfl⟩
  · intro n hash b hn _ hlt
    obtain ⟨rfl, -⟩ := lookup_hashes_ofGenesis.mp hn
    exact absurd hlt (UInt64.lt_irrefl _)
  · intro hash b i x hb hx
    obtain ⟨-, rfl⟩ := lookup_blocks_ofGenesis.mp hb
    rw [Block.txHashes, hbody] at hx
    simp at hx
  · intro x m hx
    exact absurd hx (by simp [BlockchainStorage.ofGenesis])

/-! ### A new block -/

theorem lookup_insertTransactions_of_mem {transactions : HashMap TxHash MinedTransaction}
    {number : UInt64} {mined : List (TransactionInfo × Receipt)}
    (hnodup : (mined.map (·.1.transactionHash)).Nodup) {info : TransactionInfo} {receipt : Receipt}
    (hmem : (info, receipt) ∈ mined) :
    (insertTransactions transactions hash number mined).lookup
      info.transactionHash = some ⟨info, receipt, hash, number⟩ := by
  induction mined generalizing transactions with
  | nil => cases hmem
  | cons entry mined ih =>
    obtain ⟨hnot, hrest⟩ := List.nodup_cons.mp hnodup
    rcases List.mem_cons.mp hmem with rfl | hmem
    · show (insertTransactions _ hash number mined).lookup _ = _
      rw [lookup_insertTransactions_of_notMem hnot,
        Finmap.lookup_insert]
    · exact ih hrest hmem

/-- The entry of a transaction in the new block. -/
theorem lookup_insertBlock_of_mem {executed : ExecutedTransactions} (horder : executed.InOrder)
    (hnodup : executed.block.txHashes.Nodup) {flag : Bool} {number : UInt64} {i : Nat} {x : TxHash}
    (hx : executed.block.txHashes[i]? = some x) :
    ∃ m, (s.insertBlock flag number hash executed).transactions.lookup x = some m ∧
      m.info.transactionHash = x ∧ m.blockHash = hash ∧ m.blockNumber = number ∧
      m.info.transactionIndex = UInt64.ofNat i := by
  rw [← horder.infos, List.getElem?_map] at hx
  obtain ⟨info, hinfo, rfl⟩ := Option.map_eq_some_iff.mp hx
  have hi : i < executed.receipts.length :=
    Nat.lt_of_lt_of_le (List.getElem?_eq_some_iff.mp hinfo).1 horder.receipts
  have hreceipt : executed.receipts[i]? = some executed.receipts[i] := List.getElem?_eq_getElem hi
  have hmem : (info, executed.receipts[i]) ∈ executed.transactions.zip executed.receipts := by
    refine List.mem_of_getElem? (i := i) ?_
    rw [List.getElem?_zip_eq_some]
    exact ⟨hinfo, hreceipt⟩
  refine ⟨_, lookup_insertTransactions_of_mem ?_ hmem, rfl, rfl, rfl, horder.index i info hinfo⟩
  -- the receipts do not cut the list short
  have hzip : (executed.transactions.zip executed.receipts).map (·.1.transactionHash) =
      executed.transactions.map (·.transactionHash) := by
    conv_rhs => rw [← List.map_fst_zip horder.receipts]
    rw [List.map_map]
    rfl
  rw [hzip, horder.infos]
  exact hnodup

section

variable (h : Consistent hashSlow genesisNumber s)
include h

theorem insertBlock {executed : ExecutedTransactions}
    (hnext : NextBlock hashSlow s executed.block) (horder : executed.InOrder)
    (hparent : executed.block.header.parentHash = s.bestHash) (flag : Bool) :
    Consistent hashSlow genesisNumber (s.insertBlock flag executed.block.header.number
      (hashSlow executed.block.header) executed) := by
  have hgenesis := le_iff_toNat_le.mp h.genesis_le_best
  have hnumber := hnext.number
  -- heights in use are below the new one, hashes in use are not the new one
  have hbelow : ∀ n hash, s.hashes.lookup n = some hash → n ≠ executed.block.header.number := by
    rintro n hash hn rfl
    have hle := le_iff_toNat_le.mp (h.of_height hn).2
    omega
  have hother : ∀ hash, (s.blocks.lookup hash).isSome → hash ≠ hashSlow executed.block.header := by
    rintro hash hsome rfl
    rw [hnext.hash] at hsome
    cases hsome
  have hold : ∀ n hash, s.hashes.lookup n = some hash →
      (s.insertBlock flag executed.block.header.number (hashSlow executed.block.header)
        executed).hashes.lookup n = some hash := by
    intro n hash hn
    rw [lookup_hashes_insertBlock, if_neg (hbelow n hash hn), hn]
  refine ⟨fun n => ?_, ?_, fun hash => ?_, ?_, ?_, ?_, ?_⟩
  · rw [lookup_hashes_insertBlock]
    show _ ↔ genesisNumber ≤ n ∧ n ≤ executed.block.header.number
    by_cases hn : n = executed.block.header.number
    · subst hn
      simp only [if_true, Option.isSome_some, true_iff, le_iff_toNat_le]
      omega
    · have hne : n.toNat ≠ executed.block.header.number.toNat := fun heq =>
        hn (UInt64.toNat_inj.mp heq)
      rw [if_neg hn, h.heights, le_iff_toNat_le, le_iff_toNat_le,
        le_iff_toNat_le]
      omega
  · exact (lookup_hashes_insertBlock _).trans (if_pos rfl)
  · rw [lookup_blocks_insertBlock]
    by_cases hh : hash = hashSlow executed.block.header
    · rw [if_pos hh]
      simp only [Option.isSome_some, true_iff]
      exact ⟨_, by rw [lookup_hashes_insertBlock, if_pos rfl, hh]⟩
    · rw [if_neg hh, h.named]
      constructor
      · rintro ⟨n, hn⟩
        exact ⟨n, hold n hash hn⟩
      · rintro ⟨n, hn⟩
        rw [lookup_hashes_insertBlock] at hn
        split at hn
        · exact absurd (Option.some.inj hn).symm hh
        · exact ⟨n, hn⟩
  · intro n hash block hn hblock
    rw [lookup_hashes_insertBlock] at hn
    rw [lookup_blocks_insertBlock] at hblock
    split at hn
    · rename_i heq
      cases hn
      rw [if_pos rfl] at hblock
      cases hblock
      exact ⟨heq.symm, rfl⟩
    · rw [if_neg (hother hash ((h.named hash).mpr ⟨n, hn⟩))] at hblock
      exact h.block n hash block hn hblock
  · intro n hash block hn hblock hlt
    rw [lookup_hashes_insertBlock] at hn
    rw [lookup_blocks_insertBlock] at hblock
    split at hn
    · rename_i heq
      cases hn
      rw [if_pos rfl] at hblock
      cases hblock
      have hpred : n - 1 = s.bestNumber := by
        rw [← UInt64.toNat_inj, UInt64.toNat_sub_of_le _ _ (by
          rw [le_iff_toNat_le, UInt64.toNat_one, heq]
          omega), UInt64.toNat_one, heq]
        omega
      rw [hpred, hparent]
      exact hold _ _ h.best
    · rw [if_neg (hother hash ((h.named hash).mpr ⟨n, hn⟩))] at hblock
      exact hold _ _ (h.parent n hash block hn hblock hlt)
  · intro hash block i x hblock hx
    rw [lookup_blocks_insertBlock] at hblock
    split at hblock
    · rename_i heq
      cases hblock
      obtain ⟨m, hm, hxm, hhash, hnum, hidx⟩ := lookup_insertBlock_of_mem horder hnext.nodup hx
      exact ⟨m, hm, hxm, hhash.trans heq.symm, hnum, hidx⟩
    · obtain ⟨m, hm, hrest⟩ := h.indexed hash block i x hblock hx
      refine ⟨m, ?_, hrest⟩
      rw [lookup_insertBlock_of_notMem horder.infos, hm]
      intro hmem
      rw [hnext.transactions x hmem] at hm
      cases hm
  · intro x m hm
    by_cases hx : x ∈ executed.block.txHashes
    · obtain ⟨i, hi⟩ := List.mem_iff_getElem?.mp hx
      obtain ⟨m', hm', -, hhash, -⟩ := lookup_insertBlock_of_mem horder hnext.nodup hi
      rw [hm] at hm'
      cases hm'
      refine ⟨executed.block, ?_, hx⟩
      rw [hhash, lookup_blocks_insertBlock, if_pos rfl]
    · rw [lookup_insertBlock_of_notMem horder.infos hx] at hm
      obtain ⟨block, hblock, hmem⟩ := h.body x m hm
      refine ⟨block, ?_, hmem⟩
      rw [lookup_blocks_insertBlock,
        if_neg (hother _ (by rw [hblock]; rfl)), hblock]

/-! ### Old bodies -/

theorem removeBlockTransactions (hash : B256) :
    Consistent hashSlow genesisNumber (s.removeBlockTransactions hash) := by
  unfold BlockchainStorage.removeBlockTransactions
  cases hlook : s.blocks.lookup hash with
  | none => exact h
  | some block =>
    have hblocks : ∀ k, (s.blocks.insert hash { block with transactions := [] }).lookup k =
        if k = hash then some { block with transactions := [] } else s.blocks.lookup k :=
      fun k => lookup_insert_ite _ _ _ _
    -- apart from the body there is the same block under every hash
    have hheader : ∀ k b,
        (s.blocks.insert hash { block with transactions := [] }).lookup k = some b →
        ∃ b', s.blocks.lookup k = some b' ∧ b'.header = b.header := by
      intro k b hb
      rw [hblocks] at hb
      split at hb
      · rename_i heq
        cases hb
        exact ⟨block, heq ▸ hlook, rfl⟩
      · exact ⟨b, hb, rfl⟩
    refine ⟨h.heights, h.best, fun k => ?_, ?_, ?_, ?_, ?_⟩
    · refine Iff.trans ?_ (h.named k)
      rw [hblocks]
      by_cases hk : k = hash
      · subst hk
        rw [if_pos rfl, hlook]
        rfl
      · rw [if_neg hk]
    · intro n k b hn hb
      obtain ⟨b', hb', heq⟩ := hheader k b hb
      rw [← heq]
      exact h.block n k b' hn hb'
    · intro n k b hn hb hlt
      obtain ⟨b', hb', heq⟩ := hheader k b hb
      rw [← heq]
      exact h.parent n k b' hn hb' hlt
    · intro k b i x hb hx
      rw [hblocks] at hb
      split at hb
      · cases hb
        simp [Block.txHashes] at hx
      · rename_i hk
        obtain ⟨m, hm, hrest⟩ := h.indexed k b i x hb hx
        refine ⟨m, ?_, hrest⟩
        rw [lookup_forget, if_neg, hm]
        exact fun hmem => hk (h.block_unique hb hlook (List.mem_of_getElem? hx) hmem)
    · intro x m hm
      rw [lookup_forget] at hm
      split at hm
      · cases hm
      · rename_i hx
        obtain ⟨b, hb, hmem⟩ := h.body x m hm
        refine ⟨b, ?_, hmem⟩
        rw [hblocks, if_neg, hb]
        rintro heq
        rw [heq, hlook] at hb
        cases hb
        exact hx hmem

theorem keepTransactions (keeper : Option UInt64)
    (number : UInt64) : Consistent hashSlow genesisNumber (s.keepTransactions keeper number) := by
  unfold BlockchainStorage.keepTransactions removeBlockTransactionsByNumber
  repeat' split
  all_goals first | exact h | exact h.removeBlockTransactions _

end

/-! ### Unwinding -/

variable (h : Consistent hashSlow genesisNumber s)
include h

/-- Without the heights above one that stays the indexes still agree. -/
theorem unwound (hu : Unwound s (fun m => n < m ∧ m ≤ s.bestNumber) t) (hnumber : t.bestNumber = n)
    (hbest : s.hashes.lookup n = some t.bestHash) : Consistent hashSlow genesisNumber t := by
  have hn := h.of_height hbest
  have hkept : ∀ m, m ≤ n → ¬(n < m ∧ m ≤ s.bestNumber) := fun m hm hlt =>
    UInt64.not_le.mpr hlt.1 hm
  refine ⟨fun m => ?_, ?_, fun hash => ?_, ?_, ?_, ?_, ?_⟩
  · rw [hnumber]
    by_cases hm : m ≤ n
    · rw [hu.hashes_keep m (hkept m hm), h.heights]
      exact and_congr_right fun _ => ⟨fun _ => hm, fun _ => UInt64.le_trans hm hn.2⟩
    · refine ⟨fun hsome => ?_, fun hle => absurd hle.2 hm⟩
      obtain ⟨hash, hhash⟩ := Option.isSome_iff_exists.mp hsome
      obtain ⟨hnot, hold⟩ := hu.hashes_eq_some hhash
      exact absurd ⟨UInt64.not_le.mp hm, (h.of_height hold).2⟩ hnot
  · rw [hnumber, hu.hashes_keep n (hkept n (UInt64.le_refl n)), hbest]
  · constructor
    · intro hsome
      obtain ⟨block, hblock⟩ := Option.isSome_iff_exists.mp hsome
      obtain ⟨hnot, hold⟩ := hu.blocks_eq_some hblock
      obtain ⟨m, hm⟩ := (h.named hash).mp (by rw [hold]; rfl)
      exact ⟨m, (hu.hashes_keep m fun hR => hnot ⟨m, hR, hm⟩).trans hm⟩
    · rintro ⟨m, hm⟩
      obtain ⟨hnot, hold⟩ := hu.hashes_eq_some hm
      rw [hu.blocks_keep hash, h.named]
      · exact ⟨m, hold⟩
      · rintro ⟨m', hR, hm'⟩
        exact hnot (h.height_unique hm' hold ▸ hR)
  · intro m hash block hm hblock
    exact h.block m hash block (hu.hashes_eq_some hm).2 (hu.blocks_eq_some hblock).2
  · intro m hash block hm hblock hlt
    obtain ⟨hnot, hold⟩ := hu.hashes_eq_some hm
    have hparent := h.parent m hash block hold (hu.blocks_eq_some hblock).2 hlt
    refine (hu.hashes_keep _ fun hR => hnot ⟨?_, (h.of_height hold).2⟩).trans hparent
    refine UInt64.lt_of_lt_of_le hR.1 ?_
    rw [le_iff_toNat_le, UInt64.toNat_sub_of_le]
    · omega
    · rw [le_iff_toNat_le]
      exact Nat.succ_le_of_lt (Nat.zero_lt_of_lt (UInt64.lt_iff_toNat_lt.mp hlt))
  · intro hash block i x hblock hx
    obtain ⟨hnot, hold⟩ := hu.blocks_eq_some hblock
    obtain ⟨m, hm, hrest⟩ := h.indexed hash block i x hold hx
    refine ⟨m, (hu.txs_keep x ?_).trans hm, hrest⟩
    rintro ⟨hash', block', hd, hblock', hx'⟩
    exact hnot (h.block_unique hold hblock' (List.mem_of_getElem? hx) hx' ▸ hd)
  · intro x m hm
    obtain ⟨hnot, hold⟩ := hu.txs_eq_some hm
    obtain ⟨block, hblock, hx⟩ := h.body x m hold
    refine ⟨block, (hu.blocks_keep _ fun hd => hnot ⟨_, block, hd, hblock, hx⟩).trans hblock, hx⟩

theorem unwindTo (hn : s.hashes.lookup n = some hash) (hmax : n ≠ U64.max) :
    Consistent hashSlow genesisNumber (s.unwindTo n hash) := by
  refine h.unwound ((unwound_unwindTo s n hash).congr fun m => ?_) rfl hn
  rw [U64.add_one_le_iff hmax]
  rfl

end Consistent

end BaseAnvil.Chain

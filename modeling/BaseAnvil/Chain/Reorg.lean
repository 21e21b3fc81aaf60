import BaseAnvil.Chain.Accounting
import BaseAnvil.Chain.Consistent
import Mathlib.Order.Interval.Finset.Nat

/-!
# BaseAnvil.Chain.Reorg

The chain under mining, `anvil_rollback` and `anvil_reorg`.

The indexes agree in every state reached (`Consistent`). A reorg goes back and mines
as many blocks again, so the best number is as before; that it does not touch the
blocks it goes back to takes one more fact, `Pruned`: the bodies that the new blocks
make too old were too old for the blocks they replace.
-/

namespace BaseAnvil.Chain

open Lib BlockchainStorage U64 TransactionExecutor
open Pool (B256 PoolTransaction)
open UInt64 (le_iff_toNat_le)

variable {hashSlow : Header → B256} {genesisNumber : UInt64} {s t : BlockchainStorage}

/-! ### Which bodies are kept -/

/-- There is one block for each height. -/
theorem Consistent.card_blocks (h : Consistent hashSlow genesisNumber s) :
    s.blocks.keys.card = s.bestNumber.toNat + 1 - genesisNumber.toNat := by
  have hlook : ∀ i ∈ Finset.Icc genesisNumber.toNat s.bestNumber.toNat,
      ∃ hash, s.hashes.lookup (UInt64.ofNat i) = some hash ∧ (UInt64.ofNat i).toNat = i := by
    intro i hi
    obtain ⟨hlo, hhi⟩ := Finset.mem_Icc.mp hi
    have hlt : i < 2 ^ 64 := Nat.lt_of_le_of_lt hhi s.bestNumber.toNat_lt
    have hnat : (UInt64.ofNat i).toNat = i := UInt64.toNat_ofNat_of_lt' hlt
    obtain ⟨hash, hhash⟩ := Option.isSome_iff_exists.mp ((h.heights (UInt64.ofNat i)).mpr (by
      rw [le_iff_toNat_le, le_iff_toNat_le, hnat]
      exact ⟨hlo, hhi⟩))
    exact ⟨hash, hhash, hnat⟩
  have hkeys : s.blocks.keys = (Finset.Icc genesisNumber.toNat s.bestNumber.toNat).image
      fun i => (s.hashes.lookup (UInt64.ofNat i)).getD 0 := by
    ext hash
    rw [Finmap.mem_keys, ← Finmap.lookup_isSome, h.named, Finset.mem_image]
    constructor
    · rintro ⟨n, hn⟩
      have hle := h.of_height hn
      simp only [le_iff_toNat_le] at hle
      exact ⟨n.toNat, Finset.mem_Icc.mpr hle, by rw [UInt64.ofNat_toNat, hn]; rfl⟩
    · rintro ⟨i, hi, rfl⟩
      obtain ⟨hash, hhash, -⟩ := hlook i hi
      exact ⟨UInt64.ofNat i, by rw [hhash]; rfl⟩
  rw [hkeys, Finset.card_image_of_injOn, Nat.card_Icc]
  intro i hi j hj heq
  obtain ⟨hash, hhash, hi'⟩ := hlook i hi
  obtain ⟨hash', hhash', hj'⟩ := hlook j hj
  dsimp only at heq
  rw [hhash, hhash'] at heq
  obtain rfl : hash = hash' := heq
  rw [← hi', ← hj', h.height_unique hhash hhash']

/-- The block leaves the range within which the keeper keeps transactions. -/
def Leaves (keeper : Option UInt64) (number n : UInt64) : Prop :=
  ∃ k, keeper = some k ∧ n.toNat + k.toNat = number.toNat

variable {hash : B256} {n : UInt64}

/-- Of a block that leaves the range the body is dropped, the others stay as they are. -/
theorem Consistent.keepTransactions_block (h : Consistent hashSlow genesisNumber s)
    (keeper : Option UInt64) {block : Block} (hn : s.hashes.lookup n = some hash)
    (hblock : s.blocks.lookup hash = some block) :
    (Leaves keeper s.bestNumber n →
      (s.keepTransactions keeper s.bestNumber).blocks.lookup hash =
        some { block with transactions := [] }) ∧
    (¬Leaves keeper s.bestNumber n →
      (s.keepTransactions keeper s.bestNumber).blocks.lookup hash = some block) := by
  have hle := h.of_height hn
  have hgenesis := h.genesis_le_best
  rw [le_iff_toNat_le] at hgenesis
  simp only [le_iff_toNat_le] at hle
  cases keeper with
  | none =>
    refine ⟨?_, fun _ => hblock⟩
    rintro ⟨k, hk, -⟩
    cases hk
  | some k =>
    have hleaves : Leaves (some k) s.bestNumber n ↔ n.toNat + k.toNat = s.bestNumber.toNat := by
      simp [Leaves]
    rw [hleaves]
    unfold BlockchainStorage.keepTransactions
    dsimp only
    rw [h.card_blocks]
    split
    · -- the height is that of a block: there are more than `k` of them
      rename_i hk
      have hkle : k ≤ s.bestNumber := by
        rw [le_iff_toNat_le]
        omega
      have hsub : (saturatingSub s.bestNumber k).toNat = s.bestNumber.toNat - k.toNat := by
        rw [saturatingSub, if_pos hkle, UInt64.toNat_sub_of_le _ _ hkle]
      obtain ⟨hash', hhash'⟩ := Option.isSome_iff_exists.mp
        ((h.heights (saturatingSub s.bestNumber k)).mpr (by
          rw [le_iff_toNat_le, le_iff_toNat_le, hsub]
          omega))
      obtain ⟨block', hblock'⟩ := h.exists_block hhash'
      rw [removeBlockTransactionsByNumber, hhash']
      dsimp only
      rw [BlockchainStorage.removeBlockTransactions, hblock']
      rw [HashMap.lookup_insert_ite]
      refine ⟨fun heq => ?_, fun hne => ?_⟩
      · obtain rfl : n = saturatingSub s.bestNumber k := by
          rw [← UInt64.toNat_inj, hsub]
          omega
        obtain rfl : hash = hash' := Option.some.inj (hn.symm.trans hhash')
        obtain rfl : block = block' := Option.some.inj (hblock.symm.trans hblock')
        rw [if_pos rfl]
      · rw [if_neg, hblock]
        rintro rfl
        obtain rfl := h.height_unique hn hhash'
        omega
    · exact ⟨fun heq => by omega, fun _ => hblock⟩

/-- Up to the height `c`, the bodies outside the range are empty, where the range is
that of a chain of height `upTo`. -/
def Pruned (keeper : Option UInt64) (c upTo : UInt64) (s : BlockchainStorage) : Prop :=
  ∀ k, keeper = some k → ∀ n ≤ c, ∀ hash block, s.hashes.lookup n = some hash →
    s.blocks.lookup hash = some block → n.toNat + k.toNat ≤ upTo.toNat → block.transactions = []

/-- The same blocks at the heights up to `c`. -/
structure SameUpTo (c : UInt64) (s t : BlockchainStorage) : Prop where
  hashes : ∀ n ≤ c, t.hashes.lookup n = s.hashes.lookup n
  blocks : ∀ n ≤ c, ∀ hash, s.hashes.lookup n = some hash →
    t.blocks.lookup hash = s.blocks.lookup hash

theorem SameUpTo.refl (c : UInt64) (s : BlockchainStorage) : SameUpTo c s s :=
  ⟨fun _ _ => rfl, fun _ _ _ _ => rfl⟩

variable {c : UInt64}

theorem SameUpTo.trans {u : BlockchainStorage} (h : SameUpTo c s t) (h' : SameUpTo c t u) :
    SameUpTo c s u where
  hashes n hn := (h'.hashes n hn).trans (h.hashes n hn)
  blocks n hn hash hhash :=
    (h'.blocks n hn hash ((h.hashes n hn).trans hhash)).trans (h.blocks n hn hash hhash)

variable {keeper : Option UInt64} {upTo : UInt64}

theorem Pruned.congr (h : Pruned keeper c upTo s) (hsame : SameUpTo c s t) :
    Pruned keeper c upTo t := by
  intro k hk n hn hash block hhash hblock
  have hhash' := (hsame.hashes n hn).symm.trans hhash
  exact h k hk n hn hash block hhash' ((hsame.blocks n hn hash hhash').symm.trans hblock)

theorem Pruned.mono {c' upTo' : UInt64} (h : Pruned keeper c upTo s) (hc : c' ≤ c)
    (hupTo : upTo' ≤ upTo) : Pruned keeper c' upTo' s := by
  intro k hk n hn hash block hhash hblock hle
  exact h k hk n (UInt64.le_trans hn hc) hash block hhash hblock
    (Nat.le_trans hle (le_iff_toNat_le.mp hupTo))

/-! ### A new block -/

section Mined

variable {executed : ExecutedTransactions} (h : Consistent hashSlow genesisNumber s)
  (hnext : NextBlock hashSlow s executed.block) (horder : executed.InOrder)
  (hparent : executed.block.header.parentHash = s.bestHash) (flag : Bool)
  (keeper : Option UInt64)

/-- What mining makes of the chain. -/
def BlockchainStorage.mined (hashSlow : Header → B256) (s : BlockchainStorage) (flag : Bool)
    (keeper : Option UInt64) (executed : ExecutedTransactions) : BlockchainStorage :=
  (s.insertBlock flag executed.block.header.number (hashSlow executed.block.header)
    executed).keepTransactions keeper executed.block.header.number

include h hnext

theorem Consistent.lookup_insertBlock (hn : s.hashes.lookup n = some hash) :
    (s.insertBlock flag executed.block.header.number (hashSlow executed.block.header)
      executed).hashes.lookup n = some hash ∧
    (s.insertBlock flag executed.block.header.number (hashSlow executed.block.header)
      executed).blocks.lookup hash = s.blocks.lookup hash := by
  have hle := le_iff_toNat_le.mp (h.of_height hn).2
  have hnumber := hnext.number
  rw [lookup_hashes_insertBlock, lookup_blocks_insertBlock,
    if_neg, if_neg]
  · exact ⟨hn, rfl⟩
  · rintro rfl
    obtain ⟨block, hblock⟩ := h.exists_block hn
    rw [hnext.hash] at hblock
    cases hblock
  · rintro rfl
    omega

include horder hparent

theorem Consistent.mined :
    Consistent hashSlow genesisNumber (s.mined hashSlow flag keeper executed) :=
  (h.insertBlock hnext horder hparent flag).keepTransactions _ _

/-- The new block makes the body of at most one other block too old. -/
theorem Consistent.sameUpTo_mined (hc : c ≤ s.bestNumber) (hpruned : Pruned keeper c upTo s)
    (hupTo : executed.block.header.number ≤ upTo) :
    SameUpTo c s (s.mined hashSlow flag keeper executed) := by
  have hkept := keepTransactions_heights (s.insertBlock flag
    executed.block.header.number (hashSlow executed.block.header) executed) keeper
    executed.block.header.number
  have hnumber := hnext.number
  refine ⟨fun n hn => ?_, fun n hn hash hhash => ?_⟩
  · rw [BlockchainStorage.mined, hkept.1, lookup_hashes_insertBlock, if_neg]
    rintro rfl
    have hle := le_iff_toNat_le.mp (UInt64.le_trans hn hc)
    omega
  · obtain ⟨hnew, hsame⟩ := h.lookup_insertBlock hnext flag hhash
    obtain ⟨block, hblock⟩ := h.exists_block hhash
    have hins := h.insertBlock hnext horder hparent flag
    obtain ⟨hleaves, hstays⟩ := hins.keepTransactions_block keeper hnew (hsame.trans hblock)
    rw [hblock]
    by_cases hl : Leaves keeper executed.block.header.number n
    · refine (hleaves hl).trans (congrArg some ?_)
      obtain ⟨k, hk, hsum⟩ := hl
      have hempty : block.transactions = [] := by
        refine hpruned k hk n hn hash block hhash hblock ?_
        have hle := le_iff_toNat_le.mp hupTo
        omega
      cases block
      cases hempty
      rfl
    · exact hstays hl

theorem Consistent.pruned_mined (hpruned : Pruned keeper s.bestNumber s.bestNumber s) :
    Pruned keeper executed.block.header.number executed.block.header.number
      (s.mined hashSlow flag keeper executed) := by
  intro k hk n _ hash block hn hblock hle
  have hkept := keepTransactions_heights (s.insertBlock flag
    executed.block.header.number (hashSlow executed.block.header) executed) keeper
    executed.block.header.number
  rw [BlockchainStorage.mined, hkept.1] at hn
  have hins := h.insertBlock hnext horder hparent flag
  obtain ⟨old, hold⟩ := hins.exists_block hn
  obtain ⟨hleaves, hstays⟩ := hins.keepTransactions_block keeper hn hold
  by_cases hl : Leaves keeper executed.block.header.number n
  · have heq := hblock.symm.trans (hleaves hl)
    cases heq
    rfl
  · -- then it was outside the range before
    have heq := hblock.symm.trans (hstays hl)
    cases heq
    have hlt : n.toNat + k.toNat ≠ executed.block.header.number.toNat := fun hsum =>
      hl ⟨k, hk, hsum⟩
    have hnumber := hnext.number
    rw [lookup_hashes_insertBlock, if_neg] at hn
    · rw [(h.lookup_insertBlock hnext flag hn).2] at hold
      exact hpruned k hk n (h.of_height hn).2 hash block hn hold (by omega)
    · rintro rfl
      omega

end Mined

/-- Unwinding leaves the blocks up to the height it goes back to. -/
theorem Consistent.sameUpTo_unwindTo (h : Consistent hashSlow genesisNumber s)
    (hmax : c ≠ U64.max) : SameUpTo c s (s.unwindTo c hash) := by
  have hu := unwound_unwindTo s c hash
  have hkept : ∀ n, n ≤ c → ¬(c + 1 ≤ n ∧ n ≤ s.bestNumber) := by
    rintro n hn ⟨hlt, -⟩
    rw [add_one_le_iff hmax] at hlt
    exact UInt64.not_le.mpr hlt hn
  refine ⟨fun n hn => hu.hashes_keep n (hkept n hn), fun n hn hash' hhash => ?_⟩
  refine hu.blocks_keep hash' ?_
  rintro ⟨m, hR, hm⟩
  exact hkept n hn (h.height_unique hm hhash ▸ hR)

/-! ### Requests -/

namespace Backend

variable {rt : Runtime} {b b' : Backend} {now : UInt64} {txs : List PoolTransaction} {ord : DbOrder}
  {context : UInt64 → MiningContext} {readable : Bool}

theorem inOrder_of_executeBlock {number : UInt64} {executed : ExecutedTransactions}
    {inner : CacheDb} {env : EvmEnv}
    (h : b.executeBlock rt now number txs = some (executed, inner, env)) :
    executed.InOrder ∧ executed.block.header.parentHash = b.bestHash := by
  obtain ⟨⟨executed', inner'⟩, hexec, heq⟩ := Option.map_eq_some_iff.mp h
  cases heq
  have hinfos := infos_of_execute hexec
  obtain ⟨os, a, ex, -, hcollects, -, rfl⟩ := execute_eq_some hexec
  refine ⟨⟨hinfos, ?_, ?_⟩, rfl⟩
  · intro i info hinfo
    replace hinfo : a.transactionInfos[i]? = some info := hinfo
    rw [hcollects.infos, List.getElem?_mapIdx] at hinfo
    obtain ⟨tx, -, rfl⟩ := Option.map_eq_some_iff.mp hinfo
    rfl
  · show a.transactionInfos.length ≤ a.receipts.length
    rw [hcollects.infos, List.length_mapIdx, hcollects.length_receipts]

/-- The block about to be mined has the next number and is new, as are its transactions. -/
def MinesNext (rt : Runtime) (now : UInt64) (b : Backend) (txs : List PoolTransaction) : Prop :=
  ∀ executed inner env,
    b.executeBlock rt now (U64.saturatingAdd b.bestNumber 1) txs = some (executed, inner, env) →
    NextBlock rt.evm.hashSlow b.blockchain executed.block

/-- All blocks about to be mined are such, one after the other. -/
def MinesNextAll (rt : Runtime) (context : UInt64 → MiningContext)
    (txPairs : HashMap UInt64 (List PoolTransaction)) (b : Backend) : List UInt64 → Prop
  | [] => True
  | i :: rest =>
    b.MinesNext rt (context i).now ((txPairs.lookup i).getD []) ∧
    ∀ outcome b', b.doMineBlock rt (context i).ord (context i).now ((txPairs.lookup i).getD []) =
      some (outcome, b') → MinesNextAll rt context txPairs b' rest

/-- The block gone back to, if there is one, is not the last that a `u64` can count. -/
def GoesBack (b : Backend) (depth : UInt64) : Prop :=
  ∀ commonHeight, U64.checkedSub b.bestNumber depth = some commonHeight → commonHeight ≠ U64.max

/-- Mined blocks carry the next number, and their hash and their transactions are new. What is gone
back to is not the last block number there can be. -/
def Admissible (rt : Runtime) (b : Backend) : ChainOp → Prop
  | .mine _ now txs => b.MinesNext rt now txs
  | .rollback _ _ _ depth => b.GoesBack (depth.getD 1)
  | .reorg ord readable now context depth blockPoolTxs => b.GoesBack depth ∧
      ∀ commonHeight commonBlock txPairs b₁,
        U64.checkedSub b.bestNumber depth = some commonHeight →
        b.getBlock commonHeight = some commonBlock → blockPoolTxs = .ok txPairs →
        b.rollback rt ord readable now commonBlock = (.ok (), b₁) →
        b₁.MinesNextAll rt context txPairs ((List.range depth.toNat).map UInt64.ofNat)

/-- The indexes agree, and old bodies are dropped. -/
structure Sound (rt : Runtime) (genesisNumber : UInt64) (b : Backend) : Prop where
  consistent : Consistent rt.evm.hashSlow genesisNumber b.blockchain
  pruned : Pruned b.transactionBlockKeeper b.bestNumber b.bestNumber b.blockchain

theorem sound_withGenesis {g : Genesis} (h : withGenesis rt ord now g = some b) :
    b.Sound rt g.number := by
  obtain ⟨states, -, rfl⟩ := Option.map_eq_some_iff.mp h
  refine ⟨.ofGenesis rfl rfl, ?_⟩
  intro k _ n _ hash block _ hblock _
  obtain ⟨-, rfl⟩ := Consistent.lookup_blocks_ofGenesis.mp hblock
  rfl

variable {txPairs : HashMap UInt64 (List PoolTransaction)}

section

variable (h : b.Sound rt genesisNumber)
include h

/-- Mining keeps the chain sound, adds one block and leaves those below. -/
theorem Sound.mine (hnext : b.MinesNext rt now txs)
    (hstep : BackendStep rt b (.mine ord now txs) b') :
    b'.Sound rt genesisNumber ∧ b'.transactionBlockKeeper = b.transactionBlockKeeper ∧
      b'.bestNumber.toNat = b.bestNumber.toNat + 1 ∧
      ∀ c upTo, c ≤ b.bestNumber → Pruned b.transactionBlockKeeper c upTo b.blockchain →
        b'.bestNumber ≤ upTo → SameUpTo c b.blockchain b'.blockchain := by
  obtain ⟨executed, inner, env, hexec, hchain, hsame⟩ := mine_cases hstep
  obtain ⟨horder, hparent⟩ := inOrder_of_executeBlock hexec
  have hblock := hnext executed inner env hexec
  -- the number the block is stored at is the one it carries
  have hnumber : saturatingAdd b.bestNumber 1 = executed.block.header.number := by
    have hmax : b.bestNumber ≠ U64.max := by
      intro heq
      have hlt := executed.block.header.number.toNat_lt
      rw [hblock.number, ← bestNumber, heq] at hlt
      exact absurd hlt (by decide)
    rw [← UInt64.toNat_inj, toNat_saturatingAdd_one hmax, hblock.number]
    rfl
  rw [hnumber] at hchain
  replace hchain : b'.blockchain = b.blockchain.mined rt.evm.hashSlow b.isEip3675
    b.transactionBlockKeeper executed := hchain
  have hbest : b'.bestNumber = executed.block.header.number := by
    rw [bestNumber, hchain]
    exact (keepTransactions_heights _ _ _).2.1
  refine ⟨⟨?_, ?_⟩, hsame.keeper, ?_, ?_⟩
  · rw [hchain]
    exact h.consistent.mined hblock horder hparent _ _
  · rw [hchain, hbest, hsame.keeper]
    exact h.consistent.pruned_mined hblock horder hparent _ _ h.pruned
  · rw [hbest, hblock.number]
    rfl
  · intro c upTo hc hpruned hupTo
    rw [hchain]
    exact h.consistent.sameUpTo_mined hblock horder hparent _ _ hc hpruned (hbest ▸ hupTo)

/-- Going back keeps the chain sound and leaves the blocks up to the common one. -/
theorem Sound.unwind {commonBlock : Block}
    (hblock : b.getBlock c = some commonBlock) (hmax : c ≠ U64.max)
    (hkeeper : b'.transactionBlockKeeper = b.transactionBlockKeeper)
    (hchain : b'.blockchain = b.blockchain.unwindTo commonBlock.header.number
      (rt.evm.hashSlow commonBlock.header)) :
    b'.Sound rt genesisNumber ∧ b'.bestNumber = c ∧ SameUpTo c b.blockchain b'.blockchain := by
  obtain ⟨hash, hhash, hlook⟩ := Option.bind_eq_some_iff.mp hblock
  obtain ⟨hnumber, rfl⟩ := h.consistent.block c hash commonBlock hhash hlook
  rw [hnumber] at hchain
  have hbest : b'.bestNumber = c := by
    rw [bestNumber, hchain]
    rfl
  have hsame : SameUpTo c b.blockchain b'.blockchain := by
    rw [hchain]
    exact h.consistent.sameUpTo_unwindTo hmax
  have hle : c ≤ b.bestNumber := (h.consistent.of_height hhash).2
  refine ⟨⟨?_, ?_⟩, hbest, hsame⟩
  · rw [hchain]
    exact h.consistent.unwindTo hhash hmax
  · rw [hbest, hkeeper]
    exact (h.pruned.mono hle hle).congr hsame

/-- The loop of a reorg mines its blocks on top of the common one, and what is up to
there stays, as long as the chain does not get higher than it once was. -/
theorem Sound.mineReorg {l : List UInt64} (hc : c ≤ b.bestNumber)
    (hheight : b.bestNumber.toNat + l.length = upTo.toNat)
    (hpruned : Pruned b.transactionBlockKeeper c upTo b.blockchain)
    (hnext : b.MinesNextAll rt context txPairs l)
    (hmine : b.mineReorg rt context txPairs l = some b') :
    b'.Sound rt genesisNumber ∧ b'.bestNumber = upTo ∧ SameUpTo c b.blockchain b'.blockchain := by
  induction l generalizing b with
  | nil =>
    cases hmine
    exact ⟨h, UInt64.toNat_inj.mp hheight, .refl _ _⟩
  | cons i rest ih =>
    rw [Backend.mineReorg] at hmine
    obtain ⟨⟨outcome, b₁⟩, hblock, hrest⟩ := Option.bind_eq_some_iff.mp hmine
    have hstep : BackendStep rt b
        (.mine (context i).ord (context i).now ((txPairs.lookup i).getD [])) b₁ :=
      congrArg (Option.map Prod.snd) hblock
    obtain ⟨hsound, hkeeper, hnumber, hkeep⟩ := h.mine hnext.1 hstep
    rw [List.length_cons] at hheight
    have hle : b₁.bestNumber ≤ upTo := by
      rw [le_iff_toNat_le]
      omega
    have hsame := hkeep c upTo hc hpruned hle
    have hc₁ : c ≤ b₁.bestNumber := by
      rw [le_iff_toNat_le] at hc ⊢
      omega
    obtain ⟨hsound', hbest, hsame'⟩ := ih hsound hc₁ (by omega)
      (hkeeper ▸ hpruned.congr hsame) (hnext.2 outcome b₁ hblock) hrest
    exact ⟨hsound', hbest, hsame.trans hsame'⟩

/-- Requests that leave the chain leave it sound. -/
theorem Sound.congr (hchain : b'.blockchain = b.blockchain)
    (hkeeper : b'.transactionBlockKeeper = b.transactionBlockKeeper) :
    b'.Sound rt genesisNumber := by
  refine ⟨hchain ▸ h.consistent, ?_⟩
  rw [bestNumber, hchain, hkeeper]
  exact h.pruned

theorem Sound.rollback {depth : Option UInt64} (hback : b.GoesBack (depth.getD 1))
    (hstep : BackendStep rt b (.rollback ord readable now depth) b') :
    b'.Sound rt genesisNumber := by
  obtain ⟨hsame, hchain | ⟨c, commonBlock, hc, hblock, hchain⟩⟩ := anvilRollback_cases hstep
  · exact h.congr hchain hsame.keeper
  · exact (h.unwind hblock (hback c hc) hsame.keeper hchain).1

end

section

variable {blockPoolTxs : Except BlockchainError (HashMap UInt64 (List PoolTransaction))}
  {depth : UInt64}

/-- A reorg does not get so far, or goes back and mines. -/
theorem reorg_cases
    (hstep : ChainStep rt b (.reorg ord readable now context depth blockPoolTxs) b') :
    (b'.blockchain = b.blockchain ∧ b'.transactionBlockKeeper = b.transactionBlockKeeper) ∨
    ∃ c commonBlock txPairs b₁, checkedSub b.bestNumber depth = some c ∧
      b.getBlock c = some commonBlock ∧ blockPoolTxs = .ok txPairs ∧
      b.rollback rt ord readable now commonBlock = (.ok (), b₁) ∧
      b₁.transactionBlockKeeper = b.transactionBlockKeeper ∧
      b₁.blockchain = b.blockchain.unwindTo commonBlock.header.number
        (rt.evm.hashSlow commonBlock.header) ∧
      b₁.mineReorg rt context txPairs ((List.range depth.toNat).map UInt64.ofNat) = some b' := by
  obtain ⟨⟨res, b₁⟩, hreorg, rfl⟩ := Option.map_eq_some_iff.mp hstep
  unfold anvilReorg at hreorg
  dsimp only at hreorg
  cases hc : checkedSub b.bestNumber depth with
  | none =>
    rw [hc] at hreorg
    cases hreorg
    exact Or.inl ⟨rfl, rfl⟩
  | some c =>
    rw [hc] at hreorg
    dsimp only at hreorg
    cases hblock : b.getBlock c with
    | none =>
      rw [hblock] at hreorg
      cases hreorg
      exact Or.inl ⟨rfl, rfl⟩
    | some commonBlock =>
      rw [hblock] at hreorg
      cases blockPoolTxs with
      | error err =>
        cases hreorg
        exact Or.inl ⟨rfl, rfl⟩
      | ok txPairs =>
        obtain ⟨hsame, hchain⟩ := rollback_cases readable commonBlock
        dsimp only [Backend.reorg] at hreorg
        cases hroll : b.rollback rt ord readable now commonBlock with
        | mk res₂ b₂ =>
          rw [hroll] at hreorg hsame hchain
          cases res₂ with
          | error err =>
            cases hreorg
            obtain ⟨-, hchain⟩ | ⟨hok, -⟩ := hchain
            · exact Or.inl ⟨hchain, hsame.keeper⟩
            · cases hok
          | ok _ =>
            obtain ⟨⟨err, herr⟩, -⟩ | ⟨-, hchain⟩ := hchain
            · cases herr
            · obtain ⟨b₃, hmine, heq⟩ := Option.map_eq_some_iff.mp hreorg
              cases heq
              exact Or.inr ⟨c, commonBlock, txPairs, b₂, rfl, hblock, rfl, hroll, hsame.keeper,
                hchain, hmine⟩

/-- A reorg, whether or not it succeeds, leaves the best number and the blocks up to
the common one. -/
theorem Sound.reorg (h : b.Sound rt genesisNumber)
    (hadm : b.Admissible rt (.reorg ord readable now context depth blockPoolTxs))
    (hstep : ChainStep rt b (.reorg ord readable now context depth blockPoolTxs) b') :
    b'.Sound rt genesisNumber ∧ b'.bestNumber = b.bestNumber ∧
      ∀ c, checkedSub b.bestNumber depth = some c →
        SameUpTo c b.blockchain b'.blockchain := by
  rcases reorg_cases hstep with ⟨hchain, hkeeper⟩ |
    ⟨c, commonBlock, txPairs, b₁, hc, hblock, htxs, hroll, hkeeper, hchain, hmine⟩
  · refine ⟨h.congr hchain hkeeper, by rw [bestNumber, hchain]; rfl, fun c _ => ?_⟩
    rw [hchain]
    exact .refl c _
  · obtain ⟨hsound, hbest, hsame₁⟩ := h.unwind hblock (hadm.1 c hc) hkeeper hchain
    have hdepth : depth ≤ b.bestNumber ∧ c = b.bestNumber - depth := by
      rw [checkedSub] at hc
      split at hc
      · exact ⟨‹_›, (Option.some.inj hc).symm⟩
      · cases hc
    have hle := le_iff_toNat_le.mp hdepth.1
    have hcnat : c.toNat = b.bestNumber.toNat - depth.toNat := by
      rw [hdepth.2, UInt64.toNat_sub_of_le _ _ hdepth.1]
    have hcle : c ≤ b.bestNumber := by
      rw [le_iff_toNat_le]
      omega
    -- the common block and those below are pruned as for the height the chain had
    have hpruned : Pruned b₁.transactionBlockKeeper c b.bestNumber b₁.blockchain := by
      rw [hkeeper]
      exact (h.pruned.mono hcle (UInt64.le_refl _)).congr hsame₁
    obtain ⟨hsound', hbest', hsame₂⟩ := hsound.mineReorg (hbest ▸ UInt64.le_refl c)
      (by rw [hbest, List.length_map, List.length_range]; omega) hpruned
      (hadm.2 c commonBlock txPairs b₁ hc hblock htxs hroll) hmine
    refine ⟨hsound', hbest', fun c' hc' => ?_⟩
    obtain rfl : c = c' := Option.some.inj (hc.symm.trans hc')
    exact hsame₁.trans hsame₂

end

/-- What every admissible request keeps. -/
theorem Sound.step (h : b.Sound rt genesisNumber) {op : ChainOp} (hadm : b.Admissible rt op)
    (hstep : ChainStep rt b op b') : b'.Sound rt genesisNumber := by
  cases op with
  | mine ord now txs => exact (h.mine hadm hstep).1
  | rollback ord readable now depth => exact h.rollback hadm hstep
  | reorg ord readable now context depth blockPoolTxs => exact (h.reorg hadm hstep).1

/-- **The chain under mining and reorgs.** In every state reached from a genesis block
the indexes agree, and a reorg from there leaves the best number and the blocks up to
the common one. -/
theorem consistent_of_run {ord : DbOrder} {now : UInt64} {g : Genesis} {b₀ : Backend}
    {ops : List ChainOp} (hgenesis : withGenesis rt ord now g = some b₀)
    (hrun : Run (Guarded (Admissible rt) (ChainStep rt)) b₀ ops b) :
    Consistent rt.evm.hashSlow g.number b.blockchain ∧
    ∀ ord readable now context depth blockPoolTxs b',
      b.Admissible rt (.reorg ord readable now context depth blockPoolTxs) →
      ChainStep rt b (.reorg ord readable now context depth blockPoolTxs) b' →
      b'.bestNumber = b.bestNumber ∧
        ∀ c, U64.checkedSub b.bestNumber depth = some c →
          SameUpTo c b.blockchain b'.blockchain := by
  have hsound : b.Sound rt g.number := by
    refine hrun.keeps (sound_withGenesis hgenesis) ?_
    intro _ _ _ h hstep
    exact h.step hstep.1 hstep.2
  refine ⟨hsound.consistent, ?_⟩
  intro ord readable now context depth blockPoolTxs b' hadm hstep
  exact (hsound.reorg hadm hstep).2

/-! ### Admissible requests, evaluated -/

/-- `NextBlock`, as a test. -/
def nextBlock? (hashSlow : Header → B256) (s : BlockchainStorage) (block : Block) : Bool :=
  decide (block.header.number.toNat = s.bestNumber.toNat + 1) &&
  (s.blocks.lookup (hashSlow block.header)).isNone && decide block.txHashes.Nodup &&
  block.txHashes.all fun x => (s.transactions.lookup x).isNone

theorem nextBlock_of_test {block : Block} (h : nextBlock? hashSlow s block = true) :
    NextBlock hashSlow s block := by
  simp only [nextBlock?, Bool.and_eq_true, decide_eq_true_eq, List.all_eq_true,
    Option.isNone_iff_eq_none] at h
  exact ⟨h.1.1.1, h.1.1.2, h.1.2, h.2⟩

def minesNext? (rt : Runtime) (now : UInt64) (b : Backend) (txs : List PoolTransaction) : Bool :=
  match b.executeBlock rt now (U64.saturatingAdd b.bestNumber 1) txs with
  | some (executed, _) => nextBlock? rt.evm.hashSlow b.blockchain executed.block
  | none => true

theorem minesNext_of_test (h : minesNext? rt now b txs = true) : b.MinesNext rt now txs := by
  intro executed inner env hexec
  rw [minesNext?, hexec] at h
  exact nextBlock_of_test h

def minesNextAll? (rt : Runtime) (context : UInt64 → MiningContext)
    (txPairs : HashMap UInt64 (List PoolTransaction)) (b : Backend) : List UInt64 → Bool
  | [] => true
  | i :: rest =>
    minesNext? rt (context i).now b ((txPairs.lookup i).getD []) &&
    match b.doMineBlock rt (context i).ord (context i).now ((txPairs.lookup i).getD []) with
    | some (_, b') => minesNextAll? rt context txPairs b' rest
    | none => true

theorem minesNextAll_of_test {l : List UInt64} (h : minesNextAll? rt context txPairs b l = true) :
    b.MinesNextAll rt context txPairs l := by
  induction l generalizing b with
  | nil => trivial
  | cons i rest ih =>
    rw [minesNextAll?, Bool.and_eq_true] at h
    refine ⟨minesNext_of_test h.1, fun outcome b' hmine => ih ?_⟩
    have hrest := h.2
    rw [hmine] at hrest
    exact hrest

/-- `Admissible`, as a test. -/
def admissible? (rt : Runtime) (b : Backend) : ChainOp → Bool
  | .mine _ now txs => minesNext? rt now b txs
  | .rollback _ _ _ depth =>
    (U64.checkedSub b.bestNumber (depth.getD 1)).all fun c => c ≠ U64.max
  | .reorg ord readable now context depth blockPoolTxs =>
    match U64.checkedSub b.bestNumber depth with
    | none => true
    | some c => decide (c ≠ U64.max) &&
        match b.getBlock c, blockPoolTxs with
        | some commonBlock, .ok txPairs =>
          minesNextAll? rt context txPairs (b.rollback rt ord readable now commonBlock).2
            ((List.range depth.toNat).map UInt64.ofNat)
        | _, _ => true

theorem admissible_of_test {op : ChainOp} (h : admissible? rt b op = true) :
    b.Admissible rt op := by
  cases op with
  | mine ord now txs => exact minesNext_of_test h
  | rollback ord readable now depth =>
    intro c hc
    simp only [admissible?, hc, Option.all_some, decide_eq_true_eq] at h
    exact h
  | reorg ord readable now context depth blockPoolTxs =>
    refine ⟨fun c hc => ?_, fun c commonBlock txPairs b₁ hc hblock htxs hroll => ?_⟩
    · simp only [admissible?, hc, Bool.and_eq_true, decide_eq_true_eq] at h
      exact h.1
    · simp only [admissible?, hc, hblock, htxs, hroll, Bool.and_eq_true] at h
      exact minesNextAll_of_test h.2

/-- A run of requests that all pass the test. -/
theorem run_of_admissible {ops : List ChainOp}
    (h : ops.foldlM (fun b op => if admissible? rt b op then b.execChain rt op else none) b =
      some b') : Run (Guarded (Admissible rt) (ChainStep rt)) b ops b' :=
  Run.guarded_of_foldlM (fun _ _ => admissible_of_test) h

/-- Two blocks are mined, the second one is rolled back and mined again, and then both
are replaced. -/
def sampleChainOps : List ChainOp :=
  let tx (n : Nat) : PoolTransaction := ⟨⟨BitVec.ofNat 256 n, 1, UInt64.ofNat n, 1⟩, [], [], 1⟩
  [.mine ascendingDbOrder 10 [tx 0, tx 1],
    .mine ascendingDbOrder 20 [tx 2],
    .rollback ascendingDbOrder true 30 none,
    .mine ascendingDbOrder 40 [tx 3],
    .reorg ascendingDbOrder true 50 (fun i => ⟨ascendingDbOrder, 60 + i⟩) 2
      (.ok (Finmap.singleton 1 [tx 4]))]

/-- The requests pass the test from every sample genesis that is checked for it. -/
theorem exists_run_sampleChainOps {g : Genesis}
    (h : ((withGenesis sampleRuntime ascendingDbOrder 0 g).bind fun b =>
      (sampleChainOps.foldlM (fun b op =>
        if admissible? sampleRuntime b op then b.execChain sampleRuntime op else none) b).map
          fun b => decide (b.bestNumber = 2 ∧
            (b.db.inner.accounts.lookup 1).map (·.info.nonce) = some 5)) = some true) :
    ∃ b₀ b, withGenesis sampleRuntime ascendingDbOrder 0 g = some b₀ ∧
      Run (Guarded (Admissible sampleRuntime) (ChainStep sampleRuntime)) b₀ sampleChainOps b ∧
      b.bestNumber = 2 ∧ (b.db.inner.accounts.lookup 1).map (·.info.nonce) = some 5 := by
  obtain ⟨b₀, hgenesis, hrest⟩ := Option.bind_eq_some_iff.mp h
  obtain ⟨b, hops, hlast⟩ := exists_of_map_decide hrest
  exact ⟨b₀, b, hgenesis, run_of_admissible hops, hlast⟩

/-- The indexes agree after such a history, with bodies kept for one block only. The account that
sends the transactions has the nonce after the one that the reorg leaves. -/
theorem consistent_of_run_reorg :
    ∃ b₀ b : Backend, Run (Guarded (Admissible sampleRuntime) (ChainStep sampleRuntime)) b₀
      sampleChainOps b ∧ b.bestNumber = 2 ∧
      (b.db.inner.accounts.lookup 1).map (·.info.nonce) = some 5 ∧
      Consistent sampleEvm.hashSlow 0 b.blockchain := by
  obtain ⟨b₀, b, hgenesis, hadm, hbest, hnonce⟩ := @exists_run_sampleChainOps
    { sampleGenesis with transactionBlockKeeper := some 1 } (by decide +kernel)
  exact ⟨b₀, b, hadm, hbest, hnonce, (consistent_of_run hgenesis hadm).1⟩

end Backend

end BaseAnvil.Chain

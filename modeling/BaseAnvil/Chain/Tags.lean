import BaseAnvil.Chain.Reorg

/-!
# BaseAnvil.Chain.Tags

What block a tag stands for.

Tags are resolved in three places: `get_block_with_hash` finds a block,
`convert_block_number` a number, and `BlockchainStorage::hash` a hash. The first and the
last take the genesis block where the chain is too short, the second takes number zero;
the first two go by the configured length of an epoch, the last by a length of 32 slots.
They agree on a chain exactly where the three readings come to the same height
(`Aligned`).
-/

namespace BaseAnvil.Chain

open Lib U64
open Pool (B256 PoolTransaction)

/-- A block number, or a tag for one. -/
inductive BlockNumberOrTag
  | latest
  | finalized
  | safe
  | earliest
  | pending
  | number (num : UInt64)
  deriving Repr, DecidableEq

inductive BlockId
  | hash (blockHash : B256)
  | number (number : BlockNumberOrTag)
  deriving Repr, DecidableEq

/-- The hash of the block an epoch, or two, before the best one. -/
def BlockchainStorage.hashBefore (s : BlockchainStorage) (slots : UInt64) : Option B256 :=
  if slots < s.bestNumber then s.hashes.lookup (s.bestNumber - slots) else some s.genesisHash

/-- Returns the hash for a number or tag. -/
def BlockchainStorage.hash (s : BlockchainStorage) : BlockNumberOrTag → Option B256
  | .latest => some s.bestHash
  | .earliest => some s.genesisHash
  | .pending => none
  | .number num => s.hashes.lookup num
  | .safe => s.hashBefore 32
  | .finalized => s.hashBefore (32 * 2)

variable {slots : UInt64}

namespace Backend

section

variable (slotsInAnEpoch : UInt64)

/-- The hash that `get_block_with_hash` looks up. -/
def hashOfId (b : Backend) : BlockId → Option B256
  | .hash blockHash => some blockHash
  | .number .latest => some b.blockchain.bestHash
  | .number .earliest => some b.blockchain.genesisHash
  | .number .pending => none
  | .number (.number num) => b.blockchain.hashes.lookup num
  | .number .safe => b.blockchain.hashBefore slotsInAnEpoch
  | .number .finalized => b.blockchain.hashBefore (slotsInAnEpoch * 2)

/-- Returns the block and its hash for the given id. -/
def getBlockWithHash (b : Backend) (id : BlockId) : Option (Block × B256) := do
  let hash ← b.hashOfId slotsInAnEpoch id
  let block ← b.blockByHash hash
  some (block, hash)

/-- `get_block`, for any id. -/
def getBlockById (b : Backend) (id : BlockId) : Option Block :=
  (b.getBlockWithHash slotsInAnEpoch id).map (·.1)

/-- Converts a tag into a numeric value. -/
def convertBlockNumber (b : Backend) (block : Option BlockNumberOrTag) : UInt64 :=
  let current := b.bestNumber
  match block.getD .latest with
  | .latest => current
  | .pending => current
  | .earliest => 0
  | .number num => num
  | .safe => U64.saturatingSub current slotsInAnEpoch
  | .finalized => U64.saturatingSub current (slotsInAnEpoch * 2)

end

theorem getBlockById_eq_some {b : Backend} {id : BlockId} {block : Block} :
    b.getBlockById slots id = some block ↔
      ∃ hash, b.hashOfId slots id = some hash ∧ b.blockchain.blocks.lookup hash = some block := by
  simp [getBlockById, getBlockWithHash, blockByHash, Option.bind_eq_some_iff]

/-- On a chain, the block a tag stands for has the number and the hash that the tag
stands for. -/
def Resolves (hashSlow : Header → B256) (slots : UInt64) (b : Backend) (tag : BlockNumberOrTag) :
    Prop :=
  ∀ block, b.getBlockById slots (.number tag) = some block →
    block.header.number = b.convertBlockNumber slots (some tag) ∧
    b.blockchain.hash tag = some (hashSlow block.header)

end Backend

/-! ### Chains -/

/-- The heights from `genesisNumber` to the best block name the blocks of a chain. -/
structure Heights (hashSlow : Header → B256) (genesisNumber : UInt64) (s : BlockchainStorage) :
    Prop where
  heights : ∀ n, (s.hashes.lookup n).isSome ↔ genesisNumber ≤ n ∧ n ≤ s.bestNumber
  best : s.hashes.lookup s.bestNumber = some s.bestHash
  genesis : s.hashes.lookup genesisNumber = some s.genesisHash
  block : ∀ n hash, s.hashes.lookup n = some hash → ∃ block, s.blocks.lookup hash = some block ∧
    block.header.number = n ∧ hashSlow block.header = hash

theorem Consistent.heights_of_genesis {hashSlow : Header → B256} {genesisNumber : UInt64}
    {s : BlockchainStorage} (h : Consistent hashSlow genesisNumber s)
    (hgenesis : s.hashes.lookup genesisNumber = some s.genesisHash) :
    Heights hashSlow genesisNumber s where
  heights := h.heights
  best := h.best
  genesis := hgenesis
  block n hash hn := by
    obtain ⟨block, hblock⟩ := h.exists_block hn
    exact ⟨block, hblock, h.block n hash block hn hblock⟩

/-- The best block and its hash, an epoch before it and by the fixed length `fixed`: they are
the same if the lengths are, or if both lead to the genesis block, and the number is right if
a chain that is too short starts at zero. -/
def AlignedBefore (genesisNumber best slots fixed : UInt64) : Prop :=
  if slots < best then
    genesisNumber ≤ best - slots →
      if fixed < best then slots = fixed else best - slots = genesisNumber
  else genesisNumber = 0 ∧ best ≤ fixed

instance (genesisNumber best slots fixed : UInt64) :
    Decidable (AlignedBefore genesisNumber best slots fixed) :=
  inferInstanceAs (Decidable (if slots < best then
    genesisNumber ≤ best - slots →
      if fixed < best then slots = fixed else best - slots = genesisNumber
    else genesisNumber = 0 ∧ best ≤ fixed))

/-- The three readings of a tag come to the same height. -/
def Aligned (genesisNumber best slots : UInt64) : BlockNumberOrTag → Prop
  | .earliest => genesisNumber = 0
  | .safe => AlignedBefore genesisNumber best slots 32
  | .finalized => AlignedBefore genesisNumber best (slots * 2) (32 * 2)
  | .latest => True
  | .pending => True
  | .number _ => True

variable {hash : B256} {n : UInt64}

namespace Heights

variable {hashSlow : Header → B256} {genesisNumber : UInt64} {s : BlockchainStorage}
  (h : Heights hashSlow genesisNumber s)
include h

section

variable (hn : s.hashes.lookup n = some hash)
include hn

theorem height_unique {m : UInt64} (hm : s.hashes.lookup m = some hash) : n = m := by
  obtain ⟨block, hblock, rfl, -⟩ := h.block n hash hn
  obtain ⟨block', hblock', rfl, -⟩ := h.block m hash hm
  cases hblock.symm.trans hblock'
  rfl

/-- The block under a hash that a height names. -/
theorem block_eq {block : Block} (hblock : s.blocks.lookup hash = some block) :
    block.header.number = n ∧ hashSlow block.header = hash := by
  obtain ⟨block', hblock', hrest⟩ := h.block n hash hn
  cases hblock.symm.trans hblock'
  exact hrest

/-- The hash for a length is that of a height, which decides whether it is found for
another length. -/
theorem hashBefore_eq_iff (slots : UInt64) :
    s.hashBefore slots = some hash ↔
      if slots < s.bestNumber then s.bestNumber - slots = n else n = genesisNumber := by
  unfold BlockchainStorage.hashBefore
  split
  · exact ⟨fun heq => h.height_unique heq hn, fun heq => heq ▸ hn⟩
  · constructor
    · intro heq
      exact h.height_unique hn (h.genesis.trans heq)
    · intro heq
      rw [← h.genesis, ← heq, hn]

end

/-- Both lengths lead to the same block, and to its number. -/
theorem resolvesBefore_iff (slots fixed : UInt64) :
    (∀ block hash, s.hashBefore slots = some hash → s.blocks.lookup hash = some block →
      block.header.number = saturatingSub s.bestNumber slots ∧
        s.hashBefore fixed = some (hashSlow block.header)) ↔
      AlignedBefore genesisNumber s.bestNumber slots fixed := by
  unfold AlignedBefore
  by_cases hslots : slots < s.bestNumber
  · have hle : slots ≤ s.bestNumber := UInt64.le_of_lt hslots
    have hsub : saturatingSub s.bestNumber slots = s.bestNumber - slots := if_pos hle
    have hbefore : s.hashBefore slots = s.hashes.lookup (s.bestNumber - slots) := if_pos hslots
    have hbelow : s.bestNumber - slots ≤ s.bestNumber := by
      rw [UInt64.le_iff_toNat_le, UInt64.toNat_sub_of_le _ _ hle]
      omega
    rw [hsub, hbefore, if_pos hslots]
    cases hhash : s.hashes.lookup (s.bestNumber - slots) with
    | none =>
      -- below the genesis block: no block is found
      have habove : ¬genesisNumber ≤ s.bestNumber - slots := fun hg => by
        have hsome := (h.heights _).mpr ⟨hg, hbelow⟩
        rw [hhash] at hsome
        cases hsome
      exact ⟨fun _ hg => absurd hg habove, fun _ block hash hhash => nomatch hhash⟩
    | some hash =>
      have habove := ((h.heights (s.bestNumber - slots)).mp (by rw [hhash]; rfl)).1
      obtain ⟨block, hblock, hnumber, hslow⟩ := h.block _ hash hhash
      have hfixed : s.hashBefore fixed = some hash ↔
          if fixed < s.bestNumber then slots = fixed else s.bestNumber - slots = genesisNumber := by
        rw [h.hashBefore_eq_iff hhash]
        split
        · rw [UInt64.sub_right_inj]
          exact eq_comm
        · exact Iff.rfl
      rw [← hfixed]
      constructor
      · intro hall _
        rw [← hslow]
        exact (hall block hash rfl hblock).2
      · intro hall block' hash' hhash' hblock'
        cases hhash'
        cases hblock.symm.trans hblock'
        rw [hslow]
        exact ⟨hnumber, hall habove⟩
  · have hsub : saturatingSub s.bestNumber slots = 0 := by
      rw [← UInt64.toNat_inj, toNat_saturatingSub]
      have hle := UInt64.le_iff_toNat_le.mp (UInt64.not_lt.mp hslots)
      show _ = 0
      omega
    have hbefore : s.hashBefore slots = some s.genesisHash := if_neg hslots
    rw [hsub, hbefore, if_neg hslots]
    obtain ⟨block, hblock, hnumber, hslow⟩ := h.block _ _ h.genesis
    have hfixed := h.hashBefore_eq_iff h.genesis fixed
    constructor
    · intro hall
      obtain ⟨hzero, hhash⟩ := hall block _ rfl hblock
      rw [hnumber] at hzero
      refine ⟨hzero, UInt64.not_lt.mp fun hlt => ?_⟩
      rw [hslow, hfixed, if_pos hlt, hzero] at hhash
      -- the height is not zero, and it is the genesis block that is there
      have hnat := congrArg UInt64.toNat hhash
      rw [UInt64.toNat_sub_of_le _ _ (UInt64.le_of_lt hlt)] at hnat
      have hpos := UInt64.lt_iff_toNat_lt.mp hlt
      simp only [UInt64.toNat_zero] at hnat
      omega
    · intro ⟨hzero, hle⟩ block' hash' hhash' hblock'
      cases hhash'
      cases hblock.symm.trans hblock'
      rw [hslow, hfixed, if_neg (UInt64.not_lt.mpr hle)]
      exact ⟨hnumber.trans hzero, rfl⟩

end Heights

/-! ### Chains that are reached -/

/-- The genesis block is where the chain starts. -/
def BlockchainStorage.Anchored (genesisNumber : UInt64) (s : BlockchainStorage) : Prop :=
  s.hashes.lookup genesisNumber = some s.genesisHash

variable {number : UInt64}

namespace BlockchainStorage

variable {genesisNumber : UInt64} {s : BlockchainStorage}

theorem genesisHash_removeBlockTransactionsByNumber (num : UInt64) :
    (s.removeBlockTransactionsByNumber num).genesisHash = s.genesisHash := by
  unfold removeBlockTransactionsByNumber removeBlockTransactions
  repeat' split
  all_goals rfl

theorem genesisHash_keepTransactions (keeper : Option UInt64) :
    (s.keepTransactions keeper number).genesisHash = s.genesisHash := by
  unfold keepTransactions
  repeat' split
  all_goals first | rfl | exact genesisHash_removeBlockTransactionsByNumber _

theorem genesisHash_foldl_unwindBlock (numbers : List UInt64) :
    (numbers.foldl unwindBlock s).genesisHash = s.genesisHash := by
  induction numbers generalizing s with
  | nil => rfl
  | cons num numbers ih =>
    rw [List.foldl_cons, ih, unwindBlock]
    split
    · rfl
    · exact genesisHash_removeBlockTransactionsByNumber _

theorem Anchored.mined (h : s.Anchored genesisNumber) {flag : Bool}
    {executed : ExecutedTransactions} {keeper : Option UInt64} (hnumber : number ≠ genesisNumber) :
    ((s.insertBlock flag number hash executed).keepTransactions keeper number).Anchored
      genesisNumber := by
  rw [Anchored, (keepTransactions_heights _ _ _).1, genesisHash_keepTransactions,
    lookup_hashes_insertBlock, if_neg hnumber.symm]
  exact h

theorem Anchored.unwindTo (h : s.Anchored genesisNumber) (hle : genesisNumber ≤ n)
    (hmax : n ≠ U64.max) : (s.unwindTo n hash).Anchored genesisNumber := by
  have hgenesis : (s.unwindTo n hash).genesisHash = s.genesisHash :=
    genesisHash_foldl_unwindBlock _
  rw [Anchored, hgenesis, (unwound_unwindTo s n hash).hashes_keep]
  · exact h
  · rw [add_one_le_iff hmax]
    exact fun hlt => absurd hlt.1 (UInt64.not_lt.mpr hle)

end BlockchainStorage

namespace Backend

variable {rt : Runtime} {genesisNumber : UInt64} {b b' : Backend} {ord : DbOrder} {now : UInt64}

section

variable (h : b.Sound rt genesisNumber) (hanchor : b.blockchain.Anchored genesisNumber)
include h hanchor

theorem anchored_mine {txs : List PoolTransaction} (hnext : b.MinesNext rt now txs)
    (hstep : BackendStep rt b (.mine ord now txs) b') : b'.blockchain.Anchored genesisNumber := by
  obtain ⟨executed, inner, env, hexec, hchain, -⟩ := mine_cases hstep
  have hnumber : executed.block.header.number.toNat = b.bestNumber.toNat + 1 :=
    (hnext executed inner env hexec).number
  have hbest : genesisNumber.toNat ≤ b.bestNumber.toNat :=
    UInt64.le_iff_toNat_le.mp h.consistent.genesis_le_best
  have hlt := executed.block.header.number.toNat_lt
  have hmax : b.bestNumber ≠ U64.max := fun hmax => by
    have hval := toNat_max
    rw [hmax] at hnumber
    omega
  rw [hchain]
  refine hanchor.mined fun heq => ?_
  have hsucc := toNat_saturatingAdd_one hmax
  rw [heq] at hsucc
  omega

theorem anchored_unwind
    {c : UInt64} {commonBlock : Block} (hblock : b.getBlock c = some commonBlock)
    (hmax : c ≠ U64.max)
    (hchain : b'.blockchain = b.blockchain.unwindTo commonBlock.header.number
      (rt.evm.hashSlow commonBlock.header)) : b'.blockchain.Anchored genesisNumber := by
  obtain ⟨hash, hhash, hlook⟩ := Option.bind_eq_some_iff.mp hblock
  obtain ⟨rfl, -⟩ := h.consistent.block c hash commonBlock hhash hlook
  rw [hchain]
  exact hanchor.unwindTo (h.consistent.of_height hhash).1 hmax

theorem anchored_mineReorg {context : UInt64 → MiningContext}
    {txPairs : HashMap UInt64 (List PoolTransaction)} {l : List UInt64}
    (hnext : b.MinesNextAll rt context txPairs l)
    (hmine : b.mineReorg rt context txPairs l = some b') :
    b'.blockchain.Anchored genesisNumber := by
  induction l generalizing b with
  | nil =>
    cases hmine
    exact hanchor
  | cons i rest ih =>
    rw [mineReorg] at hmine
    obtain ⟨⟨outcome, b₁⟩, hblock, hrest⟩ := Option.bind_eq_some_iff.mp hmine
    have hstep : BackendStep rt b
        (.mine (context i).ord (context i).now ((txPairs.lookup i).getD [])) b₁ :=
      congrArg (Option.map Prod.snd) hblock
    exact ih (h.mine hnext.1 hstep).1 (anchored_mine h hanchor hnext.1 hstep)
      (hnext.2 outcome b₁ hblock) hrest

theorem anchored_step {op : ChainOp} (hadm : b.Admissible rt op) (hstep : ChainStep rt b op b') :
    b'.blockchain.Anchored genesisNumber := by
  cases op with
  | mine ord now txs => exact anchored_mine h hanchor hadm hstep
  | rollback ord readable now depth =>
    obtain ⟨-, hchain | ⟨c, commonBlock, hc, hblock, hchain⟩⟩ := anvilRollback_cases hstep
    · exact hchain ▸ hanchor
    · exact anchored_unwind h hanchor hblock (hadm c hc) hchain
  | reorg ord readable now context depth blockPoolTxs =>
    rcases reorg_cases hstep with ⟨hchain, -⟩ |
      ⟨c, commonBlock, txPairs, b₁, hc, hblock, htxs, hroll, hkeeper, hchain, hmine⟩
    · exact hchain ▸ hanchor
    · exact anchored_mineReorg (h.unwind hblock (hadm.1 c hc) hkeeper hchain).1
        (anchored_unwind h hanchor hblock (hadm.1 c hc) hchain)
        (hadm.2 c commonBlock txPairs b₁ hc hblock htxs hroll) hmine

end

/-- What mining, rolling back and reorgs lead to is a chain. -/
theorem heights_of_run {g : Genesis} {b₀ : Backend} {ops : List ChainOp}
    (hgenesis : withGenesis rt ord now g = some b₀)
    (hrun : Run (Guarded (Admissible rt) (ChainStep rt)) b₀ ops b) :
    Heights rt.evm.hashSlow g.number b.blockchain := by
  have hinv : b.Sound rt g.number ∧ b.blockchain.Anchored g.number := by
    refine hrun.keeps (I := fun b => b.Sound rt g.number ∧ b.blockchain.Anchored g.number)
      ⟨sound_withGenesis hgenesis, ?_⟩ ?_
    · obtain ⟨states, -, rfl⟩ := Option.map_eq_some_iff.mp hgenesis
      exact Consistent.lookup_hashes_ofGenesis.mpr ⟨rfl, rfl⟩
    · intro _ _ _ h hstep
      exact ⟨h.1.step hstep.1 hstep.2, anchored_step h.1 h.2 hstep.1 hstep.2⟩
  exact hinv.1.consistent.heights_of_genesis hinv.2

/-! ### The three readings -/

variable {hashSlow : Header → B256}

/-- **Tags.** On every chain, and for every length of an epoch, the block that a tag stands
for has the number and the hash that the tag stands for if and only if the three readings
of the tag come to the same height. -/
theorem resolves_iff_aligned (h : Heights hashSlow genesisNumber b.blockchain) (slots : UInt64)
    (tag : BlockNumberOrTag) :
    b.Resolves hashSlow slots tag ↔ Aligned genesisNumber b.bestNumber slots tag := by
  have hiff : b.Resolves hashSlow slots tag ↔
      ∀ block hash, b.hashOfId slots (.number tag) = some hash →
        b.blockchain.blocks.lookup hash = some block →
        block.header.number = b.convertBlockNumber slots (some tag) ∧
          b.blockchain.hash tag = some (hashSlow block.header) := by
    simp only [Resolves, getBlockById_eq_some, forall_exists_index, and_imp]
  rw [hiff]
  cases tag with
  | latest =>
    refine iff_of_true (fun block hash hhash hblock => ?_) trivial
    cases hhash
    obtain ⟨hnumber, hslow⟩ := h.block_eq h.best hblock
    exact ⟨hnumber, congrArg some hslow.symm⟩
  | number num =>
    refine iff_of_true (fun block hash hhash hblock => ?_) trivial
    obtain ⟨hnumber, hslow⟩ := h.block_eq hhash hblock
    exact ⟨hnumber, hhash.trans (congrArg some hslow.symm)⟩
  | pending => exact iff_of_true (fun block hash hhash => nomatch hhash) trivial
  | earliest =>
    obtain ⟨block, hblock, hnumber, hslow⟩ := h.block _ _ h.genesis
    constructor
    · intro hall
      exact hnumber.symm.trans (hall block _ rfl hblock).1
    · intro hzero block' hash' hhash' hblock'
      cases hhash'
      cases hblock.symm.trans hblock'
      exact ⟨hnumber.trans hzero, congrArg some hslow.symm⟩
  | safe => exact h.resolvesBefore_iff slots 32
  | finalized => exact h.resolvesBefore_iff (slots * 2) (32 * 2)

/-- Two blocks on top of a genesis block with number zero, and epochs of 32 slots. -/
theorem resolves_iff_aligned_mined :
    ∃ b : Backend, b.bestNumber = 2 ∧ Heights sampleEvm.hashSlow 0 b.blockchain ∧
      b.Resolves sampleEvm.hashSlow 32 .earliest ∧ b.Resolves sampleEvm.hashSlow 32 .safe ∧
      b.Resolves sampleEvm.hashSlow 32 .finalized := by
  obtain ⟨b₀, b, hgenesis, hrun, hbest, -⟩ :=
    @exists_run_sampleChainOps sampleGenesis (by decide +kernel)
  have h : Heights sampleEvm.hashSlow 0 b.blockchain := heights_of_run hgenesis hrun
  refine ⟨b, hbest, h, (resolves_iff_aligned h 32 .earliest).mpr rfl,
    (resolves_iff_aligned h 32 .safe).mpr ?_, (resolves_iff_aligned h 32 .finalized).mpr ?_⟩
  · rw [hbest]
    show AlignedBefore 0 2 32 32
    decide
  · rw [hbest]
    show AlignedBefore 0 2 (32 * 2) (32 * 2)
    decide

/-- What a tag stands for: the number and the hash of its block, its number, and its hash. -/
def readings (slots : UInt64) (tag : BlockNumberOrTag) (b : Backend) :
    Option (UInt64 × B256) × UInt64 × Option B256 :=
  ((b.getBlockById slots (.number tag)).map fun block =>
      (block.header.number, sampleEvm.hashSlow block.header),
    b.convertBlockNumber slots (some tag), b.blockchain.hash tag)

theorem not_resolves_of_readings {tag : BlockNumberOrTag} {converted : UInt64} {found : B256}
    {hash : Option B256} (h : b.readings slots tag = (some (number, found), converted, hash))
    (hne : number ≠ converted ∨ hash ≠ some found) : ¬b.Resolves sampleEvm.hashSlow slots tag := by
  intro hall
  obtain ⟨hblock, hrest⟩ := Prod.mk.inj h
  obtain ⟨hconv, hhash⟩ := Prod.mk.inj hrest
  obtain ⟨block, hget, heq⟩ := Option.map_eq_some_iff.mp hblock
  cases heq
  obtain ⟨hnumber, hfound⟩ := hall block hget
  rcases hne with hne | hne
  · exact hne (hnumber.trans hconv)
  · exact hne (hhash.symm.trans hfound)

/-- A chain that starts at block 5 has no block zero for `earliest` and `safe`; with epochs of
one slot, `safe` on a chain of height two is block 1 in one place and the genesis block in
another. -/
theorem tags_disagree :
    (∃ b : Backend,
        withGenesis sampleRuntime ascendingDbOrder 0 { sampleGenesis with number := 5 } = some b ∧
        ¬b.Resolves sampleEvm.hashSlow 32 .earliest ∧
        ¬b.Resolves sampleEvm.hashSlow 32 .safe) ∧
    ∃ b₀ b : Backend, withGenesis sampleRuntime ascendingDbOrder 0 sampleGenesis = some b₀ ∧
      b₀.execAll sampleRuntime [.mine ascendingDbOrder 10 [], .mine ascendingDbOrder 20 []] =
        some b ∧
      ¬b.Resolves sampleEvm.hashSlow 1 .safe := by
  constructor
  · have hread :
        (withGenesis sampleRuntime ascendingDbOrder 0 { sampleGenesis with number := 5 }).map
        (fun b => (b.readings 32 .earliest, b.readings 32 .safe)) =
          some ((some (5, 6), 0, some 6), (some (5, 6), 0, some 6)) := by
      decide +kernel
    obtain ⟨b, hb, heq⟩ := Option.map_eq_some_iff.mp hread
    obtain ⟨hearliest, hsafe⟩ := Prod.mk.inj heq
    exact ⟨b, hb, not_resolves_of_readings hearliest (Or.inl (by decide)),
      not_resolves_of_readings hsafe (Or.inl (by decide))⟩
  · have hread : ((withGenesis sampleRuntime ascendingDbOrder 0 sampleGenesis).bind fun b₀ =>
        (b₀.execAll sampleRuntime [.mine ascendingDbOrder 10 [], .mine ascendingDbOrder 20 []]).map
          (readings 1 .safe)) = some (some (1, 10 * 2 ^ 64 + 2), 1, some 1) := by
      decide +kernel
    obtain ⟨b₀, hb₀, hrest⟩ := Option.bind_eq_some_iff.mp hread
    obtain ⟨b, hb, heq⟩ := Option.map_eq_some_iff.mp hrest
    exact ⟨b₀, b, hb₀, hb, not_resolves_of_readings heq (Or.inr (by decide +kernel))⟩

end Backend

end BaseAnvil.Chain

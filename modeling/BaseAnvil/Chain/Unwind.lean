import BaseAnvil.Chain.Storage

/-!
# BaseAnvil.Chain.Unwind

What dropping a set of heights does to the chain.

`Unwound s R t`: `t` is `s` without the heights in `R`, without the blocks they
name and without the transactions in those blocks. One step of either loop drops
one height, dropping two sets one after the other drops their union, and so a
whole loop drops the heights it walks, in whatever order. The pointers to the best
block are not part of it.
-/

namespace BaseAnvil.Chain

open Lib HashMap Finmap
open Pool (B256 TxHash)

variable {s t u : BlockchainStorage} {R R' : UInt64 → Prop}

/-- The block with this hash is at one of the heights. -/
def DropsBlock (s : BlockchainStorage) (R : UInt64 → Prop) (hash : B256) : Prop :=
  ∃ n, R n ∧ s.hashes.lookup n = some hash

/-- The transaction with this hash is in a block at one of the heights. -/
def DropsTx (s : BlockchainStorage) (R : UInt64 → Prop) (x : TxHash) : Prop :=
  ∃ hash block, DropsBlock s R hash ∧ s.blocks.lookup hash = some block ∧ x ∈ block.txHashes

/-- `t` is `s` without the heights in `R`. -/
structure Unwound (s : BlockchainStorage) (R : UInt64 → Prop) (t : BlockchainStorage) : Prop where
  hashes_of : ∀ n, R n → t.hashes.lookup n = none
  hashes_keep : ∀ n, ¬R n → t.hashes.lookup n = s.hashes.lookup n
  blocks_of : ∀ hash, DropsBlock s R hash → t.blocks.lookup hash = none
  blocks_keep : ∀ hash, ¬DropsBlock s R hash → t.blocks.lookup hash = s.blocks.lookup hash
  txs_of : ∀ x, DropsTx s R x → t.transactions.lookup x = none
  txs_keep : ∀ x, ¬DropsTx s R x → t.transactions.lookup x = s.transactions.lookup x

theorem DropsBlock.mono (h : ∀ n, R n → R' n) {hash : B256} (hd : DropsBlock s R hash) :
    DropsBlock s R' hash := by
  obtain ⟨n, hn, hlook⟩ := hd
  exact ⟨n, h n hn, hlook⟩

theorem DropsTx.mono (h : ∀ n, R n → R' n) {x : TxHash} (hd : DropsTx s R x) : DropsTx s R' x := by
  obtain ⟨hash, block, hblock, hlook, hx⟩ := hd
  exact ⟨hash, block, hblock.mono h, hlook, hx⟩

namespace Unwound

variable {hash : B256} {x : TxHash}

section

variable (h : Unwound s R t)
include h

theorem hashes_eq_some {n : UInt64} (hn : t.hashes.lookup n = some hash) :
    ¬R n ∧ s.hashes.lookup n = some hash := by
  have hR : ¬R n := by
    intro hR
    rw [h.hashes_of n hR] at hn
    cases hn
  exact ⟨hR, (h.hashes_keep n hR).symm.trans hn⟩

theorem blocks_eq_some {block : Block} (hlook : t.blocks.lookup hash = some block) :
    ¬DropsBlock s R hash ∧ s.blocks.lookup hash = some block := by
  have hd : ¬DropsBlock s R hash := by
    intro hd
    rw [h.blocks_of hash hd] at hlook
    cases hlook
  exact ⟨hd, (h.blocks_keep hash hd).symm.trans hlook⟩

theorem txs_eq_some {m : MinedTransaction} (hx : t.transactions.lookup x = some m) :
    ¬DropsTx s R x ∧ s.transactions.lookup x = some m := by
  have hd : ¬DropsTx s R x := by
    intro hd
    rw [h.txs_of x hd] at hx
    cases hx
  exact ⟨hd, (h.txs_keep x hd).symm.trans hx⟩

/-- A hash that is there no more stays away. -/
theorem block_stays_away (hnone : s.blocks.lookup hash = none) : t.blocks.lookup hash = none := by
  by_cases hd : DropsBlock s R hash
  · exact h.blocks_of hash hd
  · rw [h.blocks_keep hash hd, hnone]

theorem tx_stays_away (hnone : s.transactions.lookup x = none) :
    t.transactions.lookup x = none := by
  by_cases hd : DropsTx s R x
  · exact h.txs_of x hd
  · rw [h.txs_keep x hd, hnone]

/-- What the second set drops was named by the same heights before the first went. -/
theorem dropsBlock_of (hd : DropsBlock t R' hash) : DropsBlock s R' hash := by
  obtain ⟨n, hn, hlook⟩ := hd
  exact ⟨n, hn, (h.hashes_eq_some hlook).2⟩

theorem dropsTx_of (hd : DropsTx t R' x) : DropsTx s R' x := by
  obtain ⟨hash, block, hblock, hlook, hx⟩ := hd
  exact ⟨hash, block, h.dropsBlock_of hblock, (h.blocks_eq_some hlook).2, hx⟩

/-- What is dropped in two goes is dropped by the first or is still there for the second. -/
theorem dropsBlock_or (hd : DropsBlock s (fun n => R n ∨ R' n) hash) :
    DropsBlock s R hash ∨ DropsBlock t R' hash := by
  obtain ⟨n, hn, hlook⟩ := hd
  by_cases hR : R n
  · exact Or.inl ⟨n, hR, hlook⟩
  · exact Or.inr ⟨n, hn.resolve_left hR, (h.hashes_keep n hR).trans hlook⟩

theorem dropsTx_or (hd : DropsTx s (fun n => R n ∨ R' n) x) : DropsTx s R x ∨ DropsTx t R' x := by
  obtain ⟨hash, block, hblock, hlook, hx⟩ := hd
  by_cases hfirst : DropsBlock s R hash
  · exact Or.inl ⟨hash, block, hfirst, hlook, hx⟩
  · have hsecond := (h.dropsBlock_or hblock).resolve_left hfirst
    exact Or.inr ⟨hash, block, hsecond, (h.blocks_keep hash hfirst).trans hlook, hx⟩

/-- Dropping one set of heights and then another drops both. -/
theorem trans (h' : Unwound t R' u) :
    Unwound s (fun n => R n ∨ R' n) u where
  hashes_of n hn := by
    by_cases hR' : R' n
    · exact h'.hashes_of n hR'
    · rw [h'.hashes_keep n hR', h.hashes_of n (hn.resolve_right hR')]
  hashes_keep n hn := by
    rw [h'.hashes_keep n fun hR' => hn (Or.inr hR'), h.hashes_keep n fun hR => hn (Or.inl hR)]
  blocks_of hash hd := by
    rcases h.dropsBlock_or hd with hfirst | hsecond
    · exact h'.block_stays_away (h.blocks_of hash hfirst)
    · exact h'.blocks_of hash hsecond
  blocks_keep hash hd := by
    rw [h'.blocks_keep hash fun hgone => hd ((h.dropsBlock_of hgone).mono fun _ => Or.inr),
      h.blocks_keep hash fun hgone => hd (hgone.mono fun _ => Or.inl)]
  txs_of x hd := by
    rcases h.dropsTx_or hd with hfirst | hsecond
    · exact h'.tx_stays_away (h.txs_of x hfirst)
    · exact h'.txs_of x hsecond
  txs_keep x hd := by
    rw [h'.txs_keep x fun hgone => hd ((h.dropsTx_of hgone).mono fun _ => Or.inr),
      h.txs_keep x fun hgone => hd (hgone.mono fun _ => Or.inl)]

/-- Only which of the heights in use are dropped matters. -/
theorem congr_used (hiff : ∀ n, (s.hashes.lookup n).isSome → (R n ↔ R' n)) : Unwound s R' t := by
  have hblock : ∀ hash, DropsBlock s R' hash ↔ DropsBlock s R hash := by
    intro hash
    constructor <;> rintro ⟨n, hn, hlook⟩
    · exact ⟨n, (hiff n (by simp [hlook])).mpr hn, hlook⟩
    · exact ⟨n, (hiff n (by simp [hlook])).mp hn, hlook⟩
  have htx : ∀ x, DropsTx s R' x ↔ DropsTx s R x := by
    intro x
    simp only [DropsTx, hblock]
  have hunused : ∀ n, ¬(s.hashes.lookup n).isSome → t.hashes.lookup n = s.hashes.lookup n := by
    intro n hn
    have hnone : s.hashes.lookup n = none := Option.not_isSome_iff_eq_none.mp hn
    by_cases hR : R n
    · rw [h.hashes_of n hR, hnone]
    · exact h.hashes_keep n hR
  refine ⟨fun n hn => ?_, fun n hn => ?_, fun hash hd => h.blocks_of hash ((hblock hash).mp hd),
    fun hash hd => h.blocks_keep hash (hd ∘ (hblock hash).mpr),
    fun x hd => h.txs_of x ((htx x).mp hd), fun x hd => h.txs_keep x (hd ∘ (htx x).mpr)⟩
  · by_cases hused : (s.hashes.lookup n).isSome
    · exact h.hashes_of n ((hiff n hused).mpr hn)
    · rw [hunused n hused]
      exact Option.not_isSome_iff_eq_none.mp hused
  · by_cases hused : (s.hashes.lookup n).isSome
    · exact h.hashes_keep n (hn ∘ (hiff n hused).mp)
    · exact hunused n hused

theorem congr (hiff : ∀ n, R n ↔ R' n) : Unwound s R' t :=
  h.congr_used fun n _ => hiff n

/-- Dropping some of the heights first leaves the others to be dropped. -/
theorem rest (h' : Unwound s R' u) (hsub : ∀ n, R' n → R n) :
    Unwound u R t where
  hashes_of := h.hashes_of
  hashes_keep n hn := by rw [h.hashes_keep n hn, h'.hashes_keep n (hn ∘ hsub n)]
  blocks_of hash hd := h.blocks_of hash (h'.dropsBlock_of hd)
  blocks_keep hash hd := by
    by_cases hfirst : DropsBlock s R' hash
    · rw [h.blocks_of hash (hfirst.mono hsub), h'.blocks_of hash hfirst]
    · have hnot : ¬DropsBlock s R hash := by
        intro hall
        exact hd ((h'.dropsBlock_or (hall.mono fun _ => Or.inr)).resolve_left hfirst)
      rw [h.blocks_keep hash hnot, h'.blocks_keep hash hfirst]
  txs_of x hd := h.txs_of x (h'.dropsTx_of hd)
  txs_keep x hd := by
    by_cases hfirst : DropsTx s R' x
    · rw [h.txs_of x (hfirst.mono hsub), h'.txs_of x hfirst]
    · have hnot : ¬DropsTx s R x := by
        intro hall
        exact hd ((h'.dropsTx_or (hall.mono fun _ => Or.inr)).resolve_left hfirst)
      rw [h.txs_keep x hnot, h'.txs_keep x hfirst]

/-- What is left is determined by what is dropped. -/
theorem unique (h' : Unwound s R u) :
    t.hashes = u.hashes ∧ t.blocks = u.blocks ∧ t.transactions = u.transactions := by
  refine ⟨ext_lookup fun n => ?_, ext_lookup fun hash => ?_,
    ext_lookup fun x => ?_⟩
  · by_cases hn : R n
    · rw [h.hashes_of n hn, h'.hashes_of n hn]
    · rw [h.hashes_keep n hn, h'.hashes_keep n hn]
  · by_cases hd : DropsBlock s R hash
    · rw [h.blocks_of hash hd, h'.blocks_of hash hd]
    · rw [h.blocks_keep hash hd, h'.blocks_keep hash hd]
  · by_cases hd : DropsTx s R x
    · rw [h.txs_of x hd, h'.txs_of x hd]
    · rw [h.txs_keep x hd, h'.txs_keep x hd]

end

theorem refl (s : BlockchainStorage) : Unwound s (fun _ => False) s where
  hashes_of _ hn := hn.elim
  hashes_keep _ _ := rfl
  blocks_of _ hd := hd.elim fun _ hn => hn.1.elim
  blocks_keep _ _ := rfl
  txs_of _ hd := by
    obtain ⟨_, _, ⟨_, hn, _⟩, _⟩ := hd
    exact hn.elim
  txs_keep _ _ := rfl

/-- A loop over heights each of whose steps drops its height. -/
theorem foldl {step : BlockchainStorage → UInt64 → BlockchainStorage}
    (hstep : ∀ s n, Unwound s (· = n) (step s n)) (l : List UInt64) (s : BlockchainStorage) :
    Unwound s (· ∈ l) (l.foldl step s) := by
  induction l generalizing s with
  | nil => exact (refl s).congr fun n => by simp
  | cons n l ih =>
    rw [List.foldl_cons]
    exact ((hstep s n).trans (ih (step s n))).congr fun m => by simp

/-- The pointers to the best block are not looked at. -/
theorem setBest (h : Unwound s R t) (number : UInt64) :
    Unwound s R { t with bestNumber := number, bestHash := hash } :=
  ⟨h.hashes_of, h.hashes_keep, h.blocks_of, h.blocks_keep, h.txs_of, h.txs_keep⟩

end Unwound

/-! ### The two loops -/

namespace BlockchainStorage

theorem lookup_forget (transactions : HashMap TxHash MinedTransaction) (l : List TxHash)
    (x : TxHash) :
    (forget transactions l).lookup x = if x ∈ l then none else transactions.lookup x := by
  induction l generalizing transactions with
  | nil => simp [forget]
  | cons y l ih =>
    show (forget (transactions.erase y) l).lookup x = _
    rw [ih, lookup_erase_ite]
    by_cases hl : x ∈ l <;> by_cases hy : x = y <;> simp [hl, hy]

variable {hash : B256} {n : UInt64}

/-- With one height, the block dropped is the one it names. -/
theorem dropsBlock_eq (hn : s.hashes.lookup n = some hash) {h : B256} :
    DropsBlock s (· = n) h ↔ h = hash := by
  constructor
  · rintro ⟨m, rfl, hm⟩
    exact (Option.some.inj (hn.symm.trans hm)).symm
  · rintro rfl
    exact ⟨n, rfl, hn⟩

theorem not_dropsBlock (hn : s.hashes.lookup n = none) {h : B256} : ¬DropsBlock s (· = n) h := by
  rintro ⟨m, rfl, hm⟩
  rw [hn] at hm
  cases hm

/-- With one height, the transactions dropped are those in the block it names. -/
theorem dropsTx_eq (hn : s.hashes.lookup n = some hash) {x : TxHash} :
    DropsTx s (· = n) x ↔ ∃ block, s.blocks.lookup hash = some block ∧ x ∈ block.txHashes := by
  constructor
  · rintro ⟨h, block, hd, hlook, hx⟩
    obtain rfl := (dropsBlock_eq hn).mp hd
    exact ⟨block, hlook, hx⟩
  · rintro ⟨block, hlook, hx⟩
    exact ⟨hash, block, (dropsBlock_eq hn).mpr rfl, hlook, hx⟩

/-- A height with no hash has nothing to drop. -/
theorem unwound_self (hn : s.hashes.lookup n = none) : Unwound s (· = n) s where
  hashes_of m hm := by
    subst hm
    exact hn
  hashes_keep _ _ := rfl
  blocks_of _ hd := (not_dropsBlock hn hd).elim
  blocks_keep _ _ := rfl
  txs_of _ hd := by
    obtain ⟨_, _, hblock, _⟩ := hd
    exact (not_dropsBlock hn hblock).elim
  txs_keep _ _ := rfl

/-- A height, its block and the transactions of the block go, however they are
taken out of the maps. -/
theorem unwound_of_lookups (hn : s.hashes.lookup n = some hash)
    (hhashes : t.hashes = s.hashes.erase n)
    (hblocks : ∀ h, t.blocks.lookup h = if h = hash then none else s.blocks.lookup h)
    (htxs : ∀ x, t.transactions.lookup x = match s.blocks.lookup hash with
      | none => s.transactions.lookup x
      | some block => if x ∈ block.txHashes then none else s.transactions.lookup x) :
    Unwound s (· = n) t where
  hashes_of m hm := by rw [hhashes, lookup_erase_ite, if_pos hm]
  hashes_keep m hm := by rw [hhashes, lookup_erase_ne hm]
  blocks_of h hd := by rw [hblocks, if_pos ((dropsBlock_eq hn).mp hd)]
  blocks_keep h hd := by rw [hblocks, if_neg fun heq => hd ((dropsBlock_eq hn).mpr heq)]
  txs_of x hd := by
    obtain ⟨block, hlook, hx⟩ := (dropsTx_eq hn).mp hd
    rw [htxs, hlook]
    exact if_pos hx
  txs_keep x hd := by
    rw [htxs]
    cases hlook : s.blocks.lookup hash with
    | none => rfl
    | some block => exact if_neg fun hx => hd ((dropsTx_eq hn).mpr ⟨block, hlook, hx⟩)

variable (s : BlockchainStorage)

theorem unwound_revertBlock (n : UInt64) : Unwound s (· = n) (s.revertBlock n) := by
  unfold revertBlock
  cases hn : s.hashes.lookup n with
  | none => exact unwound_self hn
  | some hash =>
    dsimp only
    cases hlook : s.blocks.lookup hash with
    | none =>
      refine unwound_of_lookups hn rfl (fun h => ?_) (fun x => by rw [hlook])
      by_cases heq : h = hash
      · rw [if_pos heq, heq]
        exact hlook
      · rw [if_neg heq]
    | some block =>
      refine unwound_of_lookups hn rfl (fun h => lookup_erase_ite _ _ _) fun x => ?_
      rw [hlook]
      exact lookup_forget _ _ _

theorem unwound_unwindBlock (i : UInt64) : Unwound s (· = i) (s.unwindBlock i) := by
  unfold unwindBlock removeBlockTransactionsByNumber removeBlockTransactions
  cases hi : s.hashes.lookup i with
  | none => exact unwound_self hi
  | some hash =>
    dsimp only
    cases hlook : s.blocks.lookup hash with
    | none =>
      exact unwound_of_lookups hi rfl (fun h => lookup_erase_ite _ _ _)
        (fun x => by rw [hlook])
    | some block =>
      -- the emptied block is written back before it is removed
      refine unwound_of_lookups hi rfl (fun h => ?_) fun x => ?_
      · show ((s.blocks.insert hash _).erase hash).lookup h = _
        rw [lookup_erase_ite, lookup_insert_ite]
        by_cases heq : h = hash <;> simp [heq]
      · rw [hlook]
        exact lookup_forget _ _ _

/-- Going back to a snapshot drops the heights above it. -/
theorem unwound_revertTo (num : UInt64) (hash : B256) :
    Unwound s (fun n => num + 1 ≤ n ∧ n ≤ s.bestNumber) (s.revertTo num hash) := by
  have h := Unwound.foldl unwound_revertBlock (U64.range (num + 1) s.bestNumber).reverse s
  exact (h.setBest num).congr fun n => by rw [List.mem_reverse, U64.mem_range]

/-- Unwinding drops the heights above the block it goes back to. -/
theorem unwound_unwindTo (blockNumber : UInt64) (blockHash : B256) :
    Unwound s (fun n => blockNumber + 1 ≤ n ∧ n ≤ s.bestNumber)
      (s.unwindTo blockNumber blockHash) := by
  have h := Unwound.foldl unwound_unwindBlock (U64.range (blockNumber + 1) s.bestNumber) s
  exact (h.setBest blockNumber).congr fun n => U64.mem_range

/-- **The two loops agree**, on every storage: one goes down and takes the transactions of a block
last, the other goes up and takes them first. -/
theorem revertTo_agrees_unwindTo (num : UInt64) (hash : B256) :
    (s.revertTo num hash).hashes = (s.unwindTo num hash).hashes ∧
      (s.revertTo num hash).blocks = (s.unwindTo num hash).blocks ∧
      (s.revertTo num hash).transactions = (s.unwindTo num hash).transactions := by
  have hrevert := unwound_revertTo s num hash
  have hunwind := unwound_unwindTo s num hash
  exact hrevert.unique hunwind

end BlockchainStorage

end BaseAnvil.Chain

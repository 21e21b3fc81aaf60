import BaseAnvil.Lib.HashMap
import BaseAnvil.Lib.Run
import BaseAnvil.Lib.Word
import Mathlib.Order.Interval.Finset.Nat

/-!
# BaseAnvil.Chain.FeeHistory

The cache of the fee history (`FeeHistoryService` in `eth/fees.rs`).

The cache is meant to hold the entries of the last blocks, as many as the limit allows. What an
insertion evicts are not the oldest entries there are but the numbers counted down from the
new one less the limit. That is the same as long as the cache is a window below the highest
number inserted (`Window`) and the new number moves the window or falls into it with nothing
missing below. After the chain was rewound further than that, the entries above the new number
stay, and the ones below it are gone.
-/

namespace BaseAnvil.Chain

open Lib HashMap U64 Finmap
open UInt64 (le_iff_toNat_le toNat_inj)

/-- `MAX_FEE_HISTORY_CACHE_SIZE`. -/
def maxFeeHistoryCacheSize : UInt64 := 2048

/-- Collects the entries of the fee history. -/
structure FeeHistoryService (Item : Type) where
  /-- All fee history related entries, by block number. -/
  cache : HashMap UInt64 Item
  /-- Number of items to consider. -/
  feeHistoryLimit : UInt64

variable {Item : Type}

namespace FeeHistoryService

/-- The first number to evict. -/
def popNext (s : FeeHistoryService Item) (blockNumber : UInt64) : UInt64 :=
  U64.saturatingSub blockNumber s.feeHistoryLimit

/-- How many numbers to evict from a cache. -/
def numRemove (s : FeeHistoryService Item) (cache : HashMap UInt64 Item) : Nat :=
  cache.keys.card - s.feeHistoryLimit.toNat

/-- Inserts the entry of a block, if the block is known, and adheres to the cache limit. -/
def insertCacheEntry (s : FeeHistoryService Item) (item : Item) (blockNumber : Option UInt64) :
    FeeHistoryService Item :=
  match blockNumber with
  | none => s
  | some blockNumber =>
    let cache := s.cache.insert blockNumber item
    { s with
      cache := (List.range (s.numRemove cache)).foldl
        (fun cache num => cache.erase (s.popNext blockNumber - UInt64.ofNat num)) cache }

end FeeHistoryService

/-! ### The chain the entries come from -/

/-- A chain as far as its numbers go, with its fee history. -/
structure FeeHistoryChain (Item : Type) where
  bestNumber : UInt64
  /-- The entry of the block with a number. The chain ends at `bestNumber`; what is above was
  rewound. -/
  entries : HashMap UInt64 Item
  service : FeeHistoryService Item

/-- The chain moves forward by a block, or back to an earlier one: a rollback, a revert or a
reset. -/
inductive ChainMove (Item : Type)
  | mine (item : Item)
  | rewind (number : UInt64)

namespace FeeHistoryChain

/-- A block with this number is on top now, and its entry goes to the cache. -/
def insertBlock (c : FeeHistoryChain Item) (number : UInt64) (item : Item) :
    FeeHistoryChain Item where
  bestNumber := number
  entries := c.entries.insert number item
  service := c.service.insertCacheEntry item (some number)

/-- The number of the next block. -/
def nextNumber (c : FeeHistoryChain Item) : UInt64 := U64.saturatingAdd c.bestNumber 1

/-- The node starts with an entry for its best block. -/
def start (genesis limit : UInt64) (item : Item) : FeeHistoryChain Item :=
  insertBlock ⟨genesis, ∅, ⟨∅, limit⟩⟩ genesis item

def MoveStep (genesis : UInt64) (c : FeeHistoryChain Item) :
    ChainMove Item → FeeHistoryChain Item → Prop
  | .mine item, c' => c' = c.insertBlock c.nextNumber item
  | .rewind number, c' => genesis ≤ number ∧ number ≤ c.bestNumber ∧
      c' = { c with bestNumber := number }

/-- What is expected of an insertion. -/
structure InsertsSafely (genesis : UInt64) (c : FeeHistoryChain Item) (number : UInt64)
    (item : Item) : Prop where
  /-- `pop_next - num` does not underflow. -/
  noUnderflow : ∀ num < c.service.numRemove (c.service.cache.insert number item),
    num ≤ (c.service.popNext number).toNat
  bounded : (c.insertBlock number item).service.cache.keys.card ≤ c.service.feeHistoryLimit.toNat
  /-- The last blocks of the chain, as many as the limit allows, have their entries. -/
  recent : ∀ n, genesis ≤ n → n ≤ number →
    number.toNat - n.toNat < c.service.feeHistoryLimit.toNat →
    ∃ entry, (c.insertBlock number item).entries.lookup n = some entry ∧
      (c.insertBlock number item).service.cache.lookup n = some entry

/-- All insertions are as expected. -/
def Safe (genesis : UInt64) (c : FeeHistoryChain Item) : ChainMove Item → Prop
  | .mine item => c.InsertsSafely genesis c.nextNumber item
  | .rewind _ => True

/-- Mining goes on at the top of the cache, or nothing was evicted yet. -/
def Recent (genesis : UInt64) (c : FeeHistoryChain Item) : ChainMove Item → Prop
  | .mine _ => genesis ∈ c.service.cache ∨ ∀ n ∈ c.service.cache, n ≤ c.nextNumber
  | .rewind _ => True

end FeeHistoryChain

/-! ### Windows -/

/-- How many words an interval has. -/
theorem card_of_interval {S : Finset UInt64} {lo hi : Nat} (hhi : hi ≤ 2 ^ 64)
    (h : ∀ n, n ∈ S ↔ lo ≤ n.toNat ∧ n.toNat < hi) : S.card = hi - lo := by
  have hmap : S.map ⟨UInt64.toNat, fun _ _ => toNat_inj.mp⟩ = Finset.Ico lo hi := by
    ext n
    rw [Finset.mem_map, Finset.mem_Ico]
    constructor
    · rintro ⟨k, hk, rfl⟩
      exact (h k).mp hk
    · intro hn
      have hlt : n < 2 ^ 64 := by omega
      have hk : (UInt64.ofNat n).toNat = n := UInt64.toNat_ofNat_of_lt' hlt
      exact ⟨UInt64.ofNat n, (h _).mpr (by rwa [hk]), hk⟩
  rw [← Finset.card_map, hmap, Nat.card_Ico]

/-- The cache has the numbers from `genesis` to `top`, as many of the last as the limit
allows. -/
def Window (genesis limit top : UInt64) (cache : HashMap UInt64 Item) : Prop :=
  ∀ n, n ∈ cache ↔ genesis ≤ n ∧ n ≤ top ∧ top.toNat - n.toNat < limit.toNat

variable {genesis limit top number : UInt64}

namespace Window

variable {cache : HashMap UInt64 Item} (h : Window genesis limit top cache)
include h

theorem card_keys : cache.keys.card = min (top.toNat + 1 - genesis.toNat) limit.toNat := by
  have htop := top.toNat_lt
  have hinterval : ∀ n, n ∈ cache.keys ↔
      max genesis.toNat (top.toNat + 1 - limit.toNat) ≤ n.toNat ∧ n.toNat < top.toNat + 1 := by
    intro n
    rw [mem_keys, h n, le_iff_toNat_le, le_iff_toNat_le]
    omega
  rw [card_of_interval htop hinterval]
  omega

/-- Writing a number of the window again. -/
theorem insert_of_mem (hmem : number ∈ cache) (item : Item) :
    Window genesis limit top (cache.insert number item) := by
  intro n
  rw [mem_insert, or_iff_right_of_imp, h n]
  rintro rfl
  exact hmem

end Window

/-! ### One insertion -/

namespace FeeHistoryService

variable {s : FeeHistoryService Item} {item : Item}

theorem toNat_popNext : (s.popNext number).toNat = number.toNat - s.feeHistoryLimit.toNat :=
  toNat_saturatingSub _

theorem insertCacheEntry_of_le
    (h : (s.cache.insert number item).keys.card ≤ s.feeHistoryLimit.toNat) :
    (s.insertCacheEntry item (some number)).cache = s.cache.insert number item := by
  have hzero : s.numRemove (s.cache.insert number item) = 0 := Nat.sub_eq_zero_of_le h
  rw [insertCacheEntry]
  rw [hzero]
  rfl

/-- One entry too many: the first number to evict goes. -/
theorem insertCacheEntry_of_succ
    (h : (s.cache.insert number item).keys.card = s.feeHistoryLimit.toNat + 1) :
    (s.insertCacheEntry item (some number)).cache =
      (s.cache.insert number item).erase (s.popNext number) := by
  have hone : s.numRemove (s.cache.insert number item) = 1 := by
    rw [numRemove]
    omega
  rw [insertCacheEntry]
  rw [hone]
  simp

/-- An eviction does not change what is left. -/
theorem lookup_of_insertCacheEntry {n : UInt64} {entry : Item}
    (h : (s.insertCacheEntry item (some number)).cache.lookup n = some entry) :
    (s.cache.insert number item).lookup n = some entry := by
  rw [insertCacheEntry] at h
  generalize s.cache.insert number item = cache at h ⊢
  generalize List.range (s.numRemove cache) = nums at h
  induction nums generalizing cache with
  | nil => exact h
  | cons num nums ih => exact (lookup_erase_eq_some.mp (ih _ h)).2

theorem card_insert_of_mem (h : number ∈ s.cache) :
    (s.cache.insert number item).keys.card = s.cache.keys.card := by
  have hkeys : (s.cache.insert number item).keys = s.cache.keys := by
    ext n
    rw [mem_keys, mem_keys, mem_insert, or_iff_right_of_imp]
    rintro rfl
    exact h
  rw [hkeys]

theorem card_insert_of_notMem (h : number ∉ s.cache) :
    (s.cache.insert number item).keys.card = s.cache.keys.card + 1 := by
  have hkeys : (s.cache.insert number item).keys = insert number s.cache.keys := by
    ext n
    rw [mem_keys, Finset.mem_insert, mem_keys, mem_insert]
  rw [hkeys, Finset.card_insert_of_notMem (by rwa [mem_keys])]

variable (item) (hw : Window genesis limit top s.cache) (hlimit : s.feeHistoryLimit = limit)

include hw hlimit

/-- A number of the window comes in: nothing is evicted. -/
theorem insert_inside (hmem : number ∈ s.cache) :
    s.numRemove (s.cache.insert number item) = 0 ∧
      Window genesis limit top (s.insertCacheEntry item (some number)).cache := by
  have hcard : (s.cache.insert number item).keys.card ≤ s.feeHistoryLimit.toNat := by
    rw [card_insert_of_mem hmem, hw.card_keys, hlimit]
    exact Nat.min_le_right _ _
  refine ⟨Nat.sub_eq_zero_of_le hcard, ?_⟩
  rw [insertCacheEntry_of_le hcard]
  exact hw.insert_of_mem hmem item

/-- The next number comes in: the window moves. -/
theorem insert_above (hle : genesis ≤ number) (hnext : number.toNat = top.toNat + 1) :
    s.numRemove (s.cache.insert number item) ≤ 1 ∧
      Window genesis limit number (s.insertCacheEntry item (some number)).cache := by
  subst hlimit
  rw [le_iff_toNat_le] at hle
  have hnot : number ∉ s.cache := by
    intro hmem
    have hbelow := le_iff_toNat_le.mp ((hw number).mp hmem).2.1
    omega
  have hcard : (s.cache.insert number item).keys.card =
      min (top.toNat + 1 - genesis.toNat) s.feeHistoryLimit.toNat + 1 := by
    rw [card_insert_of_notMem hnot, hw.card_keys]
  have hself : ∀ n, n = number ↔ n.toNat = number.toNat := fun n => toNat_inj.symm
  by_cases hroom : top.toNat + 1 - genesis.toNat < s.feeHistoryLimit.toNat
  · have hfits : (s.cache.insert number item).keys.card ≤ s.feeHistoryLimit.toNat := by omega
    refine ⟨by rw [numRemove]; omega, fun n => ?_⟩
    rw [insertCacheEntry_of_le hfits, mem_insert, hw n, hself, le_iff_toNat_le,
      le_iff_toNat_le, le_iff_toNat_le]
    omega
  · have hfull : (s.cache.insert number item).keys.card = s.feeHistoryLimit.toNat + 1 := by omega
    refine ⟨by rw [numRemove]; omega, fun n => ?_⟩
    rw [insertCacheEntry_of_succ hfull, mem_erase, mem_insert, hw n, hself, ne_eq,
      ← toNat_inj, toNat_popNext, le_iff_toNat_le, le_iff_toNat_le,
      le_iff_toNat_le]
    omega

/-- A number below the window comes in: nothing that is there is evicted. -/
theorem insert_below (hpos : 0 < limit.toNat) (hlow : genesis.toNat < number.toNat)
    (hgap : number.toNat + limit.toNat ≤ top.toNat) :
    (s.insertCacheEntry item (some number)).cache = s.cache.insert number item ∧
      (s.cache.insert number item).keys.card = limit.toNat + 1 := by
  subst hlimit
  have hout : ∀ n, n.toNat ≤ number.toNat → n ∉ s.cache := by
    intro n hn hmem
    have hclose := ((hw n).mp hmem).2.2
    omega
  have hcard : (s.cache.insert number item).keys.card = s.feeHistoryLimit.toNat + 1 := by
    rw [card_insert_of_notMem (hout number (Nat.le_refl _)), hw.card_keys]
    omega
  refine ⟨?_, hcard⟩
  have hpop := @toNat_popNext _ number s
  rw [insertCacheEntry_of_succ hcard]
  refine erase_of_lookup_none ?_
  rw [lookup_insert_ite, if_neg]
  · exact lookup_eq_none.mpr (hout _ (by omega))
  · intro heq
    rw [heq] at hpop
    omega

end FeeHistoryService

/-! ### The chain -/

namespace FeeHistoryChain

open FeeHistoryService

variable {c c' : FeeHistoryChain Item} {item : Item}

/-- The cache is a window that reaches up to the best number at least, with the entries of the
chain. -/
structure Inv (genesis limit : UInt64) (c : FeeHistoryChain Item) : Prop where
  feeHistoryLimit : c.service.feeHistoryLimit = limit
  above : genesis ≤ c.bestNumber
  entries : ∀ n entry, c.service.cache.lookup n = some entry → c.entries.lookup n = some entry
  window : ∃ top, c.bestNumber ≤ top ∧ Window genesis limit top c.service.cache

/-- What an insertion has to do: at most one number goes, and the new window ends with the new
number or has all numbers from the first one on. -/
structure Moves (genesis limit : UInt64) (c : FeeHistoryChain Item) (number : UInt64) (item : Item)
    (top : UInt64) : Prop where
  numRemove : c.service.numRemove (c.service.cache.insert number item) ≤ 1
  reach : number ≤ top
  window : Window genesis limit top (c.insertBlock number item).service.cache
  complete : top = number ∨ top.toNat - genesis.toNat < limit.toNat

theorem lookup_entries
    (h : ∀ n entry, c.service.cache.lookup n = some entry → c.entries.lookup n = some entry)
    {n : UInt64} {entry : Item}
    (hn : (c.insertBlock number item).service.cache.lookup n = some entry) :
    (c.insertBlock number item).entries.lookup n = some entry := by
  have hin := lookup_of_insertCacheEntry hn
  show (c.entries.insert number item).lookup n = some entry
  rw [lookup_insert_ite] at hin ⊢
  split
  · rename_i heq
    rwa [if_pos heq] at hin
  · rename_i hne
    rw [if_neg hne] at hin
    exact h n entry hin

namespace Moves

variable (h : c.Moves genesis limit number item top)

include h

variable (hlimit : c.service.feeHistoryLimit = limit)
include hlimit

variable (hentries : ∀ n entry, c.service.cache.lookup n = some entry → c.entries.lookup n = some
    entry)
include hentries

theorem insertsSafely : c.InsertsSafely genesis number item := by
  subst hlimit
  refine ⟨fun num hnum => ?_, ?_, fun n hlow hhigh hclose => ?_⟩
  · have hone := h.numRemove
    omega
  · rw [h.window.card_keys]
    exact Nat.min_le_right _ _
  · have hmem : n ∈ (c.insertBlock number item).service.cache := by
      refine (h.window n).mpr ⟨hlow, UInt64.le_trans hhigh h.reach, ?_⟩
      rcases h.complete with heq | hall
      · rw [heq]
        exact hclose
      · rw [le_iff_toNat_le] at hlow
        omega
    obtain ⟨entry, hentry⟩ := mem_iff.mp hmem
    exact ⟨entry, lookup_entries hentries hentry, hentry⟩

theorem inv (hle : genesis ≤ number) : Inv genesis limit (c.insertBlock number item) :=
  ⟨hlimit, hle, fun _ _ hn => lookup_entries hentries hn, top, h.reach, h.window⟩

end Moves

/-- The first entry. -/
theorem moves_start : Moves genesis limit ⟨genesis, ∅, ⟨∅, limit⟩⟩ genesis item genesis := by
  have hcard : ((∅ : HashMap UInt64 Item).insert genesis item).keys.card = 1 := by
    have hnot : genesis ∉ (⟨∅, limit⟩ : FeeHistoryService Item).cache := notMem_empty
    exact card_insert_of_notMem hnot
  have hself : ∀ n : UInt64, n = genesis ↔ n.toNat = genesis.toNat := fun n => toNat_inj.symm
  refine ⟨?_, UInt64.le_refl _, fun n => ?_, Or.inl rfl⟩
  · rw [numRemove, hcard]
    exact Nat.sub_le _ _
  · show n ∈ (insertCacheEntry ⟨∅, limit⟩ item (some genesis)).cache ↔ _
    have hempty : n ∉ (∅ : HashMap UInt64 Item) := notMem_empty
    by_cases hzero : limit.toNat = 0
    · have hpop : popNext ⟨(∅ : HashMap UInt64 Item), limit⟩ genesis = genesis := by
        rw [← toNat_inj, toNat_popNext, hzero, Nat.sub_zero]
      rw [insertCacheEntry_of_succ (by rw [hcard, hzero]), hpop,
        mem_erase, mem_insert]
      simp [hzero, hempty]
    · rw [insertCacheEntry_of_le (by rw [hcard]; exact Nat.one_le_iff_ne_zero.mpr hzero),
        mem_insert, hself, le_iff_toNat_le, le_iff_toNat_le]
      simp only [hempty, or_false]
      omega

/-- The next number is one up, except at the largest one. -/
theorem nextNumber_cases (c : FeeHistoryChain Item) :
    c.nextNumber.toNat = c.bestNumber.toNat + 1 ∨
      c.nextNumber = c.bestNumber ∧ ∀ n, n ≤ c.nextNumber := by
  by_cases hmax : c.bestNumber = U64.max
  · have hnext : c.nextNumber = U64.max := by
      rw [nextNumber, hmax]
      rfl
    refine Or.inr ⟨hnext.trans hmax.symm, fun n => ?_⟩
    have hn : n.toNat < 2 ^ 64 := n.toNat_lt
    rw [hnext, le_iff_toNat_le]
    show n.toNat ≤ 2 ^ 64 - 1
    omega
  · exact Or.inl (toNat_saturatingAdd_one hmax)

section

variable (hi : Inv genesis limit c)

include hi

theorem Inv.genesis_le_nextNumber : genesis ≤ c.nextNumber :=
  UInt64.le_trans hi.above (le_saturatingAdd _ _)

/-- Mining at the top of the cache, or before anything was evicted. -/
theorem Inv.moves (hrecent : c.Recent genesis (.mine item)) :
    ∃ top, c.Moves genesis limit c.nextNumber item top := by
  obtain ⟨top, hbest, hw⟩ := hi.window
  have hlow := hi.genesis_le_nextNumber
  have habove : ∀ {top}, Window genesis limit top c.service.cache →
      c.nextNumber.toNat = top.toNat + 1 → ∃ top, c.Moves genesis limit c.nextNumber item top := by
    intro top hw hnext
    obtain ⟨hremove, hwin⟩ :=
      insert_above item hw hi.feeHistoryLimit hlow hnext
    exact ⟨_, hremove, UInt64.le_refl _, hwin, Or.inl rfl⟩
  have hinside : c.nextNumber ∈ c.service.cache →
      (top = c.nextNumber ∨ top.toNat - genesis.toNat < limit.toNat) →
      ∃ top, c.Moves genesis limit c.nextNumber item top := by
    intro hmem hcomplete
    obtain ⟨hremove, hwin⟩ := insert_inside item hw hi.feeHistoryLimit hmem
    exact ⟨top, by omega, ((hw _).mp hmem).2.1, hwin, hcomplete⟩
  by_cases hzero : limit.toNat = 0
  · -- a window without numbers ends where we like: just below the new number
    have hpos : 1 ≤ c.nextNumber.toNat := by
      rcases c.nextNumber_cases with hnext | ⟨-, hall⟩
      · omega
      · exact le_iff_toNat_le.mp (hall 1)
    have hpred : (c.nextNumber - 1).toNat = c.nextNumber.toNat - 1 :=
      UInt64.toNat_sub_of_le _ _ (le_iff_toNat_le.mpr hpos)
    refine @habove (c.nextNumber - 1) (fun n => ?_) (by omega)
    rw [hw n]
    omega
  · by_cases htop : c.nextNumber ≤ top
    · have hmem : top.toNat - c.nextNumber.toNat < limit.toNat → c.nextNumber ∈ c.service.cache :=
        fun hclose => (hw _).mpr ⟨hlow, htop, hclose⟩
      rw [le_iff_toNat_le] at hlow
      rcases hrecent with hfirst | hall
      · have hclose := ((hw _).mp hfirst).2.2
        exact hinside (hmem (by omega)) (Or.inr hclose)
      · have hlast : top ∈ c.service.cache :=
          (hw _).mpr ⟨UInt64.le_trans hi.above hbest, UInt64.le_refl _, by omega⟩
        have heq : top = c.nextNumber := UInt64.le_antisymm (hall top hlast) htop
        refine hinside (hmem ?_) (Or.inl heq)
        rw [heq]
        omega
    · rw [le_iff_toNat_le] at htop hbest
      rcases c.nextNumber_cases with hnext | ⟨hnext, -⟩
      · exact habove hw (by omega)
      · rw [hnext] at htop
        omega

/-- Mining below the top of the cache after something was evicted. -/
theorem Inv.not_insertsSafely (hnot : ¬ c.Recent genesis (.mine item)) :
    ¬ c.InsertsSafely genesis c.nextNumber item := by
  obtain ⟨top, hbest, hw⟩ := hi.window
  have hlimit := hi.feeHistoryLimit
  simp only [Recent, not_or, not_forall, UInt64.not_le] at hnot
  obtain ⟨hfirst, m, hm, hbelow⟩ := hnot
  obtain ⟨-, hmtop, hclose⟩ := (hw m).mp hm
  have habove := hi.above
  rw [le_iff_toNat_le] at hmtop hbest habove
  rw [UInt64.lt_iff_toNat_lt] at hbelow
  have hnext : c.nextNumber.toNat = c.bestNumber.toNat + 1 := by
    rcases c.nextNumber_cases with hnext | ⟨-, hall⟩
    · exact hnext
    · have := le_iff_toNat_le.mp (hall m)
      omega
  have hevicted : limit.toNat ≤ top.toNat - genesis.toNat := by
    by_contra hlt
    refine hfirst ((hw _).mpr ⟨UInt64.le_refl _, le_iff_toNat_le.mpr (by omega), ?_⟩)
    omega
  intro hsafe
  by_cases hmem : c.nextNumber ∈ c.service.cache
  · -- the oldest of the numbers that should be there is below the window
    obtain ⟨-, hwin⟩ := insert_inside item hw hlimit hmem
    have hout : ∀ n, genesis ≤ n → n ≤ c.nextNumber →
        c.nextNumber.toNat - n.toNat < limit.toNat → top.toNat - n.toNat < limit.toNat := by
      intro n hn hn' hnear
      obtain ⟨entry, -, hentry⟩ := hsafe.recent n hn hn' (by rw [hlimit]; exact hnear)
      exact ((hwin n).mp (mem_iff.mpr ⟨entry, hentry⟩)).2.2
    by_cases hshort : c.nextNumber.toNat - genesis.toNat < limit.toNat
    · have hnear := hout genesis (UInt64.le_refl _) hi.genesis_le_nextNumber hshort
      omega
    · have hlt : c.nextNumber.toNat + 1 - limit.toNat < 2 ^ 64 := by
        have := c.nextNumber.toNat_lt
        omega
      have hn : (UInt64.ofNat (c.nextNumber.toNat + 1 - limit.toNat)).toNat =
          c.nextNumber.toNat + 1 - limit.toNat := UInt64.toNat_ofNat_of_lt' hlt
      have hnear := hout (UInt64.ofNat (c.nextNumber.toNat + 1 - limit.toNat))
        (le_iff_toNat_le.mpr (by omega)) (le_iff_toNat_le.mpr (by omega)) (by omega)
      omega
  · have hgap : limit.toNat ≤ top.toNat - c.nextNumber.toNat := by
      by_contra hlt
      refine hmem ((hw _).mpr ⟨hi.genesis_le_nextNumber, le_iff_toNat_le.mpr (by omega), ?_⟩)
      omega
    obtain ⟨hcache, hcard⟩ := insert_below item hw hlimit (by omega)
      (show genesis.toNat < c.nextNumber.toNat by omega) (by omega)
    have hbounded := hsafe.bounded
    have hkeys : (c.insertBlock c.nextNumber item).service.cache =
        c.service.cache.insert c.nextNumber item := hcache
    rw [hkeys, hcard, hlimit] at hbounded
    omega

/-- An insertion is as expected exactly if it is recent. -/
theorem Inv.safe_iff (move : ChainMove Item) : c.Safe genesis move ↔ c.Recent genesis move := by
  cases move with
  | rewind number => exact Iff.rfl
  | mine item =>
    refine ⟨fun hsafe => ?_, fun hrecent => ?_⟩
    · by_contra hnot
      exact hi.not_insertsSafely hnot hsafe
    · obtain ⟨top, hmoves⟩ := hi.moves hrecent
      exact hmoves.insertsSafely hi.feeHistoryLimit hi.entries

theorem Inv.step {move : ChainMove Item} (hrecent : c.Recent genesis move)
    (hstep : MoveStep genesis c move c') : Inv genesis limit c' := by
  cases move with
  | mine item =>
    cases hstep
    obtain ⟨top, hmoves⟩ := hi.moves hrecent
    exact hmoves.inv hi.feeHistoryLimit hi.entries hi.genesis_le_nextNumber
  | rewind number =>
    obtain ⟨hlow, hhigh, rfl⟩ := hstep
    obtain ⟨top, hbest, hw⟩ := hi.window
    exact ⟨hi.feeHistoryLimit, hlow, hi.entries, top, UInt64.le_trans hhigh hbest, hw⟩

end

theorem inv_start : Inv genesis limit (start genesis limit item) :=
  moves_start.inv rfl (fun _ _ h => by cases h) (UInt64.le_refl _)

/-- **The fee history cache.** The entry the node starts with goes in as expected; after that,
all insertions of a run do iff each of them is recent. -/
theorem insertions_safe_iff (genesis limit : UInt64) (item : Item) (moves : List (ChainMove Item)) :
    InsertsSafely genesis ⟨genesis, ∅, ⟨∅, limit⟩⟩ genesis item ∧
      (Run.Along (MoveStep genesis) (start genesis limit item) moves (Safe genesis) ↔
        Run.Along (MoveStep genesis) (start genesis limit item) moves (Recent genesis)) := by
  refine ⟨(moves_start).insertsSafely rfl (fun _ _ h => by cases h), ?_⟩
  exact Run.along_iff inv_start (fun _ move hi => hi.safe_iff move)
    fun _ move _ hi hsafe hstep => hi.step ((hi.safe_iff move).mp hsafe) hstep

/-- A chain that only mines forward. -/
theorem run_forward (limit : UInt64) (item : Item) {n : Nat} (hn : n < 2 ^ 64) :
    ∃ c : FeeHistoryChain Item,
      Run (MoveStep 0) (start 0 limit item) (List.replicate n (.mine item)) c ∧
      c.bestNumber = UInt64.ofNat n ∧ c.service.feeHistoryLimit = limit ∧
      Window 0 limit (UInt64.ofNat n) c.service.cache := by
  induction n with
  | zero => exact ⟨_, .nil, rfl, rfl, moves_start.window⟩
  | succ n ih =>
    obtain ⟨c, hrun, hbest, hlimit, hw⟩ := ih (by omega)
    have hnat : (UInt64.ofNat n).toNat = n := UInt64.toNat_ofNat_of_lt' (by show n < 2 ^ 64; omega)
    have hsucc : (UInt64.ofNat (n + 1)).toNat = n + 1 := UInt64.toNat_ofNat_of_lt' hn
    have hnext : c.nextNumber = UInt64.ofNat (n + 1) := by
      rw [← toNat_inj, hsucc, nextNumber, toNat_saturatingAdd, hbest, hnat]
      show min (n + 1) (2 ^ 64 - 1) = n + 1
      omega
    obtain ⟨-, hwin⟩ := insert_above item hw hlimit
      (show (0 : UInt64) ≤ UInt64.ofNat (n + 1) from UInt64.zero_le) (by rw [hsucc, hnat])
    refine ⟨c.insertBlock c.nextNumber item, ?_, hnext, hlimit, ?_⟩
    · rw [List.replicate_succ']
      exact hrun.snoc rfl
    · show Window _ _ _ (c.service.insertCacheEntry item (some c.nextNumber)).cache
      rw [hnext]
      exact hwin

/-- A chain of 2050 blocks is rewound to its first. With the next block the cache has one
entry too many and lacks the entry of block 0; with the one after that, the second number to
evict is below zero. -/
theorem rewound_cache_underflows :
    ∃ c : FeeHistoryChain Unit,
      Run (MoveStep 0) (start 0 maxFeeHistoryCacheSize ())
        (List.replicate 2050 (.mine ()) ++ [.rewind 0, .mine ()]) c ∧
      c.bestNumber = 1 ∧ c.service.feeHistoryLimit = 2048 ∧ c.service.cache.keys.card = 2049 ∧
      0 ∉ c.service.cache ∧ c.service.numRemove (c.service.cache.insert c.nextNumber ()) = 2 ∧
      c.service.popNext c.nextNumber = 0 := by
  obtain ⟨c, hrun, -, hlimit, hw⟩ :=
    run_forward maxFeeHistoryCacheSize () (show 2050 < 2 ^ 64 by omega)
  have hlim : (2048 : UInt64).toNat = 2048 := rfl
  have htop : (UInt64.ofNat 2050).toNat = 2050 := rfl
  have hmem : ∀ n, n ∈ c.service.cache ↔ 3 ≤ n.toNat ∧ n.toNat ≤ 2050 := by
    intro n
    rw [hw n, le_iff_toNat_le, le_iff_toNat_le, htop, maxFeeHistoryCacheSize, hlim]
    show 0 ≤ n.toNat ∧ _ ↔ _
    omega
  obtain ⟨hcache, hcard⟩ := @insert_below Unit 0 _ _ 1 c.service () hw hlimit
    (by decide) (by decide) (by decide)
  rw [maxFeeHistoryCacheSize, hlim] at hcard
  let c₁ : FeeHistoryChain Unit := { c with bestNumber := 0 }
  have hrewound : MoveStep 0 c (.rewind 0) c₁ := ⟨UInt64.le_refl _, UInt64.zero_le, rfl⟩
  have hmined : MoveStep 0 c₁ (.mine ()) (c₁.insertBlock 1 ()) := rfl
  have hnew : (c₁.insertBlock 1 ()).service.cache = c.service.cache.insert 1 () := hcache
  have htwo : (2 : UInt64) ∉ (c₁.insertBlock 1 ()).service.cache := by
    rw [hnew, mem_insert, hmem]
    decide
  refine ⟨c₁.insertBlock 1 (), ?_, rfl, hlimit, ?_, ?_, ?_, ?_⟩
  · have hrun' := (hrun.snoc hrewound).snoc hmined
    rwa [List.append_assoc] at hrun'
  · rw [hnew, hcard]
  · rw [hnew, mem_insert, hmem]
    decide
  · rw [numRemove]
    show ((c₁.insertBlock 1 ()).service.cache.insert 2 ()).keys.card -
      c.service.feeHistoryLimit.toNat = 2
    rw [card_insert_of_notMem htwo, hnew, hcard, hlimit]
    rfl
  · show saturatingSub 2 c.service.feeHistoryLimit = 0
    rw [hlimit]
    rfl

end FeeHistoryChain

end BaseAnvil.Chain

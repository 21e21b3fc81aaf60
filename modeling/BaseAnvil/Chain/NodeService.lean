import BaseAnvil.Lib.Loop
import BaseAnvil.Pool.Transaction

/-!
# BaseAnvil.Chain.NodeService

The loop of `NodeService::poll`, which hands batches of ready transactions to the block
producer, while a block is being mined.

The pool is pruned only when the block is done. Until then the miner sees the same ready
transactions again: with as many as fit into a block it never stops handing them out
(`not_exists_loop`), and otherwise it hands them out once more whenever it has a reason to look
(`poll_of_offers`).
-/

namespace BaseAnvil.Chain

open Lib
open Pool (PoolTransaction)

/-! ### Miners -/

/-- `ReadyTransactionMiner`. The channel has hashes that were not read yet if `notified`. -/
structure ReadyTransactionMiner where
  maxTransactions : Nat
  hasPendingTxs : Option Bool
  notified : Bool

def ReadyTransactionMiner.poll (ready : List PoolTransaction) (miner : ReadyTransactionMiner) :
    Option (List PoolTransaction) × ReadyTransactionMiner :=
  let hasPendingTxs := if miner.notified then some true else miner.hasPendingTxs
  if hasPendingTxs = some false then (none, { miner with notified := false })
  else
    let transactions := ready.take miner.maxTransactions
    let miner := { miner with
      hasPendingTxs := some (decide (miner.maxTransactions ≤ transactions.length))
      notified := false }
    if transactions.isEmpty then (none, miner) else (some transactions, miner)

/-- `FixedBlockTimeMiner`, with whether a tick is due. After a tick the next one is a whole
interval away. -/
structure FixedBlockTimeMiner where
  due : Bool

def FixedBlockTimeMiner.poll (ready : List PoolTransaction) (miner : FixedBlockTimeMiner) :
    Option (List PoolTransaction) × FixedBlockTimeMiner :=
  if miner.due then (some ready, ⟨false⟩) else (none, miner)

inductive MiningMode
  | none
  | auto (miner : ReadyTransactionMiner)
  | fixedBlockTime (miner : FixedBlockTimeMiner)
  | mixed (timely : ReadyTransactionMiner) (fixed : FixedBlockTimeMiner)

/-- Adds the transactions of the second list whose hash is not there. -/
def mergeUnique (autoTxs fixedTxs : List PoolTransaction) : List PoolTransaction :=
  fixedTxs.foldl (fun txs tx => if txs.any (·.hash = tx.hash) then txs else txs ++ [tx]) autoTxs

def MiningMode.poll (ready : List PoolTransaction) :
    MiningMode → Option (List PoolTransaction) × MiningMode
  | .none => (.none, .none)
  | .auto miner => ((miner.poll ready).1, .auto (miner.poll ready).2)
  | .fixedBlockTime miner => ((miner.poll ready).1, .fixedBlockTime (miner.poll ready).2)
  | .mixed timely fixed =>
    (match (timely.poll ready).1, (fixed.poll ready).1 with
      | some autoTxs, some fixedTxs => some (mergeUnique autoTxs fixedTxs)
      | some autoTxs, .none => some autoTxs
      | .none, fixedTxs => fixedTxs,
      .mixed (timely.poll ready).2 (fixed.poll ready).2)

/-- `Miner`, with the transactions that are put in front of the first batch. -/
structure Miner where
  mode : MiningMode
  forceTransactions : Option (List PoolTransaction)

/-- What comes in front of the next batch. -/
def Miner.forced (miner : Miner) : List PoolTransaction := miner.forceTransactions.getD []

def Miner.poll (ready : List PoolTransaction) (miner : Miner) :
    Option (List PoolTransaction) × Miner :=
  match miner.mode.poll ready with
  | (none, mode) => (none, { miner with mode := mode })
  | (some next, mode) => (some (miner.forced ++ next), ⟨mode, none⟩)

/-! ### The service -/

/-- The backend is idle if no block is being mined. -/
structure NodeService where
  miner : Miner
  blockMining : Option (List PoolTransaction)
  queued : List (List PoolTransaction)

namespace NodeService

/-- `BlockProducer::poll_next`, when no block gets done. -/
def pollNext (s : NodeService) : NodeService :=
  match s.blockMining, s.queued with
  | none, transactions :: rest => { s with blockMining := some transactions, queued := rest }
  | _, _ => s

/-- A round of the loop, and whether it made progress. -/
def round (ready : List PoolTransaction) (s : NodeService × Bool) : NodeService × Bool :=
  let s := s.1.pollNext
  let (transactions, miner) := s.miner.poll ready
  match transactions with
  | some transactions => ({ s with miner := miner, queued := s.queued ++ [transactions] }, true)
  | none => ({ s with miner := miner }, false)

/-- The call returns, and no transaction is in two queued batches at any time. -/
def Yields (ready : List PoolTransaction) (s : NodeService) : Prop :=
  (∃ t, Loop Prod.snd (round ready) (s, true) t) ∧
    ∀ t, Visits Prod.snd (round ready) (s, true) t → t.1.queued.Pairwise List.Disjoint

end NodeService

/-! ### What the miners hand out -/

variable {ready : List PoolTransaction}

namespace ReadyTransactionMiner

variable {miner : ReadyTransactionMiner}

/-- The miner looks at the pool, and there is something to take. -/
def Takes (ready : List PoolTransaction) (miner : ReadyTransactionMiner) : Prop :=
  (miner.notified = true ∨ miner.hasPendingTxs ≠ some false) ∧ 1 ≤ miner.maxTransactions ∧
    ready ≠ []

instance (miner : ReadyTransactionMiner) : Decidable (miner.Takes ready) :=
  inferInstanceAs (Decidable (_ ∧ _))

theorem poll_of_takes (h : miner.Takes ready) : miner.poll ready =
    (some (ready.take miner.maxTransactions), { miner with
      hasPendingTxs := some (decide (miner.maxTransactions ≤ ready.length))
      notified := false }) := by
  obtain ⟨hlooks, hmax, hready⟩ := h
  have hflag : (if miner.notified then some true else miner.hasPendingTxs) ≠ some false := by
    split <;> simp_all
  have htake : (ready.take miner.maxTransactions).isEmpty = false := by
    rw [List.isEmpty_eq_false_iff, ne_eq, List.take_eq_nil_iff]
    rintro (hzero | hnil)
    · omega
    · exact hready hnil
  simp only [poll, if_neg hflag, htake, Bool.false_eq_true, if_false, List.length_take, le_min_iff,
    le_refl, true_and]

theorem poll_of_not_takes (h : ¬miner.Takes ready) :
    (miner.poll ready).1 = none ∧ ¬(miner.poll ready).2.Takes ready := by
  by_cases hflag : (if miner.notified then some true else miner.hasPendingTxs) = some false
  · have hknown : miner.notified = false ∧ miner.hasPendingTxs = some false := by
      split at hflag <;> simp_all
    simp [poll, Takes, hknown]
  · have hlooks : miner.notified = true ∨ miner.hasPendingTxs ≠ some false := by
      split at hflag
      · exact Or.inl ‹_›
      · exact Or.inr hflag
    have hempty : (ready.take miner.maxTransactions).isEmpty = true := by
      rw [List.isEmpty_iff, List.take_eq_nil_iff]
      by_contra hne
      obtain ⟨hmax, hready⟩ := not_or.mp hne
      exact h ⟨hlooks, by omega, hready⟩
    simp only [poll, if_neg hflag, hempty, if_true, true_and]
    exact fun htakes => h ⟨hlooks, htakes.2⟩

end ReadyTransactionMiner

/-- Merging adds nothing where everything is there. -/
theorem mergeUnique_of_subset {autoTxs fixedTxs : List PoolTransaction}
    (h : ∀ tx ∈ fixedTxs, tx ∈ autoTxs) : mergeUnique autoTxs fixedTxs = autoTxs := by
  unfold mergeUnique
  induction fixedTxs with
  | nil => rfl
  | cons tx rest ih =>
    have hany : autoTxs.any (·.hash = tx.hash) = true :=
      List.any_eq_true.mpr ⟨tx, h tx List.mem_cons_self, decide_eq_true rfl⟩
    rw [List.foldl_cons, if_pos hany]
    exact ih fun tx' h' => h tx' (List.mem_cons_of_mem _ h')

namespace MiningMode

open ReadyTransactionMiner (poll_of_takes poll_of_not_takes)

variable {mode : MiningMode}

/-- A miner looks at the pool and sees as many transactions as fit into a block. -/
def Overfull (ready : List PoolTransaction) : MiningMode → Prop
  | .auto miner => miner.Takes ready ∧ miner.maxTransactions ≤ ready.length
  | .mixed timely _ => timely.Takes ready ∧ timely.maxTransactions ≤ ready.length
  | _ => False

/-- A miner looks at the pool and takes what it sees. -/
def Offers (ready : List PoolTransaction) : MiningMode → Prop
  | .none => False
  | .auto miner => miner.Takes ready
  | .fixedBlockTime miner => miner.due = true
  | .mixed timely fixed => timely.Takes ready ∨ fixed.due = true

instance (mode : MiningMode) : Decidable (mode.Offers ready) := by
  cases mode <;> unfold Offers <;> infer_instance

theorem poll_of_overfull (h : mode.Overfull ready) :
    (∃ transactions, (mode.poll ready).1 = some transactions) ∧
      (mode.poll ready).2.Overfull ready := by
  -- the flag says that the pool was not drained, so the miner looks again
  have hagain : ∀ miner : ReadyTransactionMiner, miner.Takes ready →
      miner.maxTransactions ≤ ready.length → (miner.poll ready).2.Takes ready ∧
        (miner.poll ready).2.maxTransactions ≤ ready.length := by
    intro miner htakes hle
    rw [poll_of_takes htakes]
    exact ⟨⟨Or.inr (by simp [hle]), htakes.2⟩, hle⟩
  cases mode with
  | none => cases h
  | fixedBlockTime miner => cases h
  | auto miner =>
    refine ⟨⟨ready.take miner.maxTransactions, ?_⟩, hagain miner h.1 h.2⟩
    simp only [poll, poll_of_takes h.1]
  | mixed timely fixed =>
    refine ⟨?_, hagain timely h.1 h.2⟩
    simp only [poll, poll_of_takes h.1]
    cases (fixed.poll ready).1 <;> exact ⟨_, rfl⟩

theorem poll_of_not_offers (h : ¬mode.Offers ready) : (mode.poll ready).1 = .none := by
  cases mode with
  | none => rfl
  | auto miner => exact (poll_of_not_takes h).1
  | fixedBlockTime miner => simp [poll, FixedBlockTimeMiner.poll, show ¬miner.due = true from h]
  | mixed timely fixed =>
    obtain ⟨htakes, hdue⟩ := not_or.mp h
    simp [poll, (poll_of_not_takes htakes).1, FixedBlockTimeMiner.poll, hdue]

/-- If not everything fits into a block, all of it is handed out and the miners have no reason
to look again. -/
theorem poll_of_offers (h : mode.Offers ready) (hfits : ¬mode.Overfull ready) :
    (mode.poll ready).1 = some ready ∧ ¬(mode.poll ready).2.Offers ready := by
  have hall : ∀ miner : ReadyTransactionMiner, miner.Takes ready →
      ¬miner.maxTransactions ≤ ready.length →
      (miner.poll ready).1 = some ready ∧ ¬(miner.poll ready).2.Takes ready := by
    intro miner htakes hle
    rw [poll_of_takes htakes, List.take_of_length_le (by omega)]
    refine ⟨rfl, fun hagain => ?_⟩
    simp [ReadyTransactionMiner.Takes, hle] at hagain
  cases mode with
  | none => cases h
  | auto miner => exact hall miner h fun hle => hfits ⟨h, hle⟩
  | fixedBlockTime miner =>
    simp [poll, FixedBlockTimeMiner.poll, show miner.due = true from h, Offers]
  | mixed timely fixed =>
    by_cases htakes : timely.Takes ready
    · obtain ⟨hsome, hquiet⟩ := hall timely htakes fun hle => hfits ⟨htakes, hle⟩
      cases hdue : fixed.due with
      | false => simp [poll, hsome, FixedBlockTimeMiner.poll, hdue, Offers, hquiet]
      | true =>
        simp [poll, hsome, FixedBlockTimeMiner.poll, hdue, Offers, hquiet,
          mergeUnique_of_subset fun _ hmem => hmem]
    · obtain ⟨hnone, hquiet⟩ := poll_of_not_takes htakes
      have hdue : fixed.due = true := h.resolve_left htakes
      simp [poll, hnone, FixedBlockTimeMiner.poll, hdue, Offers, hquiet]

end MiningMode

namespace Miner

variable {miner : Miner}

theorem poll_of_some {next : List PoolTransaction} (h : (miner.mode.poll ready).1 = some next) :
    miner.poll ready = (some (miner.forced ++ next), ⟨(miner.mode.poll ready).2, none⟩) := by
  unfold poll
  split <;> simp_all

theorem poll_of_none (h : (miner.mode.poll ready).1 = none) :
    miner.poll ready = (none, { miner with mode := (miner.mode.poll ready).2 }) := by
  unfold poll
  split <;> simp_all

end Miner

namespace NodeService

variable {s : NodeService}

theorem round_of_some {transactions : List PoolTransaction} {going : Bool}
    (h : (s.pollNext.miner.mode.poll ready).1 = some transactions) :
    round ready (s, going) = ({ s.pollNext with
      miner := ⟨(s.pollNext.miner.mode.poll ready).2, none⟩
      queued := s.pollNext.queued ++ [s.pollNext.miner.forced ++ transactions] }, true) := by
  simp only [round, Miner.poll_of_some h]

theorem round_of_none {going : Bool} (h : (s.pollNext.miner.mode.poll ready).1 = none) :
    round ready (s, going) = ({ s.pollNext with miner := { s.pollNext.miner with
      mode := (s.pollNext.miner.mode.poll ready).2 } }, false) := by
  simp only [round, Miner.poll_of_none h]

theorem pollNext_miner (s : NodeService) : s.pollNext.miner = s.miner := by
  unfold pollNext
  split <;> rfl

theorem pollNext_queued_sublist : s.pollNext.queued.Sublist s.queued := by
  unfold pollNext
  split
  · rename_i hqueued
    rw [hqueued]
    exact List.sublist_cons_self _ _
  · exact List.Sublist.refl _

/-- With as many transactions as fit into a block the loop goes on for ever. -/
theorem not_exists_loop (h : s.miner.mode.Overfull ready) :
    ¬∃ t, Loop Prod.snd (round ready) (s, true) t := by
  refine Loop.not_of_invariant (fun t => t.2 = true ∧ t.1.miner.mode.Overfull ready) ?_ ⟨rfl, h⟩
  rintro ⟨s, going⟩ ⟨hgoing, hfull⟩
  rw [← pollNext_miner] at hfull
  obtain ⟨⟨transactions, hsome⟩, hagain⟩ := MiningMode.poll_of_overfull hfull
  refine ⟨hgoing, ?_⟩
  rw [round_of_some hsome]
  exact ⟨rfl, hagain⟩

/-- Nothing is handed out: the first round is the last. -/
theorem round_of_not_offers (going : Bool) (h : ¬s.miner.mode.Offers ready) :
    ∃ miner, round ready (s, going) = ({ s.pollNext with miner := miner }, false) :=
  ⟨_, round_of_none (MiningMode.poll_of_not_offers (pollNext_miner s ▸ h))⟩

/-- After the last round nothing comes. -/
theorem yields_iff_of_last {t : NodeService} (h : round ready (s, true) = (t, false)) :
    Yields ready s ↔ s.queued.Pairwise List.Disjoint ∧ t.queued.Pairwise List.Disjoint := by
  rw [Yields, Loop.exists_next_iff rfl, Visits.forall_iff_of_next rfl, h,
    Visits.forall_iff_of_done rfl]
  exact and_iff_right ⟨_, .done rfl⟩

/-- After another round it is as if the service had been called in that state. -/
theorem yields_iff_of_next {t : NodeService} (h : round ready (s, true) = (t, true)) :
    Yields ready s ↔ s.queued.Pairwise List.Disjoint ∧ Yields ready t := by
  rw [Yields, Loop.exists_next_iff rfl, Visits.forall_iff_of_next rfl, h, and_left_comm]
  rfl

/-- **Progress of the service.** The call returns, and the queue never holds a transaction twice,
exactly if that is so at the beginning, not more is ready than fits into a block, and nothing that
is handed out is still queued after the producer took its next batch. -/
theorem yields_iff (ready : List PoolTransaction) (s : NodeService) :
    Yields ready s ↔ s.queued.Pairwise List.Disjoint ∧ ¬s.miner.mode.Overfull ready ∧
      (s.miner.mode.Offers ready →
        ∀ batch ∈ s.pollNext.queued, batch.Disjoint (s.miner.forced ++ ready)) := by
  by_cases hfull : s.miner.mode.Overfull ready
  · exact iff_of_false (fun h => not_exists_loop hfull h.1) fun h => h.2.1 hfull
  by_cases hoffers : s.miner.mode.Offers ready
  · -- one round hands everything out, and the next one stops
    obtain ⟨hsome, hquiet⟩ := MiningMode.poll_of_offers
      (pollNext_miner s ▸ hoffers) (pollNext_miner s ▸ hfull)
    have hround := @round_of_some ready s ready true hsome
    obtain ⟨miner, hlast⟩ := @round_of_not_offers ready { s.pollNext with
      miner := ⟨(s.pollNext.miner.mode.poll ready).2, none⟩
      queued := s.pollNext.queued ++ [s.pollNext.miner.forced ++ ready] } true hquiet
    have hpairwise : (s.pollNext.queued ++ [s.pollNext.miner.forced ++ ready]).Pairwise
        List.Disjoint ↔ s.pollNext.queued.Pairwise List.Disjoint ∧
          ∀ batch ∈ s.pollNext.queued, batch.Disjoint (s.miner.forced ++ ready) := by
      simp [List.pairwise_append, pollNext_miner]
    rw [yields_iff_of_next hround, yields_iff_of_last hlast]
    constructor
    · intro ⟨hqueued, hboth, _⟩
      exact ⟨hqueued, hfull, fun _ => (hpairwise.mp hboth).2⟩
    · intro ⟨hqueued, _, hfree⟩
      have hboth := hpairwise.mpr ⟨hqueued.sublist pollNext_queued_sublist, hfree hoffers⟩
      exact ⟨hqueued, hboth, hboth.sublist pollNext_queued_sublist⟩
  · obtain ⟨miner, hround⟩ := @round_of_not_offers ready s true hoffers
    rw [yields_iff_of_last hround]
    constructor
    · intro ⟨hqueued, _⟩
      exact ⟨hqueued, hfull, fun h => absurd h hoffers⟩
    · intro ⟨hqueued, _, _⟩
      exact ⟨hqueued, hqueued.sublist pollNext_queued_sublist⟩

/-- One ready transaction, and blocks of one transaction. -/
theorem not_yields :
    ¬Yields [⟨⟨0, 0, 0, 0⟩, [], [], 0⟩] ⟨⟨.auto ⟨1, none, false⟩, none⟩, none, []⟩ := by
  refine fun h => not_exists_loop ?_ h.1
  exact ⟨⟨Or.inr (by decide), le_rfl, by simp⟩, le_rfl⟩

end NodeService

end BaseAnvil.Chain

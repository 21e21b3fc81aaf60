import BaseAnvil.Chain.NodeService
import BaseAnvil.Lib.Run

/-!
# BaseAnvil.Chain.MinedOnce

Whether a transaction can get into two blocks.

Transactions that are being mined or are queued are still in the pool, so they may be handed out
again. A second batch that holds them fails on their nonce, unless they are deposits, whose nonce
is not checked. The pool may hold anything at any time here.

So what must not happen is that a miner hands out a deposit for the second time (`Fresh`). A deposit
may well be ready while its block is mined, as long as no miner has a reason to look at the pool.
-/

namespace BaseAnvil.Chain

open Lib NodeService ReadyTransactionMiner
open Pool (Address TxHash PoolTransaction)

/-- What a hash stands for. -/
structure TxIdentity where
  sender : TxHash → Address
  nonce : TxHash → UInt64
  isDeposit : TxHash → Bool

/-- The transactions a block includes, one after the other: only a deposit may have another nonce
than its account. -/
def includeAll (ids : TxIdentity) (nonces : Address → Nat) :
    List PoolTransaction → Option (Address → Nat)
  | [] => some nonces
  | tx :: rest =>
    if ids.isDeposit tx.hash || nonces tx.sender == tx.nonce.toNat then
      includeAll ids (Function.update nonces tx.sender (nonces tx.sender + 1)) rest
    else none

/-- The service with the chain: the nonces of the accounts, and what each block includes. -/
structure Node where
  service : NodeService
  nonces : Address → Nat
  blocks : List (List PoolTransaction)

/-- What can happen to the service. A call of `NodeService::poll` is a sequence of rounds. -/
inductive NodeEvent
  /-- A round of `NodeService::poll`, with what is ready in the pool. -/
  | round (ready : List PoolTransaction)
  /-- A transaction was added to the pool. -/
  | notify
  /-- The interval has passed. -/
  | tick
  /-- The block is done, and includes these transactions. -/
  | mined (included : List PoolTransaction)

def MiningMode.notify : MiningMode → MiningMode
  | .auto miner => .auto { miner with notified := true }
  | .mixed timely fixed => .mixed { timely with notified := true } fixed
  | mode => mode

def MiningMode.tick : MiningMode → MiningMode
  | .fixedBlockTime _ => .fixedBlockTime ⟨true⟩
  | .mixed timely _ => .mixed timely ⟨true⟩
  | mode => mode

namespace Node

variable (ids : TxIdentity)

def withMode (n : Node) (mode : MiningMode) : Node :=
  { n with service := { n.service with miner := { n.service.miner with mode := mode } } }

def exec (n : Node) : NodeEvent → Option Node
  | .round ready => some { n with service := (NodeService.round ready (n.service, true)).1 }
  | .notify => some (n.withMode n.service.miner.mode.notify)
  | .tick => some (n.withMode n.service.miner.mode.tick)
  | .mined included => do
      let batch ← n.service.blockMining
      if included.isSublist batch then
        let nonces ← includeAll ids n.nonces included
        some ⟨{ n.service with blockMining := none }, nonces, n.blocks ++ [included]⟩
      else none

def Step (n : Node) (event : NodeEvent) (n' : Node) : Prop := n.exec ids event = some n'

def start (miner : Miner) (nonces : Address → Nat) : Node := ⟨⟨miner, none, []⟩, nonces, []⟩

/-- No hash is in two blocks. -/
def MinedOnce (n : Node) : Prop :=
  n.blocks.Pairwise fun b b' => ∀ tx ∈ b, ∀ tx' ∈ b', tx.hash ≠ tx'.hash

/-- All that was handed out and not dropped, in the order it was. -/
def batches (n : Node) : List (List PoolTransaction) :=
  n.blocks ++ n.service.blockMining.toList ++ n.service.queued

/-- When a miner has a reason to look at the pool, what it may hand out is what its hash says, and
has no deposit in it that is in a block, being mined or queued. -/
def Fresh (n : Node) : NodeEvent → Prop
  | .round ready => n.service.miner.mode.Offers ready → ∀ tx ∈ n.service.miner.forced ++ ready,
      (ids.sender tx.hash = tx.sender ∧ ids.nonce tx.hash = tx.nonce) ∧
      (ids.isDeposit tx.hash = true → ∀ batch ∈ n.batches, ∀ tx' ∈ batch, tx'.hash ≠ tx.hash)
  | _ => True

instance (n : Node) (event : NodeEvent) : Decidable (n.Fresh ids event) := by
  cases event <;> unfold Fresh <;> infer_instance

/-! ### The invariant -/

/-- Two batches share no deposit. -/
def Apart (b b' : List PoolTransaction) : Prop :=
  ∀ tx ∈ b, ∀ tx' ∈ b', ids.isDeposit tx'.hash = true → tx.hash ≠ tx'.hash

structure Inv (n : Node) : Prop where
  identified : ∀ batch ∈ n.batches, ∀ tx ∈ batch,
    ids.sender tx.hash = tx.sender ∧ ids.nonce tx.hash = tx.nonce
  apart : n.batches.Pairwise (Apart ids)
  /-- The account of what is in a block has gone on. -/
  past : ∀ block ∈ n.blocks, ∀ tx ∈ block, ids.isDeposit tx.hash = false →
    tx.nonce.toNat < n.nonces tx.sender
  once : n.MinedOnce

variable {ids} {n n' : Node}

/-- What a block includes was not behind its account, and is afterwards. -/
theorem includeAll_spec {nonces nonces' : Address → Nat} {included : List PoolTransaction}
    (h : includeAll ids nonces included = some nonces') :
    (∀ address, nonces address ≤ nonces' address) ∧ ∀ tx ∈ included,
      ids.isDeposit tx.hash = false →
        nonces tx.sender ≤ tx.nonce.toNat ∧ tx.nonce.toNat < nonces' tx.sender := by
  induction included generalizing nonces with
  | nil =>
    cases h
    exact ⟨fun _ => le_rfl, fun _ hmem => absurd hmem List.not_mem_nil⟩
  | cons tx rest ih =>
    rw [includeAll] at h
    split at h
    · rename_i hnonce
      obtain ⟨hmono, hrest⟩ := ih h
      have hle : ∀ address, nonces address ≤
          Function.update nonces tx.sender (nonces tx.sender + 1) address := by
        intro address
        rw [Function.update_apply]
        split
        · rename_i heq
          exact heq ▸ Nat.le_succ _
        · exact le_rfl
      refine ⟨fun address => (hle address).trans (hmono address), fun tx' hmem hdeposit => ?_⟩
      rcases List.mem_cons.mp hmem with rfl | hmem
      · have heq : nonces tx'.sender = tx'.nonce.toNat := by simpa [hdeposit] using hnonce
        have hnext := hmono tx'.sender
        rw [Function.update_self] at hnext
        omega
      · obtain ⟨hge, hlt⟩ := hrest tx' hmem hdeposit
        exact ⟨(hle tx'.sender).trans hge, hlt⟩
    · cases h

end Node

theorem mem_mergeUnique {tx : PoolTransaction} {autoTxs fixedTxs : List PoolTransaction}
    (h : tx ∈ mergeUnique autoTxs fixedTxs) : tx ∈ autoTxs ∨ tx ∈ fixedTxs := by
  unfold mergeUnique at h
  induction fixedTxs generalizing autoTxs with
  | nil => exact Or.inl h
  | cons tx' rest ih =>
    rw [List.foldl_cons] at h
    have hcases := ih h
    split at hcases <;> simp at hcases ⊢ <;> tauto

/-- Miners hand out what is ready. -/
theorem MiningMode.mem_of_poll {mode : MiningMode} {ready batch : List PoolTransaction}
    (h : (mode.poll ready).1 = some batch) : ∀ tx ∈ batch, tx ∈ ready := by
  have hauto : ∀ (miner : ReadyTransactionMiner) (batch : List PoolTransaction),
      (miner.poll ready).1 = some batch → ∀ tx ∈ batch, tx ∈ ready := by
    intro miner batch h tx hmem
    by_cases htakes : miner.Takes ready
    · rw [poll_of_takes htakes] at h
      cases h
      exact List.mem_of_mem_take hmem
    · rw [(poll_of_not_takes htakes).1] at h
      cases h
  have hfixed : ∀ (miner : FixedBlockTimeMiner) (batch : List PoolTransaction),
      (miner.poll ready).1 = some batch → ∀ tx ∈ batch, tx ∈ ready := by
    intro miner batch h tx hmem
    unfold FixedBlockTimeMiner.poll at h
    split at h <;> cases h
    exact hmem
  cases mode with
  | none => cases h
  | auto miner => exact hauto miner batch h
  | fixedBlockTime miner => exact hfixed miner batch h
  | mixed timely fixed =>
    simp only [poll] at h
    split at h
    · rename_i htimely hdue
      cases h
      exact fun tx hmem => (mem_mergeUnique hmem).elim (hauto _ _ htimely tx) (hfixed _ _ hdue tx)
    · rename_i htimely _
      exact hauto _ _ (htimely.trans h)
    · exact hfixed _ _ h

namespace Node

variable {ids : TxIdentity} {n n' : Node}

/-- A round hands out at most one batch of what is forced and what is ready, behind all others. -/
theorem batches_round (ready : List PoolTransaction) (h : n.exec ids (.round ready) = some n') :
    n'.blocks = n.blocks ∧ n'.nonces = n.nonces ∧
      (n'.batches = n.batches ∨
        n.service.miner.mode.Offers ready ∧ ∃ batch,
          (∀ tx ∈ batch, tx ∈ n.service.miner.forced ++ ready) ∧
            n'.batches = n.batches ++ [batch]) := by
  cases h
  refine ⟨rfl, rfl, ?_⟩
  -- the next batch of an idle producer only moves
  have hnext : n.batches =
      n.blocks ++ n.service.pollNext.blockMining.toList ++ n.service.pollNext.queued := by
    unfold batches pollNext
    split
    · rename_i hmining hqueued
      simp [hmining, hqueued]
    · rfl
  rw [hnext]
  cases hpoll : (n.service.pollNext.miner.mode.poll ready).1 with
  | none => exact Or.inl (by rw [round_of_none hpoll]; rfl)
  | some next =>
    have hoffers : n.service.miner.mode.Offers ready := by
      by_contra hnot
      rw [pollNext_miner, MiningMode.poll_of_not_offers hnot] at hpoll
      cases hpoll
    refine Or.inr ⟨hoffers, n.service.miner.forced ++ next, fun tx hmem => ?_, ?_⟩
    · exact List.mem_append.mpr ((List.mem_append.mp hmem).imp_right
        (MiningMode.mem_of_poll hpoll tx))
    · rw [round_of_some hpoll, pollNext_miner]
      simp [batches]

theorem Inv.mined (h : n.Inv ids) {included : List PoolTransaction}
    (hexec : n.exec ids (.mined included) = some n') : n'.Inv ids := by
  obtain ⟨batch, hmining, hrest⟩ := Option.bind_eq_some_iff.mp hexec
  split at hrest
  · rename_i hsub
    obtain ⟨nonces, hinclude, heq⟩ := Option.bind_eq_some_iff.mp hrest
    cases heq
    have hsubset := (List.isSublist_iff_sublist.mp hsub).subset
    obtain ⟨hmono, hspec⟩ := includeAll_spec hinclude
    have hbatches : n.batches = n.blocks ++ batch :: n.service.queued := by
      simp [batches, hmining]
    obtain ⟨hids, hapart, hpast, honce⟩ := h
    simp only [hbatches, List.pairwise_append, List.pairwise_cons, List.mem_append, List.mem_cons]
      at hids hapart
    obtain ⟨hblocks, ⟨hlater, hqueued⟩, hacross⟩ := hapart
    refine ⟨?_, ?_, ?_, ?_⟩
    · intro b hb tx htx
      simp only [batches, Option.toList_none, List.append_nil, List.mem_append,
        List.mem_singleton] at hb
      rcases hb with (hb | rfl) | hb
      · exact hids b (Or.inl hb) tx htx
      · exact hids batch (Or.inr (Or.inl rfl)) tx (hsubset htx)
      · exact hids b (Or.inr (Or.inr hb)) tx htx
    · simp only [batches, Option.toList_none, List.append_nil, List.append_assoc,
        List.singleton_append, List.pairwise_append, List.pairwise_cons, List.mem_cons]
      refine ⟨hblocks, ⟨fun b hb tx htx => hlater b hb tx (hsubset htx), hqueued⟩, ?_⟩
      rintro b hb b' (rfl | hb') tx htx tx' htx'
      · exact hacross b hb batch (Or.inl rfl) tx htx tx' (hsubset htx')
      · exact hacross b hb b' (Or.inr hb') tx htx tx' htx'
    · intro b hb tx htx hdeposit
      rcases List.mem_append.mp hb with hb | hb
      · exact (hpast b hb tx htx hdeposit).trans_le (hmono tx.sender)
      · cases List.mem_singleton.mp hb
        exact (hspec tx htx hdeposit).2
    · refine List.pairwise_append.mpr ⟨honce, List.pairwise_singleton _ _, ?_⟩
      intro b hb b' hb' tx htx tx' htx' hhash
      cases List.mem_singleton.mp hb'
      cases hdeposit : ids.isDeposit tx'.hash with
      | true =>
        exact hacross b hb batch (Or.inl rfl) tx htx tx' (hsubset htx') hdeposit hhash
      | false =>
        -- its account had gone on since the first of the two blocks
        obtain ⟨hsender, hnonce⟩ := hids b (Or.inl hb) tx htx
        obtain ⟨hsender', hnonce'⟩ := hids batch (Or.inr (Or.inl rfl)) tx' (hsubset htx')
        have hlt := hpast b hb tx htx (hhash ▸ hdeposit)
        have hle := (hspec tx' htx' hdeposit).1
        rw [← hsender, ← hnonce, hhash, hsender', hnonce'] at hlt
        omega
  · cases hrest

theorem Inv.step (h : n.Inv ids) {event : NodeEvent} (hfresh : n.Fresh ids event)
    (hexec : n.exec ids event = some n') : n'.Inv ids := by
  cases event with
  | mined included => exact h.mined hexec
  | notify | tick =>
    cases hexec
    exact ⟨h.identified, h.apart, h.past, h.once⟩
  | round ready =>
    obtain ⟨hblocks, hnonces, heq | ⟨hoffers, batch, hready, heq⟩⟩ := batches_round ready hexec
    · exact ⟨heq ▸ h.identified, heq ▸ h.apart, by rw [hblocks, hnonces]; exact h.past,
        by rw [MinedOnce, hblocks]; exact h.once⟩
    · refine ⟨?_, ?_, by rw [hblocks, hnonces]; exact h.past,
        by rw [MinedOnce, hblocks]; exact h.once⟩ <;> rw [heq]
      · intro b hb tx htx
        rcases List.mem_append.mp hb with hb | hb
        · exact h.identified b hb tx htx
        · cases List.mem_singleton.mp hb
          exact (hfresh hoffers tx (hready tx htx)).1
      · refine List.pairwise_append.mpr ⟨h.apart, List.pairwise_singleton _ _, ?_⟩
        intro b hb b' hb' tx htx tx' htx' hdeposit
        cases List.mem_singleton.mp hb'
        exact (hfresh hoffers tx' (hready tx' htx')).2 hdeposit b hb tx htx

/-- **Mining at most once.** In whatever order the service is polled, transactions come in and
blocks get done: where no miner hands out a deposit that was handed out before, no transaction is
in two blocks. -/
theorem minedOnce_of_fresh (ids : TxIdentity) (miner : Miner) (nonces : Address → Nat)
    (events : List NodeEvent) (n : Node)
    (h : Run (Guarded (Fresh ids) (Step ids)) (start miner nonces) events n) : n.MinedOnce := by
  have hinv : n.Inv ids := h.keeps
    ⟨by simp [batches, start], by simp [batches, start], by simp [start], List.Pairwise.nil⟩
    fun h hs => h.step hs.1 hs.2
  exact hinv.once

/-- A deposit with the nonce 0, and what its sender sends then. -/
def sampleDeposit : PoolTransaction := ⟨⟨7, 0, 0, 0⟩, [], [], 0⟩

def sampleTransfer : PoolTransaction := ⟨⟨8, 0, 1, 0⟩, [], [], 0⟩

def sampleIds : TxIdentity := ⟨fun _ => 0, fun hash => if hash = 8 then 1 else 0, (· == 7)⟩

/-- A node with a tick that is due. -/
def sampleStart : Node := start ⟨.fixedBlockTime ⟨true⟩, none⟩ fun _ => 0

/-- The deposit is ready until its block is done. The transfer comes in before the next tick. -/
theorem minedOnce_of_fresh_deposit : ∃ n,
    Run (Guarded (Fresh sampleIds) (Step sampleIds)) sampleStart
      [.round [sampleDeposit], .round [sampleDeposit], .mined [sampleDeposit], .tick,
        .round [sampleTransfer], .round [sampleTransfer], .mined [sampleTransfer]] n ∧
      n.blocks = [[sampleDeposit], [sampleTransfer]] ∧ n.MinedOnce := by
  have htest : (List.foldlM (fun n event =>
        if decide (n.Fresh sampleIds event) then n.exec sampleIds event else none) sampleStart
      [.round [sampleDeposit], .round [sampleDeposit], .mined [sampleDeposit], .tick,
        .round [sampleTransfer], .round [sampleTransfer], .mined [sampleTransfer]]).map
      (fun n => decide (n.blocks = [[sampleDeposit], [sampleTransfer]])) = some true := by
    decide +kernel
  obtain ⟨n, hexec, hblocks⟩ := exists_of_map_decide htest
  have hrun := Run.guarded_of_foldlM (fun _ _ => of_decide_eq_true) hexec
  exact ⟨n, hrun, hblocks, minedOnce_of_fresh _ _ _ _ n hrun⟩

/-- A deposit that is handed out again while it is being mined. -/
theorem not_minedOnce : ∃ n, Run (Step sampleIds) sampleStart
    [.round [sampleDeposit], .round [sampleDeposit], .tick, .round [sampleDeposit],
      .mined [sampleDeposit], .round [], .mined [sampleDeposit]] n ∧ ¬n.MinedOnce := by
  have htest : (List.foldlM (exec sampleIds) sampleStart
      [.round [sampleDeposit], .round [sampleDeposit], .tick, .round [sampleDeposit],
        .mined [sampleDeposit], .round [], .mined [sampleDeposit]]).map
      (fun n => decide (n.blocks = [[sampleDeposit], [sampleDeposit]])) = some true := by
    decide +kernel
  obtain ⟨n, hexec, hblocks⟩ := exists_of_map_decide htest
  refine ⟨n, Run.of_foldlM hexec, fun h => ?_⟩
  rw [MinedOnce, hblocks] at h
  simp at h

end Node

end BaseAnvil.Chain

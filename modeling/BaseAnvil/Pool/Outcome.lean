import BaseAnvil.Pool.Cascade

/-!
# BaseAnvil.Pool.Outcome

What each operation of the pool can do, said once. `Outcome s op s'` lists the
ways a step from `s` can end, in terms of the primitive changes of the two halves
(`Inserted`, `Unlocked`, `Queued`, `PrunedOne`, `Cleared`, `Dropped`). Invariants
are proved from it, one case per way, and never look at the operations.
-/

namespace BaseAnvil.Pool

open Lib PendingPoolTransaction Finmap PoolInner

/-! ### Adding -/

/-- The transaction with the markers it misses at this time. -/
abbrev PoolInner.incoming (s : PoolInner) (tx : PoolTransaction) : PendingPoolTransaction :=
  .new tx s.readyTransactions.providedMarkers

/-- The ways `PoolInner::add_transaction` can end. -/
inductive AddOutcome (ord : HashOrder) (s : PoolInner) (tx : PoolTransaction) :
    Except PoolError AddedTransaction → PoolInner → Prop
  | contained : s.contains tx.hash = true → AddOutcome ord s tx (.error (.alreadyImported tx)) s
  | underpriced : s.contains tx.hash = false →
      AddOutcome ord s tx (.error (.replacementUnderpriced tx)) s
  | queued {m : TxMarker} {p : PendingTransactions} :
      s.contains tx.hash = false → tx.requires = [m] →
      s.readyTransactions.providedMarkers.lookup m = none →
      ¬ Underpriced s.pendingTransactions (s.incoming tx) →
      Queued s.pendingTransactions (s.incoming tx) p →
      AddOutcome ord s tx (.ok (.pending tx.hash)) ⟨s.readyTransactions, p⟩
  | absorbed {evs : List Event} {c : Config} {s' : PoolInner} :
      s.contains tx.hash = false →
      (∀ m ∈ tx.requires, m ∈ s.readyTransactions.providedMarkers) →
      AbsorbStep ord (s, [s.incoming tx])
        (.entered tx ((s.readyTransactions.provider tx.slot).toList.map (·.tx))) c →
      Absorb ord c evs (s', []) →
      AddOutcome ord s tx (.ok (.ready
        { hash := tx.hash
          promoted := enteredHashes evs
          discarded := refusedHashes evs
          removed := (s.readyTransactions.provider tx.slot).toList.map (·.tx) ++ replacedTxs evs }))
        s'

variable {s : PoolInner} {tx : PoolTransaction}

theorem not_contains {h : TxHash} (hc : s.contains h = false) :
    s.readyTransactions.readyTx.lookup h = none ∧
      s.pendingTransactions.waitingQueue.lookup h = none := by
  simp only [contains, PendingTransactions.contains, ReadyTransactions.contains,
    Bool.or_eq_false_iff, decide_eq_false_iff_not] at hc
  exact ⟨lookup_eq_none.mpr hc.2, lookup_eq_none.mpr hc.1⟩

/-- A new transaction that misses nothing is loose. -/
theorem configInv_incoming (hs : PoolInv s) (hm : NonceMarked tx) (hc : s.contains tx.hash = false)
    (hready : (s.incoming tx).isReady = true) : ConfigInv (s, [s.incoming tx]) := by
  obtain ⟨hr, hw⟩ := not_contains hc
  refine ⟨hs, ?_, ?_, List.nodup_singleton _, ?_, ?_⟩ <;> intro u hu <;>
    rw [List.mem_singleton] at hu <;> subst hu
  · exact hready
  · exact hm
  · exact hr
  · exact hw

theorem isReady_incoming (hreq : ∀ m ∈ tx.requires, m ∈ s.readyTransactions.providedMarkers) :
    (s.incoming tx).isReady = true := by
  simpa [isReady, new,
    Finset.filter_eq_empty_iff] using hreq

theorem addTransaction_spec (ord : HashOrder) (hs : PoolInv s) (hm : NonceMarked tx) :
    ∃ res s', s.addTransaction ord tx = .ok (res, s') ∧ AddOutcome ord s tx res s' := by
  cases hc : s.contains tx.hash with
  | true => exact ⟨_, s, by simp [addTransaction, hc], .contained hc⟩
  | false =>
    obtain ⟨hr, hw⟩ := not_contains hc
    cases hready : (s.incoming tx).isReady with
    | true =>
      have hprov : ∀ m ∈ tx.requires, m ∈ s.readyTransactions.providedMarkers := by
        intro m hmem
        by_contra hnot
        have hemp := isReady_iff.mp hready
        have hin : m ∈ (s.incoming tx).missingMarkers := by
          simp [new, hmem, hnot]
        rw [hemp] at hin
        exact absurd hin (Finset.notMem_empty m)
      have hadd : s.addTransaction ord tx = s.addReadyTransaction ord (s.incoming tx) := by
        simp [addTransaction, hc, hready]
      rw [hadd]
      rcases addReadyTransaction_cases ord (configInv_incoming hs hm hc hready) with
        ⟨o, ho, hfee, heq⟩ | ⟨evs, s', r, p, replaced, rfl, heq, hstep, hrun⟩
      · exact ⟨_, s, heq, .underpriced hc⟩
      · exact ⟨_, s', heq, .absorbed hc hprov hstep.absorb hrun.absorb⟩
    | false =>
      have hadd : ∀ res p, s.pendingTransactions.addTransaction ord (s.incoming tx) =
          .ok (res, p) → s.addTransaction ord tx = .ok
            (match res with
              | .error err => (.error err, ⟨s.readyTransactions, p⟩)
              | .ok () => (.ok (.pending tx.hash), ⟨s.readyTransactions, p⟩)) := by
        intro res p hp
        cases res with
        | error err => simp [addTransaction, hc, hready, hp]
        | ok u =>
          simp [addTransaction, hc, hready, hp]
          rfl
      by_cases hunder : Underpriced s.pendingTransactions (s.incoming tx)
      · have hp := pending_addTransaction_underpriced ord hready hw hunder
        exact ⟨_, s, hadd _ _ hp, .underpriced hc⟩
      · -- some marker is missing, so it is the one the transaction requires
        obtain ⟨m, hmem⟩ : ∃ m, m ∈ (s.incoming tx).missingMarkers := by
          refine Finset.Nonempty.exists_mem (Finset.nonempty_iff_ne_empty.mpr fun hemp => ?_)
          rw [isReady_iff.mpr hemp] at hready
          cases hready
        simp only [new, List.mem_toFinset, List.mem_filter,
          decide_eq_true_eq] at hmem
        have hreq := hm.requires_eq_singleton hmem.1
        have hmiss : (s.incoming tx).missingMarkers = {m} := by
          simp [new, hreq, hmem.2]
        obtain ⟨p, hp, hq⟩ := pending_addTransaction_spec hs.pending hm hreq hmiss hw hunder
        exact ⟨_, _, hadd _ _ hp,
          .queued hc hreq (lookup_eq_none.mpr hmem.2) hunder hq⟩

/-! ### All operations -/

/-- The hashes a removal is asked to remove. -/
inductive Targets (s : PoolInner) : PoolOp → List TxHash → Prop
  | removeInvalid {hashes : List TxHash} : Targets s (.removeInvalid hashes) hashes
  | removeTransactionsByAddress {ord : HashOrder} {fuel : Nat} {sender : Address}
      {txs : List PoolTransaction} : s.transactionsBySender ord fuel sender = some txs →
      Targets s (.removeTransactionsByAddress sender) (txs.map (·.hash))
  | dropTransaction {h : TxHash} : Targets s (.dropTransaction h) [h]

/-- The ways a step can end. -/
inductive Outcome (s : PoolInner) : PoolOp → PoolInner → Prop
  | add {ord : HashOrder} {tx : PoolTransaction} {res : Except PoolError AddedTransaction}
      {s' : PoolInner} :
      NonceMarked tx → AddOutcome ord s tx res s' → Outcome s (.addTransaction tx) s'
  | prune {ord : HashOrder} {ms : List TxMarker} {labels : List (TxMarker × List PoolTransaction)}
      {imports : List PendingPoolTransaction} {s₁ : PoolInner} {evs : List Event} {s' : PoolInner} :
      labels.map (·.1) = ms → Run (PruneStep ord) (s, []) labels (s₁, imports) →
      Absorb ord (s₁, imports) evs (s', []) → Outcome s (.pruneMarkers ms) s'
  | remove {op : PoolOp} {L : List TxHash} {txs txs' : List PoolTransaction}
      {r : ReadyTransactions} {p : PendingTransactions} :
      Targets s op L → Cleared s.readyTransactions L txs r → ReadyWf r →
      p = s.pendingTransactions ∨ Dropped s.pendingTransactions L txs' p → Outcome s op ⟨r, p⟩
  | clear : Outcome s .clear s.clear

theorem removeInvalid_spec (ord : HashOrder) (hs : PoolInv s) (L : List TxHash) :
    ∃ txs txs' r p, s.removeInvalid ord L = (txs ++ txs', ⟨r, p⟩) ∧
      Cleared s.readyTransactions L txs r ∧ ReadyWf r ∧ Dropped s.pendingTransactions L txs' p := by
  obtain ⟨hcl, hwf⟩ := removeWithMarkers_none_spec hs.ready L
  have hdrop := pending_remove_spec ord hs.pending L
  cases hL : L with
  | nil =>
    subst hL
    refine ⟨[], [], s.readyTransactions, s.pendingTransactions, rfl, cleared_nil _, hs.ready, ?_⟩
    exact hdrop
  | cons h rest =>
    rw [← hL]
    refine ⟨_, _, _, _, ?_, hcl, hwf, hdrop⟩
    rw [removeInvalid, hL]
    rfl

variable {s' : PoolInner}

theorem PoolStep.outcome {op : PoolOp} (hs : PoolInv s) (h : PoolStep s op s') :
    Outcome s op s' := by
  cases h with
  | @addTransaction ord tx res s' hm heq =>
    obtain ⟨res', s₁, heq', hout⟩ := addTransaction_spec ord hs hm
    rw [heq] at heq'
    cases heq'
    exact .add hm hout
  | @pruneMarkers ord ms res s' heq =>
    obtain ⟨labels, imports, s₁, evs, s₂, promoted, failed, heq', hlabels, hphase, hrun, -⟩ :=
      pruneMarkers_spec hs ms
    rw [heq] at heq'
    cases heq'
    exact .prune hlabels hphase hrun.absorb
  | @removeInvalid ord L =>
    obtain ⟨txs, txs', r, p, heq, hcl, hwf, hd⟩ := removeInvalid_spec ord hs L
    rw [heq]
    exact .remove .removeInvalid hcl hwf (Or.inr hd)
  | @removeTransactionsByAddress ord fuel sender removed s' heq =>
    obtain ⟨txs, htxs, hrem⟩ := Option.map_eq_some_iff.mp heq
    obtain ⟨txs₁, txs₂, r, p, heq', hcl, hwf, hd⟩ := removeInvalid_spec ord hs (txs.map (·.hash))
    rw [heq'] at hrem
    cases hrem
    exact .remove (.removeTransactionsByAddress htxs) hcl hwf (Or.inr hd)
  | @dropTransaction h =>
    obtain ⟨hcl, hwf⟩ := removeWithMarkers_none_spec hs.ready [h]
    exact @Outcome.remove s _ [h] _ [] _ _ .dropTransaction hcl hwf (Or.inl rfl)
  | clear => exact .clear

/-! ### The invariant of every run -/

variable {txs : List PoolTransaction} {L : List TxHash}

theorem Cleared.shrunk {r r' : ReadyTransactions} (hc : Cleared r L txs r') (hr : ReadyWf r)
    (hr' : ReadyWf r') : Shrunk r r' := by
  have hback : ∀ h t', r'.readyTx.lookup h = some t' →
      ∃ t, r.readyTx.lookup h = some t ∧ t.transaction = t'.transaction := by
    intro h t' ht'
    obtain ⟨-, t, ht, hown⟩ := hc.of_some ht'
    exact ⟨t, ht, hown.transaction.symm⟩
  refine ⟨hc.id, hback, ?_⟩
  intro m h hm
  obtain ⟨t', ht', hslot⟩ := (hr'.provided m h).mp hm
  obtain ⟨t, ht, htx⟩ := hback h t' ht'
  refine (hr.provided m h).mpr ⟨t, ht, ?_⟩
  rw [ReadyTransaction.tx, htx]
  exact hslot

theorem poolInv_of_empty (hready : s.readyTransactions.readyTx = ∅)
    (hprov : s.readyTransactions.providedMarkers = ∅) (hp : s.pendingTransactions = .empty) :
    PoolInv s := by
  refine ⟨readyWf_of_empty hready hprov, by rw [hp]; exact pendingWf_empty, ?_, ?_⟩
  · intro h t w ht
    simp [hready] at ht
  · intro m h hm
    simp [hprov] at hm

variable {p : PendingTransactions}

theorem PoolInv.dropped (hs : PoolInv s) (hd : Dropped s.pendingTransactions L txs p) :
    PoolInv ⟨s.readyTransactions, p⟩ := by
  refine ⟨hs.ready, hd.wf, ?_, ?_⟩
  · intro h t w ht hw
    exact hs.disjoint h t w ht (hd.of_queue hw)
  · intro m h hm
    exact hd.required m (hs.apart m h hm)

theorem PoolInv.queued (hs : PoolInv s) {m : TxMarker} (hc : s.contains tx.hash = false)
    (hreq : tx.requires = [m]) (hprov : s.readyTransactions.providedMarkers.lookup m = none)
    (hq : Queued s.pendingTransactions (s.incoming tx) p) : PoolInv ⟨s.readyTransactions, p⟩ := by
  refine ⟨hs.ready, hq.wf, ?_, ?_⟩
  · intro h t w ht hw
    rw [hq.queue, HashMap.lookup_insert_ite] at hw
    split at hw
    · rename_i heq
      subst heq
      have hnone := (not_contains hc).1
      exact absurd (hnone.symm.trans ht) (by simp)
    · exact hs.disjoint h t w ht hw
  · intro m' h hm
    refine (hq.required m').mpr ⟨hs.apart m' h hm, ?_⟩
    intro hmem
    have hmem : m' ∈ tx.requires := hmem
    rw [hreq, List.mem_singleton] at hmem
    subst hmem
    exact absurd (hprov.symm.trans hm) (by simp)

theorem PoolInv.outcome {op : PoolOp} (hs : PoolInv s) (h : Outcome s op s') : PoolInv s' := by
  cases h with
  | @add ord tx res s' hm hout =>
    cases hout with
    | contained _ => exact hs
    | underpriced _ => exact hs
    | queued hc hreq hprov _ hq => exact hs.queued hc hreq hprov hq
    | absorbed hc hreq hstep hrun =>
      exact ((configInv_incoming hs hm hc (isReady_incoming hreq)).step hstep).absorb hrun |>.pool
  | prune _ hphase hrun =>
    have hc := hphase.keeps (I := ConfigInv) ⟨hs, loose_nil s⟩ ConfigInv.pruneStep
    exact (hc.absorb hrun).pool
  | remove _ hcl hwf hp =>
    have hs₁ := (ConfigInv.shrink ⟨hs, loose_nil s⟩ hwf (hcl.shrunk hs.ready hwf)).pool
    rcases hp with rfl | hd
    · exact hs₁
    · exact hs₁.dropped hd
  | clear => exact poolInv_of_empty rfl rfl rfl

/-- The invariant holds in every state the pool can reach. -/
theorem PoolRun.inv {ops : List PoolOp} (h : PoolRun ops s) : PoolInv s :=
  h.keeps (poolInv_of_empty rfl rfl rfl) fun hi hs => hi.outcome (hs.outcome hi)

end BaseAnvil.Pool

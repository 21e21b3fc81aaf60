import BaseAnvil.Pool.Exec
import BaseAnvil.Pool.Outcome

/-!
# BaseAnvil.Pool.QueueIndex

The index of the waiting half by what a transaction provides (`waiting_markers`).
`PendingTransactions::add_transaction` looks a replaced transaction up in it to
compare fees, and overwrites the index entry, but leaves the replaced transaction
in the queue. As long as no queued transaction is replaced, index and queue agree
and a (sender, nonce) pair is queued at most once.
-/

namespace BaseAnvil.Pool

open Lib PoolInner HashMap

/-- No two queued transactions provide the same markers, and the index finds exactly the queued ones
by what they provide. -/
structure QueueIndexed (p : PendingTransactions) : Prop where
  unique : ∀ h h' w w', p.waitingQueue.lookup h = some w → p.waitingQueue.lookup h' = some w' →
    w.transaction.provides = w'.transaction.provides → h = h'
  index : ∀ ms h, p.waitingMarkers.lookup ms = some h ↔
    ∃ w, p.waitingQueue.lookup h = some w ∧ w.transaction.provides = ms

theorem queueIndexed_empty : QueueIndexed .empty := by
  refine ⟨?_, ?_⟩
  · intro h h' w w' hw
    cases hw
  · intro ms h
    simp [PendingTransactions.empty]

section

variable {p p' : PendingTransactions} (hi : QueueIndexed p)
include hi

/-- Taking transactions out of the queue together with their index entries. -/
theorem QueueIndexed.of_removed {S : TxHash → Prop} [DecidablePred S]
    (hqueue : ∀ h, p'.waitingQueue.lookup h = if S h then none else p.waitingQueue.lookup h)
    (hindex : ∀ ms h, p'.waitingMarkers.lookup ms = some h ↔ p.waitingMarkers.lookup ms = some h ∧
      ∀ h', S h' → ∀ w, p.waitingQueue.lookup h' = some w → w.transaction.provides ≠ ms) :
    QueueIndexed p' := by
  have hback : ∀ h w, p'.waitingQueue.lookup h = some w →
      ¬ S h ∧ p.waitingQueue.lookup h = some w := by
    intro h w hw
    rw [hqueue] at hw
    exact Option.ite_none_left_eq_some.mp hw
  refine ⟨?_, ?_⟩
  · intro h h' w w' hw hw'
    exact hi.unique h h' w w' (hback h w hw).2 (hback h' w' hw').2
  · intro ms h
    rw [hindex, hi.index]
    constructor
    · intro hand
      obtain ⟨⟨w, hw, hprov⟩, hnot⟩ := hand
      refine ⟨w, ?_, hprov⟩
      rw [hqueue, if_neg]
      · exact hw
      · intro hS
        exact hnot h hS w hw hprov
    · intro hex
      obtain ⟨w, hw, hprov⟩ := hex
      obtain ⟨hS, hw⟩ := hback h w hw
      refine ⟨⟨w, hw, hprov⟩, ?_⟩
      intro h' hS' w' hw' hprov'
      have heq := hi.unique h h' w w' hw hw' (hprov.trans hprov'.symm)
      exact hS (heq ▸ hS')

theorem QueueIndexed.unlocked {m : TxMarker} (hu : Unlocked p m p') : QueueIndexed p' :=
  hi.of_removed (S := (· ∈ p.waiters m)) hu.queue hu.index

theorem QueueIndexed.dropped {L : List TxHash} {txs : List PoolTransaction}
    (hd : Dropped p L txs p') : QueueIndexed p' :=
  hi.of_removed (S := (· ∈ L)) hd.queue hd.index

theorem QueueIndexed.queued {tx : PendingPoolTransaction} (hq : Queued p tx p')
    (hnew : p.waitingQueue.lookup tx.transaction.hash = none)
    (hfree : ∀ h w, p.waitingQueue.lookup h = some w →
      w.transaction.provides ≠ tx.transaction.provides) : QueueIndexed p' := by
  have hcases : ∀ h w, p'.waitingQueue.lookup h = some w →
      (h = tx.transaction.hash ∧ w = tx) ∨ p.waitingQueue.lookup h = some w := by
    intro h w hw
    rw [hq.queue, lookup_insert_ite] at hw
    split at hw
    · exact Or.inl ⟨‹_›, (Option.some.inj hw).symm⟩
    · exact Or.inr hw
  refine ⟨?_, ?_⟩
  · intro h h' w w' hw hw' hprov
    rcases hcases h w hw with ⟨rfl, rfl⟩ | hw
    · rcases hcases h' w' hw' with ⟨rfl, -⟩ | hw'
      · rfl
      · exact absurd hprov.symm (hfree h' w' hw')
    · rcases hcases h' w' hw' with ⟨-, rfl⟩ | hw'
      · exact absurd hprov (hfree h w hw)
      · exact hi.unique h h' w w' hw hw' hprov
  · intro ms h
    rw [hq.index, lookup_insert_ite]
    by_cases hms : ms = tx.transaction.provides
    · rw [if_pos hms]
      constructor
      · intro heq
        cases heq
        refine ⟨tx, ?_, hms.symm⟩
        rw [hq.queue, Finmap.lookup_insert]
      · intro hex
        obtain ⟨w, hw, hprov⟩ := hex
        rcases hcases h w hw with ⟨rfl, -⟩ | hw
        · rfl
        · exact absurd (hprov.trans hms) (hfree h w hw)
    · rw [if_neg hms, hi.index]
      constructor
      · intro hex
        obtain ⟨w, hw, hprov⟩ := hex
        refine ⟨w, ?_, hprov⟩
        rw [hq.queue, lookup_insert_ite, if_neg]
        · exact hw
        · intro heq
          rw [heq, hnew] at hw
          cases hw
      · intro hex
        obtain ⟨w, hw, hprov⟩ := hex
        rcases hcases h w hw with ⟨-, rfl⟩ | hw
        · exact absurd hprov.symm hms
        · exact ⟨w, hw, hprov⟩

end

/-! ### Runs without a replacement in the queue -/

/-- The step replaces no queued transaction: a new transaction that has to wait is
outbid by every queued one with the same markers. -/
def KeepsQueued (s : PoolInner) : PoolOp → Prop
  | .addTransaction tx => s.contains tx.hash = false →
      (∃ m ∈ tx.requires, m ∉ s.readyTransactions.providedMarkers) →
      ∀ h w, s.pendingTransactions.waitingQueue.lookup h = some w →
        w.transaction.provides = tx.provides → tx.maxFeePerGas < w.transaction.maxFeePerGas
  | _ => True

theorem QueueIndexed.absorb {ord : HashOrder} {c c' : Config} {evs : List Event}
    (hi : QueueIndexed c.1.pendingTransactions) (hrun : Absorb ord c evs c') :
    QueueIndexed c'.1.pendingTransactions := by
  refine hrun.keeps (I := fun c => QueueIndexed c.1.pendingTransactions) hi ?_
  intro c e c' hi hs
  cases hs with
  | enter _ _ _ hunl _ => exact hi.unlocked hunl
  | refuse _ _ _ _ => exact hi

theorem QueueIndexed.outcome {s s' : PoolInner} {op : PoolOp}
    (hi : QueueIndexed s.pendingTransactions) (hkeep : KeepsQueued s op) (h : Outcome s op s') :
    QueueIndexed s'.pendingTransactions := by
  cases h with
  | @add ord tx res s' hm hout =>
    cases hout with
    | contained _ => exact hi
    | underpriced _ => exact hi
    | @queued m p hc hreq hprov hunder hq =>
      refine hi.queued hq (not_contains hc).2 ?_
      -- whoever provides the same is in the index, so the fees were compared
      intro h w hw heq
      have hlt := hkeep hc ⟨m, by rw [hreq]; exact List.mem_cons_self,
        Finmap.lookup_eq_none.mp hprov⟩ h w hw heq
      have hlook := (hi.index _ h).mpr ⟨w, hw, heq⟩
      exact hunder ⟨w, by rw [PendingTransactions.replaces, hlook]; exact hw, hlt⟩
    | absorbed _ _ hstep hrun => exact hi.absorb (.cons hstep hrun)
  | prune _ hphase hrun =>
    refine QueueIndexed.absorb ?_ hrun
    refine hphase.keeps (I := fun c => QueueIndexed c.1.pendingTransactions) hi ?_
    intro c l c' hi hs
    cases hs with
    | mk hunl _ _ => exact hi.unlocked hunl
  | remove _ _ _ hp =>
    rcases hp with rfl | hd
    · exact hi
    · exact hi.dropped hd
  | clear => exact queueIndexed_empty

/-- **The queue.** At most one queued transaction per sender and nonce, and the index finds it, in
every run that replaces no queued transaction. -/
theorem queueIndexed_of_keepsQueued {ops : List PoolOp} {s : PoolInner}
    (hrun : Run (Guarded KeepsQueued PoolStep) PoolInner.empty ops s) :
    QueueIndexed s.pendingTransactions := by
  refine Run.invariant_of (I := fun _ s => PoolInv s)
    (J := fun _ s => QueueIndexed s.pendingTransactions) ?_ queueIndexed_empty ?_ hrun
  · intro ops s hrun
    exact PoolRun.inv hrun.unguard
  · intro _ s op s' hinv hi hs
    exact hi.outcome hs.1 (hs.2.outcome hinv)

/-- A first transaction that has to wait. -/
theorem queueIndexed_of_keepsQueued_first :
    ∃ s, Run (Guarded KeepsQueued PoolStep) PoolInner.empty
        [.addTransaction (sampleTx 1 1 0 10)] s ∧
      s.pendingTransactions.contains 1 = true ∧ QueueIndexed s.pendingTransactions := by
  obtain ⟨s, hs, hP⟩ := Option.map_eq_some_iff.mp
    (show (PoolInner.empty.exec ascendingOrder 0 (.addTransaction (sampleTx 1 1 0 10))).map
      (·.pendingTransactions.contains 1) = some true by decide +kernel)
  have hrun : Run (Guarded KeepsQueued PoolStep) PoolInner.empty
      [.addTransaction (sampleTx 1 1 0 10)] s := by
    refine .snoc .nil ⟨?_, exec_sound (by decide +kernel) hs⟩
    intro _ _ h w hw
    cases hw
  exact ⟨s, hrun, hP, queueIndexed_of_keepsQueued hrun⟩

/-- Without that condition: the second submission replaces the first, and both
stay in the queue while the index finds only one. -/
theorem queue_keeps_replaced :
    ∃ s w w', PoolRun [.addTransaction (sampleTx 1 1 0 10), .addTransaction (sampleTx 2 1 0 20)] s ∧
      s.pendingTransactions.waitingQueue.lookup 1 = some w ∧
      s.pendingTransactions.waitingQueue.lookup 2 = some w' ∧
      w.transaction.provides = w'.transaction.provides ∧
      ¬ QueueIndexed s.pendingTransactions := by
  obtain ⟨s, hrun, hP⟩ := run_of_execAll ascendingOrder 0
    [.addTransaction (sampleTx 1 1 0 10), .addTransaction (sampleTx 2 1 0 20)]
    (fun s => (s.pendingTransactions.waitingQueue.lookup 1).any fun w =>
      (s.pendingTransactions.waitingQueue.lookup 2).any fun w' =>
        w.transaction.provides = w'.transaction.provides)
    (by decide +kernel) (by decide +kernel)
  obtain ⟨w, hw, hP⟩ := (Option.any_eq_true _ _).mp hP
  obtain ⟨w', hw', hP⟩ := (Option.any_eq_true _ _).mp hP
  have hprov := of_decide_eq_true hP
  refine ⟨s, w, w', hrun, hw, hw', hprov, fun hi => ?_⟩
  exact absurd (hi.unique 1 2 w w' hw hw' hprov) (by decide)

end BaseAnvil.Pool

import BaseAnvil.Pool.Pending

/-!
# BaseAnvil.Pool.PendingInv

What holds of the waiting half of the pool at any time, and what each of its
operations does to it.

`PendingWf` ties `requiredMarkers` to the queue. It says nothing about
`waitingMarkers`: the source keeps that index up to date only as long as nothing
in the queue is replaced. Each operation gets one lemma that describes its result
by lookups; nothing later unfolds the operations again.
-/

namespace BaseAnvil.Pool

open Lib PendingTransactions HashMap Finmap PendingPoolTransaction

namespace PendingTransactions

/-- The hashes waiting for a marker. -/
def waiters (p : PendingTransactions) (m : TxMarker) : Finset TxHash :=
  (p.requiredMarkers.lookup m).getD ∅

/-- The queued transactions that wait for `m`, in the order they are unlocked,
with `m` checked off. -/
def unlockedBy (ord : HashOrder) (p : PendingTransactions) (m : TxMarker) :
    List PendingPoolTransaction :=
  (ord.hashes.toList (p.waiters m)).filterMap fun h => (p.waitingQueue.lookup h).map (·.mark m)

end PendingTransactions

/-- The queue and the index of what it waits for agree. -/
structure PendingWf (p : PendingTransactions) : Prop where
  hash : ∀ h w, p.waitingQueue.lookup h = some w → w.transaction.hash = h
  marked : ∀ h w, p.waitingQueue.lookup h = some w → NonceMarked w.transaction
  /-- A queued transaction misses the one marker it requires. -/
  missing : ∀ h w, p.waitingQueue.lookup h = some w →
    ∃ m, w.transaction.requires = [m] ∧ w.missingMarkers = {m}
  waiters : ∀ m h, h ∈ p.waiters m ↔ ∃ w, p.waitingQueue.lookup h = some w ∧ m ∈ w.missingMarkers
  /-- No marker is indexed that nothing waits for. -/
  nonempty : ∀ m s, p.requiredMarkers.lookup m = some s → s.Nonempty

theorem pendingWf_empty : PendingWf .empty := by
  refine ⟨?_, ?_, ?_, ?_, ?_⟩ <;> intro a b <;>
    simp [empty, PendingTransactions.waiters]

namespace PendingWf

variable {p : PendingTransactions} {m : TxMarker} {h : TxHash} {w : PendingPoolTransaction}
  (hp : PendingWf p)
include hp

theorem mem_missing (hw : p.waitingQueue.lookup h = some w) :
    m ∈ w.missingMarkers ↔ m ∈ w.transaction.requires := by
  obtain ⟨m', hreq, hmiss⟩ := hp.missing h w hw
  rw [hreq, hmiss, Finset.mem_singleton, List.mem_singleton]

theorem lookup_hash (hw : p.waitingQueue.lookup h = some w) :
    p.waitingQueue.lookup w.transaction.hash = some w := by
  rw [hp.hash h w hw]
  exact hw

theorem exists_requires (hw : p.waitingQueue.lookup h = some w) :
    ∃ q, q ∈ w.transaction.requires := by
  obtain ⟨q, hreq, -⟩ := hp.missing h w hw
  rw [hreq]
  exact ⟨q, List.mem_cons_self⟩

/-- Nothing waits for a marker that is not indexed. -/
theorem lookup_none_iff :
    p.requiredMarkers.lookup m = none ↔
      ∀ h w, p.waitingQueue.lookup h = some w → m ∉ w.transaction.requires := by
  constructor
  · intro hnone h w hw hm
    have hmem : h ∈ p.waiters m := (hp.waiters m h).mpr ⟨w, hw, (hp.mem_missing hw).mpr hm⟩
    simp [PendingTransactions.waiters, hnone] at hmem
  · intro hall
    cases hlook : p.requiredMarkers.lookup m with
    | none => rfl
    | some s =>
      obtain ⟨h, hmem⟩ := hp.nonempty m s hlook
      have hmem' : h ∈ p.waiters m := by simpa [PendingTransactions.waiters, hlook] using hmem
      obtain ⟨w, hw, hm⟩ := (hp.waiters m h).mp hmem'
      exact absurd ((hp.mem_missing hw).mp hm) (hall h w hw)

/-- Transactions that wait for `m` leave the queue and the index. -/
theorem leave {p' : PendingTransactions} {L : TxHash → Prop} [DecidablePred L]
    (hL : ∀ h w, p.waitingQueue.lookup h = some w → L h → w.missingMarkers = {m})
    (hqueue : ∀ h, p'.waitingQueue.lookup h = if L h then none else p.waitingQueue.lookup h)
    (hwaiters : ∀ m' h, h ∈ p'.waiters m' ↔ h ∈ p.waiters m' ∧ (m' = m → ¬ L h))
    (hnonempty : ∀ m' s, p'.requiredMarkers.lookup m' = some s → s.Nonempty) : PendingWf p' := by
  have hkeep : ∀ h w, p'.waitingQueue.lookup h = some w ↔
      ¬ L h ∧ p.waitingQueue.lookup h = some w := by
    intro h w
    rw [hqueue, Option.ite_none_left_eq_some]
  refine ⟨fun h w hw => hp.hash h w ((hkeep h w).mp hw).2,
    fun h w hw => hp.marked h w ((hkeep h w).mp hw).2,
    fun h w hw => hp.missing h w ((hkeep h w).mp hw).2, fun m' h => ?_, hnonempty⟩
  rw [hwaiters, hp.waiters]
  constructor
  · rintro ⟨⟨w, hw, hmem⟩, hne⟩
    refine ⟨w, (hkeep h w).mpr ⟨fun hh => ?_, hw⟩, hmem⟩
    -- a transaction misses one marker only
    rw [hL h w hw hh, Finset.mem_singleton] at hmem
    exact hne hmem hh
  · rintro ⟨w, hw, hmem⟩
    obtain ⟨hnot, hw⟩ := (hkeep h w).mp hw
    exact ⟨⟨w, hw, hmem⟩, fun _ => hnot⟩

end PendingWf

/-- The transactions with the given hashes leave the queue and the index of what they
provide. -/
structure Taken (p : PendingTransactions) (hashes : List TxHash) (p' : PendingTransactions) :
    Prop where
  queue : ∀ h, p'.waitingQueue.lookup h = if h ∈ hashes then none else p.waitingQueue.lookup h
  index : ∀ ms h, p'.waitingMarkers.lookup ms = some h ↔ p.waitingMarkers.lookup ms = some h ∧
    ∀ h' ∈ hashes, ∀ w, p.waitingQueue.lookup h' = some w → w.transaction.provides ≠ ms

namespace Taken

variable {p p₁ p' : PendingTransactions} {x : TxHash} {rest : List TxHash}
  {w : PendingPoolTransaction}

theorem nil : Taken p [] p := ⟨by simp, by simp⟩

theorem skip (hx : p.waitingQueue.lookup x = none) (h : Taken p rest p') :
    Taken p (x :: rest) p' where
  queue y := by
    rw [h.queue]
    by_cases hy : y = x
    · subst hy
      simp [hx]
    · simp [hy]
  index ms y := by
    rw [h.index, List.forall_mem_cons]
    simp [hx]

theorem cons (hx : p.waitingQueue.lookup x = some w)
    (hqueue : p₁.waitingQueue = p.waitingQueue.erase x)
    (hindex : p₁.waitingMarkers = p.waitingMarkers.erase w.transaction.provides)
    (h : Taken p₁ rest p') : Taken p (x :: rest) p' where
  queue y := by
    rw [h.queue, hqueue, lookup_erase_ite]
    by_cases hy : y = x <;> simp [hy]
  index ms y := by
    rw [h.index, hindex, hqueue, lookup_erase_ite, List.forall_mem_cons]
    simp only [hx, lookup_erase_ite, Option.ite_none_left_eq_some, Option.some.injEq,
      forall_eq']
    constructor
    · rintro ⟨⟨hms, hy⟩, hrest⟩
      refine ⟨hy, Ne.symm hms, fun h' hh' w' hw' => ?_⟩
      by_cases heq : h' = x
      · rw [heq, hx] at hw'
        cases hw'
        exact Ne.symm hms
      · exact hrest h' hh' w' ⟨heq, hw'⟩
    · rintro ⟨hy, hms, hrest⟩
      exact ⟨⟨Ne.symm hms, hy⟩, fun h' hh' w' hw' => hrest h' hh' w' hw'.2⟩

end Taken

/-! ### Unlocking -/

variable {m : TxMarker} {w : PendingPoolTransaction} {p p' : PendingTransactions} {ord : HashOrder}
  {h : TxHash}

theorem isReady_mark (h : w.missingMarkers = {m}) : (w.mark m).isReady = true := by
  simp [isReady, mark, h]

/-- The inner loop of `mark_and_unlock`, when every hash on the list is queued and
misses nothing but the marker: all of them leave the queue. -/
theorem foldlM_unlock :
    ∀ (l : List TxHash) (acc : List PendingPoolTransaction) (p : PendingTransactions), l.Nodup →
      (∀ h ∈ l, ∃ w, p.waitingQueue.lookup h = some w ∧ w.missingMarkers = {m}) →
      ∃ p', l.foldlM (unlock m) (acc, p) =
          .ok (acc ++ l.filterMap fun h => (p.waitingQueue.lookup h).map (·.mark m), p') ∧
        p'.requiredMarkers = p.requiredMarkers ∧ Taken p l p' := by
  intro l
  induction l with
  | nil =>
    intro acc p _ _
    exact ⟨p, by simp; rfl, rfl, .nil⟩
  | cons x rest ih =>
    intro acc p hnodup hall
    obtain ⟨hx, hrest⟩ := List.nodup_cons.mp hnodup
    obtain ⟨w, hw, hmiss⟩ := hall x List.mem_cons_self
    have hone : unlock m (acc, p) x = .ok (acc ++ [w.mark m],
        { p with
          waitingQueue := p.waitingQueue.erase x
          waitingMarkers := p.waitingMarkers.erase w.transaction.provides }) := by
      simp [unlock, hw, isReady_mark hmiss]
    -- the rest of the list is still queued
    have hlook : ∀ h ∈ rest, (p.waitingQueue.erase x).lookup h = p.waitingQueue.lookup h := by
      intro h hh
      rw [lookup_erase_ite, if_neg]
      intro heq
      exact hx (heq ▸ hh)
    obtain ⟨p', hrun, hreq, htaken⟩ := ih (acc ++ [w.mark m])
      { p with
        waitingQueue := p.waitingQueue.erase x
        waitingMarkers := p.waitingMarkers.erase w.transaction.provides } hrest (by
          intro h hh
          obtain ⟨w', hw', hmiss'⟩ := hall h (List.mem_cons_of_mem x hh)
          exact ⟨w', by rw [← hw']; exact hlook h hh, hmiss'⟩)
    refine ⟨p', ?_, hreq, htaken.cons hw rfl rfl⟩
    rw [List.foldlM_cons, hone]
    change rest.foldlM (unlock m) _ = _
    rw [hrun, List.filterMap_cons, hw]
    simp only [Option.map_some, List.append_assoc, List.singleton_append]
    rw [List.filterMap_congr fun h hh => by rw [hlook h hh]]

/-- What `mark_and_unlock` does with one marker: everything that waits for it
leaves the queue, the rest stays as it is, and no `expect` fails. -/
structure Unlocked (p : PendingTransactions) (m : TxMarker) (p' : PendingTransactions) : Prop where
  wf : PendingWf p'
  required : p'.requiredMarkers = p.requiredMarkers.erase m
  queue : ∀ h, p'.waitingQueue.lookup h =
    if h ∈ p.waiters m then none else p.waitingQueue.lookup h
  index : ∀ ms h, p'.waitingMarkers.lookup ms = some h ↔ p.waitingMarkers.lookup ms = some h ∧
    ∀ h' ∈ p.waiters m, ∀ w, p.waitingQueue.lookup h' = some w → w.transaction.provides ≠ ms

theorem markAndUnlock_spec (ord : HashOrder) (hp : PendingWf p) (m : TxMarker) :
    ∃ p', p.markAndUnlock ord [m] = .ok (p.unlockedBy ord m, p') ∧ Unlocked p m p' := by
  have hall : ∀ h ∈ ord.hashes.toList (p.waiters m),
      ∃ w, p.waitingQueue.lookup h = some w ∧ w.missingMarkers = {m} := by
    intro h hh
    obtain ⟨w, hw, hm⟩ := (hp.waiters m h).mp ((ord.hashes.mem_toList _ _).mp hh)
    obtain ⟨m', -, hmiss⟩ := hp.missing h w hw
    rw [hmiss, Finset.mem_singleton] at hm
    exact ⟨w, hw, by rw [hmiss, hm]⟩
  obtain ⟨p', hrun, hreq, hqueue, hmark⟩ := foldlM_unlock (ord.hashes.toList (p.waiters m)) []
    { p with requiredMarkers := p.requiredMarkers.erase m } (ord.hashes.nodup _) hall
  refine ⟨p', ?_, ?_⟩
  · -- a marker nobody waits for unlocks nothing and leaves the index alone
    cases hlook : p.requiredMarkers.lookup m with
    | some s =>
      have hs : p.waiters m = s := by simp [PendingTransactions.waiters, hlook]
      rw [hs] at hrun
      simp only [markAndUnlock, List.foldlM_cons, List.foldlM_nil, markOne, hlook, unlockedBy, hs]
      rw [hrun]
      rfl
    | none =>
      have hs : p.waiters m = ∅ := by simp [PendingTransactions.waiters, hlook]
      rw [hs, erase_of_lookup_none hlook] at hrun
      simp only [IterOrder.toList_empty, List.foldlM_nil, List.filterMap_nil] at hrun
      simp only [markAndUnlock, List.foldlM_cons, List.foldlM_nil, markOne, hlook, unlockedBy, hs,
        IterOrder.toList_empty, List.filterMap_nil]
      exact hrun
  · simp only [ord.hashes.mem_toList] at hqueue hmark
    refine ⟨hp.leave (m := m) ?_ hqueue ?_ ?_, hreq, hqueue, hmark⟩
    · intro h w hw hh
      obtain ⟨w', hw', hmiss⟩ := hall h ((ord.hashes.mem_toList _ _).mpr hh)
      cases hw.symm.trans hw'
      exact hmiss
    · intro m' h
      simp only [PendingTransactions.waiters, hreq, lookup_erase_ite]
      by_cases hm : m' = m
      · subst hm
        simp
      · simp [hm]
    · intro m' s hs
      rw [hreq, lookup_erase_ite] at hs
      exact hp.nonempty m' s (Option.ite_none_left_eq_some.mp hs).2

variable {u : PendingPoolTransaction}

theorem mem_unlockedBy (hp : PendingWf p) :
    u ∈ p.unlockedBy ord m ↔ ∃ w, p.waitingQueue.lookup w.transaction.hash = some w ∧
      m ∈ w.transaction.requires ∧ u = w.mark m := by
  unfold unlockedBy
  rw [List.mem_filterMap]
  constructor
  · intro hex
    obtain ⟨h, hh, hmap⟩ := hex
    obtain ⟨w, hw, rfl⟩ := Option.map_eq_some_iff.mp hmap
    obtain ⟨w', hw', hm⟩ := (hp.waiters m h).mp ((ord.hashes.mem_toList _ _).mp hh)
    rw [hw] at hw'
    cases hw'
    exact ⟨w, hp.lookup_hash hw, (hp.mem_missing hw).mp hm, rfl⟩
  · intro hex
    obtain ⟨w, hw, hm, rfl⟩ := hex
    refine ⟨w.transaction.hash, ?_, by rw [hw]; rfl⟩
    exact (ord.hashes.mem_toList _ _).mpr
      ((hp.waiters m _).mpr ⟨w, hw, (hp.mem_missing hw).mpr hm⟩)

theorem unlockedBy_hashes (hp : PendingWf p) :
    (p.unlockedBy ord m).map (·.transaction.hash) = ord.hashes.toList (p.waiters m) := by
  unfold unlockedBy
  rw [List.map_filterMap]
  have hsome : ∀ h ∈ ord.hashes.toList (p.waiters m),
      Option.map (fun w : PendingPoolTransaction => w.transaction.hash)
        ((p.waitingQueue.lookup h).map (·.mark m)) = some h := by
    intro h hh
    obtain ⟨w, hw, -⟩ := (hp.waiters m h).mp ((ord.hashes.mem_toList _ _).mp hh)
    simp [hw, hp.hash h w hw]
  rw [List.filterMap_congr hsome, List.filterMap_some]

theorem unlockedBy_nodup (hp : PendingWf p) :
    ((p.unlockedBy ord m).map (·.transaction.hash)).Nodup := by
  rw [unlockedBy_hashes hp]
  exact ord.hashes.nodup _

/-- What is unlocked misses nothing any more. -/
theorem isReady_of_mem_unlockedBy (hp : PendingWf p) (hu : u ∈ p.unlockedBy ord m) :
    u.isReady = true ∧ NonceMarked u.transaction ∧ m ∈ u.transaction.requires := by
  obtain ⟨w, hw, hm, rfl⟩ := (mem_unlockedBy hp).mp hu
  obtain ⟨m', hreq, hmiss⟩ := hp.missing _ w hw
  rw [hreq, List.mem_singleton] at hm
  subst hm
  exact ⟨isReady_mark hmiss, hp.marked _ w hw, by simp [hreq]⟩

section

variable (hu : Unlocked p m p')
include hu

/-- What is still queued was queued before. -/
theorem Unlocked.of_queue (hw : p'.waitingQueue.lookup h = some w) :
    p.waitingQueue.lookup h = some w := by
  rw [hu.queue] at hw
  exact (Option.ite_none_left_eq_some.mp hw).2

/-- What a marker unlocks leaves the queue. -/
theorem Unlocked.not_waiting (hp : PendingWf p) (hw : p'.waitingQueue.lookup h = some w) :
    m ∉ w.transaction.requires := by
  intro hm
  have hold := hu.of_queue hw
  rw [hu.queue, if_pos ((hp.waiters m h).mpr ⟨w, hold, (hp.mem_missing hold).mpr hm⟩)] at hw
  cases hw

theorem Unlocked.stays (hp : PendingWf p) (hw : p.waitingQueue.lookup h = some w)
    (hm : m ∉ w.transaction.requires) : p'.waitingQueue.lookup h = some w := by
  rw [hu.queue, if_neg]
  · exact hw
  · intro hmem
    obtain ⟨w', hw', hmiss⟩ := (hp.waiters m h).mp hmem
    rw [hw] at hw'
    cases hw'
    exact hm ((hp.mem_missing hw).mp hmiss)

/-- What was queued before is still queued, or unlocked. -/
theorem Unlocked.queue_cases (ord : HashOrder) (hp : PendingWf p)
    (hw : p.waitingQueue.lookup h = some w) :
    p'.waitingQueue.lookup h = some w ∨ w.mark m ∈ p.unlockedBy ord m := by
  by_cases hm : m ∈ w.transaction.requires
  · exact Or.inr ((mem_unlockedBy hp).mpr ⟨w, hp.lookup_hash hw, hm, rfl⟩)
  · exact Or.inl (hu.stays hp hw hm)

/-- Nothing is lost: what leaves the queue is unlocked. -/
theorem Unlocked.card (ord : HashOrder) (hp : PendingWf p) :
    p'.waitingQueue.keys.card + (p.unlockedBy ord m).length = p.waitingQueue.keys.card := by
  have hsub : p.waiters m ⊆ p.waitingQueue.keys := by
    intro h hh
    obtain ⟨w, hw, -⟩ := (hp.waiters m h).mp hh
    exact mem_keys.mpr (mem_iff.mpr ⟨w, hw⟩)
  have hkeys : p'.waitingQueue.keys = p.waitingQueue.keys \ p.waiters m := by
    ext h
    rw [Finset.mem_sdiff, mem_keys, mem_keys, mem_iff, mem_iff, hu.queue]
    split <;> simp [*]
  have hlen : (p.unlockedBy ord m).length = (p.waiters m).card := by
    rw [← ord.hashes.length_toList, ← unlockedBy_hashes hp, List.length_map]
  rw [hkeys, hlen]
  exact Finset.card_sdiff_add_card_eq_card hsub

end

/-! ### Queueing -/

/-- A queued transaction that provides the same markers offers more. -/
def Underpriced (p : PendingTransactions) (tx : PendingPoolTransaction) : Prop :=
  ∃ w, p.replaces tx = some w ∧ tx.transaction.maxFeePerGas < w.transaction.maxFeePerGas

/-- What `PendingTransactions::add_transaction` does when it accepts: the new
transaction is queued next to all that was queued before. -/
structure Queued (p : PendingTransactions) (tx : PendingPoolTransaction)
    (p' : PendingTransactions) : Prop where
  wf : PendingWf p'
  queue : p'.waitingQueue = p.waitingQueue.insert tx.transaction.hash tx
  index : p'.waitingMarkers = p.waitingMarkers.insert tx.transaction.provides tx.transaction.hash
  required : ∀ m, p'.requiredMarkers.lookup m = none ↔
    p.requiredMarkers.lookup m = none ∧ m ∉ tx.transaction.requires

variable {tx : PendingPoolTransaction}

theorem pending_addTransaction_underpriced (ord : HashOrder) (hready : tx.isReady = false)
    (hnew : p.waitingQueue.lookup tx.transaction.hash = none) (hunder : Underpriced p tx) :
    p.addTransaction ord tx = .ok (.error (.replacementUnderpriced tx.transaction), p) := by
  obtain ⟨w, hw, hlt⟩ := hunder
  have hmem : tx.transaction.hash ∉ p.waitingQueue := lookup_eq_none.mp hnew
  simp [addTransaction, hready, hmem, hw, hlt]

theorem pending_addTransaction_spec (hp : PendingWf p)
    (hmarked : NonceMarked tx.transaction) (hreq : tx.transaction.requires = [m])
    (hmiss : tx.missingMarkers = {m}) (hnew : p.waitingQueue.lookup tx.transaction.hash = none)
    (hunder : ¬ Underpriced p tx) :
    ∃ p', p.addTransaction ord tx = .ok (.ok (), p') ∧ Queued p tx p' := by
  have hready : tx.isReady = false := by simp [isReady, hmiss]
  have hmem : tx.transaction.hash ∉ p.waitingQueue := lookup_eq_none.mp hnew
  refine ⟨{ requiredMarkers := require tx.transaction.hash p.requiredMarkers m
            waitingMarkers := p.waitingMarkers.insert tx.transaction.provides tx.transaction.hash
            waitingQueue := p.waitingQueue.insert tx.transaction.hash tx }, ?_, ?_⟩
  · unfold addTransaction
    cases hrep : p.replaces tx with
    | none => simp [hready, hmem, hmiss]
    | some w =>
      have hle : ¬ tx.transaction.maxFeePerGas < w.transaction.maxFeePerGas :=
        fun hlt => hunder ⟨w, hrep, hlt⟩
      simp [hready, hmem, hmiss, hle]
  · have hlook : ∀ m', (require tx.transaction.hash p.requiredMarkers m).lookup
        m' = if m' = m then some (insert tx.transaction.hash (p.waiters m))
          else p.requiredMarkers.lookup m' := by
      intro m'
      rw [require, lookup_insert_ite]
      rfl
    have hall : ∀ h w, (p.waitingQueue.insert tx.transaction.hash tx).lookup h = some w →
        w.transaction.hash = h ∧ NonceMarked w.transaction ∧
          ∃ m, w.transaction.requires = [m] ∧ w.missingMarkers = {m} := by
      intro h w hw
      rw [lookup_insert_ite] at hw
      split at hw
      · cases hw
        exact ⟨Eq.symm ‹_›, hmarked, m, hreq, hmiss⟩
      · exact ⟨hp.hash h w hw, hp.marked h w hw, hp.missing h w hw⟩
    refine ⟨⟨fun h w hw => (hall h w hw).1, fun h w hw => (hall h w hw).2.1,
      fun h w hw => (hall h w hw).2.2, ?_, ?_⟩, rfl, rfl, ?_⟩
    · intro m' h
      rw [PendingTransactions.waiters, hlook, lookup_insert_ite]
      by_cases hh : h = tx.transaction.hash
      · subst hh
        rw [if_pos rfl]
        by_cases hm : m' = m
        · simp [hm, hmiss]
        · have hnot : tx.transaction.hash ∉ p.waiters m' := by
            intro hmem'
            obtain ⟨w, hw, -⟩ := (hp.waiters m' _).mp hmem'
            rw [hnew] at hw
            cases hw
          simp only [Option.some.injEq, exists_eq_left', hmiss, Finset.mem_singleton, hm,
            iff_false]
          exact hnot
      · rw [if_neg hh, ← hp.waiters m' h]
        by_cases hm : m' = m
        · simp [hm, hh]
        · rw [if_neg hm]
          rfl
    · intro m' s hs
      rw [hlook] at hs
      split at hs
      · cases hs
        exact Finset.insert_nonempty _ _
      · exact hp.nonempty m' s hs
    · intro m'
      rw [hlook, hreq, List.mem_singleton]
      by_cases hm : m' = m <;> simp [hm]

/-! ### Removal -/

/-- What `PendingTransactions::remove` does: the named transactions leave. -/
structure Dropped (p : PendingTransactions) (hashes : List TxHash) (txs : List PoolTransaction)
    (p' : PendingTransactions) : Prop where
  wf : PendingWf p'
  queue : ∀ h, p'.waitingQueue.lookup h = if h ∈ hashes then none else p.waitingQueue.lookup h
  index : ∀ ms h, p'.waitingMarkers.lookup ms = some h ↔ p.waitingMarkers.lookup ms = some h ∧
    ∀ h' ∈ hashes, ∀ w, p.waitingQueue.lookup h' = some w → w.transaction.provides ≠ ms
  required : ∀ m, p.requiredMarkers.lookup m = none → p'.requiredMarkers.lookup m = none
  removed : ∀ t, t ∈ txs ↔
    ∃ w, p.waitingQueue.lookup t.hash = some w ∧ t = w.transaction ∧ t.hash ∈ hashes
  nodup : (txs.map (·.hash)).Nodup

/-- What is still queued was queued before. -/
theorem Dropped.of_queue {hashes : List TxHash} {txs : List PoolTransaction}
    (hd : Dropped p hashes txs p') (hw : p'.waitingQueue.lookup h = some w) :
    p.waitingQueue.lookup h = some w := by
  rw [hd.queue] at hw
  exact (Option.ite_none_left_eq_some.mp hw).2

theorem unrequire_lookup {hash : TxHash} {Q : HashMap TxMarker (Finset TxHash)} {m' : TxMarker} :
    (unrequire hash Q m).lookup m' =
      if m' = m then
        (Q.lookup m).bind fun s => if s.erase hash = ∅ then none else some (s.erase hash)
      else Q.lookup m' := by
  unfold unrequire
  cases hlook : Q.lookup m with
  | none =>
    by_cases hm : m' = m
    · subst hm
      simp [hlook]
    · simp [hm]
  | some s =>
    dsimp only
    split
    · rw [lookup_erase_ite]
      simp [*]
    · rw [lookup_insert_ite]
      simp [*]

theorem unrequire_getD {hash : TxHash} {Q : HashMap TxMarker (Finset TxHash)} {m' : TxMarker} :
    ((unrequire hash Q m).lookup m').getD ∅ =
      if m' = m then ((Q.lookup m).getD ∅).erase hash else (Q.lookup m').getD ∅ := by
  rw [unrequire_lookup]
  split
  · cases Q.lookup m with
    | none => simp
    | some s => by_cases hs : s.erase hash = ∅ <;> simp [hs]
  · rfl

theorem removeOne_wf (ord : HashOrder) (hp : PendingWf p) (acc : List PoolTransaction)
    (hw : p.waitingQueue.lookup h = some w) : PendingWf (removeOne ord (acc, p) h).2 := by
  obtain ⟨m, hreq, hmiss⟩ := hp.missing h w hw
  have hone : (removeOne ord (acc, p) h).2 =
      { waitingQueue := p.waitingQueue.erase h
        waitingMarkers := p.waitingMarkers.erase w.transaction.provides
        requiredMarkers := unrequire h p.requiredMarkers m } := by
    simp [removeOne, hw, hmiss]
  rw [hone]
  refine hp.leave (m := m) ?_ (fun _ => lookup_erase_ite _ _ _) ?_ ?_
  · rintro _ w' hw' rfl
    cases hw.symm.trans hw'
    exact hmiss
  · intro m' h'
    rw [PendingTransactions.waiters, unrequire_getD, PendingTransactions.waiters]
    by_cases hm : m' = m
    · subst hm
      simp [and_comm]
    · simp [hm]
  · intro m' s hs
    rw [unrequire_lookup] at hs
    split at hs
    · obtain ⟨s', -, hs'⟩ := Option.bind_eq_some_iff.mp hs
      obtain ⟨hne, ⟨⟩⟩ := Option.ite_none_left_eq_some.mp hs'
      exact Finset.nonempty_iff_ne_empty.mpr hne
    · exact hp.nonempty m' s hs

theorem removeOne_none {acc : List PoolTransaction} (hw : p.waitingQueue.lookup h = none) :
    removeOne ord (acc, p) h = (acc, p) := by
  simp [removeOne, hw]

/-- The loop of `PendingTransactions::remove`, from any accumulator. -/
theorem foldl_removeOne :
    ∀ (hashes : List TxHash) (acc : List PoolTransaction) (p : PendingTransactions), PendingWf p →
      ∃ txs p', hashes.foldl (removeOne ord) (acc, p) = (acc ++ txs, p') ∧
        Dropped p hashes txs p' := by
  intro hashes
  induction hashes with
  | nil =>
    intro acc p hp
    exact ⟨[], p, by simp, hp, by simp, by simp, fun _ h => h, by simp, by simp⟩
  | cons x rest ih =>
    intro acc p hp
    cases hx : p.waitingQueue.lookup x with
    | none =>
      obtain ⟨txs, p', hrun, hd⟩ := ih acc p hp
      have htaken := Taken.skip hx ⟨hd.queue, hd.index⟩
      refine ⟨txs, p', by rw [List.foldl_cons, removeOne_none hx, hrun], hd.wf, htaken.queue,
        htaken.index, hd.required, fun t => ?_, hd.nodup⟩
      rw [hd.removed]
      constructor
      · rintro ⟨w, hw, ht, hmem⟩
        exact ⟨w, hw, ht, List.mem_cons_of_mem x hmem⟩
      · rintro ⟨w, hw, ht, hmem⟩
        rcases List.mem_cons.mp hmem with heq | hmem
        · rw [heq, hx] at hw
          cases hw
        · exact ⟨w, hw, ht, hmem⟩
    | some w =>
      obtain ⟨m, hreq, hmiss⟩ := hp.missing x w hx
      have hhash := hp.hash x w hx
      have hone : removeOne ord (acc, p) x = (acc ++ [w.transaction],
          { waitingQueue := p.waitingQueue.erase x
            waitingMarkers := p.waitingMarkers.erase w.transaction.provides
            requiredMarkers := unrequire x p.requiredMarkers m }) := by
        simp [removeOne, hx, hmiss]
      have hwf := removeOne_wf ord hp acc hx
      rw [hone] at hwf
      obtain ⟨txs, p', hrun, hd⟩ := ih (acc ++ [w.transaction]) _ hwf
      have htaken := Taken.cons hx rfl rfl ⟨hd.queue, hd.index⟩
      -- a transaction removed later was queued, and is not the one removed now
      have hlater : ∀ t, t ∈ txs ↔ ∃ w', p.waitingQueue.lookup t.hash = some w' ∧
          t = w'.transaction ∧ t.hash ∈ rest ∧ t.hash ≠ x := by
        intro t
        rw [hd.removed, lookup_erase_ite]
        by_cases hh : t.hash = x <;> simp [hh]
      refine ⟨w.transaction :: txs, p', ?_, hd.wf, htaken.queue, htaken.index, ?_, ?_, ?_⟩
      · rw [List.foldl_cons, hone, hrun, List.append_assoc, List.singleton_append]
      · intro m' hnone
        refine hd.required m' ?_
        change (unrequire x p.requiredMarkers m).lookup m' = none
        rw [unrequire_lookup]
        split
        · rename_i hm
          subst hm
          rw [hnone]
          rfl
        · exact hnone
      · intro t
        rw [List.mem_cons, hlater]
        constructor
        · intro hor
          rcases hor with rfl | ⟨w', hw', ht, hmem, -⟩
          · exact ⟨w, by rw [hhash]; exact hx, rfl, by rw [hhash]; exact List.mem_cons_self⟩
          · exact ⟨w', hw', ht, List.mem_cons_of_mem x hmem⟩
        · intro hex
          obtain ⟨w', hw', ht, hmem⟩ := hex
          by_cases hh : t.hash = x
          · rw [hh, hx] at hw'
            cases hw'
            exact Or.inl ht
          · rcases List.mem_cons.mp hmem with heq | hmem
            · exact absurd heq hh
            · exact Or.inr ⟨w', hw', ht, hmem, hh⟩
      · rw [List.map_cons, List.nodup_cons]
        refine ⟨?_, hd.nodup⟩
        intro hmem
        obtain ⟨t, ht, heq⟩ := List.mem_map.mp hmem
        obtain ⟨-, -, -, -, hne⟩ := (hlater t).mp ht
        exact hne (heq.trans hhash)

theorem pending_remove_spec (ord : HashOrder) (hp : PendingWf p) (hashes : List TxHash) :
    Dropped p hashes (p.remove ord hashes).1 (p.remove ord hashes).2 := by
  obtain ⟨txs, p', hrun, hd⟩ := foldl_removeOne hashes [] p hp
  rw [remove, hrun]
  exact hd

end BaseAnvil.Pool

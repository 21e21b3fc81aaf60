import BaseAnvil.Pool.Inner
import BaseAnvil.Pool.PendingInv
import BaseAnvil.Pool.ReadyAdd
import BaseAnvil.Pool.ReadyPrune

/-!
# BaseAnvil.Pool.Inv

The invariant that ties the two halves of the pool together, and the promotion
cascade.

`add_ready_transaction` works on a queue of transactions that have left the
waiting half and are not in the ready half yet (`Loose`). `prune_markers` holds
such a list too, and runs one cascade for each of its elements. Both are runs of
`AbsorbStep`, which takes *any* loose transaction and tries to insert it: what
every such step keeps, every cascade and every prune keeps.
-/

namespace BaseAnvil.Pool

open Lib

structure PoolInv (s : PoolInner) : Prop where
  ready : ReadyWf s.readyTransactions
  pending : PendingWf s.pendingTransactions
  /-- No transaction is in both halves. -/
  disjoint : ∀ h t w, s.readyTransactions.readyTx.lookup h = some t →
    s.pendingTransactions.waitingQueue.lookup h = some w → False
  /-- No marker is both provided and waited for. -/
  apart : ∀ m h, s.readyTransactions.providedMarkers.lookup m = some h →
    s.pendingTransactions.requiredMarkers.lookup m = none

/-- Transactions on their way from the waiting half to the ready half. -/
structure Loose (s : PoolInner) (L : List PendingPoolTransaction) : Prop where
  isReady : ∀ u ∈ L, u.isReady = true
  marked : ∀ u ∈ L, NonceMarked u.transaction
  nodup : (L.map (·.transaction.hash)).Nodup
  notReady : ∀ u ∈ L, s.readyTransactions.readyTx.lookup u.transaction.hash = none
  notQueued : ∀ u ∈ L, s.pendingTransactions.waitingQueue.lookup u.transaction.hash = none

section

variable {s : PoolInner} {L L' : List PendingPoolTransaction} (hl : Loose s L)
include hl

theorem Loose.of_subperm (hp : L'.Subperm L) : Loose s L' where
  isReady u hu := hl.isReady u (hp.subset hu)
  marked u hu := hl.marked u (hp.subset hu)
  nodup := by
    obtain ⟨M, hperm, hsub⟩ := hp
    exact (hperm.map _).nodup_iff.mp (hl.nodup.sublist (hsub.map _))
  notReady u hu := hl.notReady u (hp.subset hu)
  notQueued u hu := hl.notQueued u (hp.subset hu)

theorem Loose.perm (hp : L.Perm L') : Loose s L' :=
  hl.of_subperm hp.symm.subperm

end

theorem loose_nil (s : PoolInner) : Loose s [] := by
  refine ⟨?_, ?_, List.nodup_nil, ?_, ?_⟩ <;> intro u hu <;> cases hu

/-! ### One attempt -/

/-- A pool, and the loose transactions still to be inserted. -/
abbrev Config := PoolInner × List PendingPoolTransaction

/-- What came of one attempt to insert a transaction. -/
inductive Event
  /-- It went in, replacing the transactions given. -/
  | entered (tx : PoolTransaction) (replaced : List PoolTransaction)
  /-- It was underpriced. -/
  | refused (tx : PoolTransaction)

/-- One round of the cascade, on any of the loose transactions. -/
inductive AbsorbStep (ord : HashOrder) : Config → Event → Config → Prop
  | enter {s : PoolInner} {L L' rest : List PendingPoolTransaction} {u : PendingPoolTransaction}
      {r : ReadyTransactions} {p : PendingTransactions} :
      L.Perm (u :: rest) →
      (∀ o, s.readyTransactions.provider u.transaction.slot = some o →
        o.tx.maxFeePerGas < u.transaction.maxFeePerGas) →
      Inserted s.readyTransactions u.transaction r →
      Unlocked s.pendingTransactions u.transaction.slot p →
      L'.Perm (rest ++ s.pendingTransactions.unlockedBy ord u.transaction.slot) →
      AbsorbStep ord (s, L)
        (.entered u.transaction
          ((s.readyTransactions.provider u.transaction.slot).toList.map (·.tx)))
        (⟨r, p⟩, L')
  | refuse {s : PoolInner} {L L' rest : List PendingPoolTransaction} {u : PendingPoolTransaction}
      {o : ReadyTransaction} :
      L.Perm (u :: rest) →
      s.readyTransactions.provider u.transaction.slot = some o →
      u.transaction.maxFeePerGas ≤ o.tx.maxFeePerGas →
      L'.Perm rest →
      AbsorbStep ord (s, L) (.refused u.transaction) (s, L')

/-- Any number of attempts. -/
abbrev Absorb (ord : HashOrder) (c : Config) (evs : List Event) (c' : Config) : Prop :=
  Run (AbsorbStep ord) c evs c'

/-- The round as the code takes it: the first of the loose transactions is tried,
and what it unlocks comes after `L`, before those that stand by. -/
inductive CascadeStep (ord : HashOrder) : Config → Event → Config → Prop
  | enter {s : PoolInner} {u : PendingPoolTransaction} {L M : List PendingPoolTransaction}
      {r : ReadyTransactions} {p : PendingTransactions} :
      (∀ o, s.readyTransactions.provider u.transaction.slot = some o →
        o.tx.maxFeePerGas < u.transaction.maxFeePerGas) →
      Inserted s.readyTransactions u.transaction r →
      Unlocked s.pendingTransactions u.transaction.slot p →
      CascadeStep ord (s, u :: (L ++ M))
        (.entered u.transaction
          ((s.readyTransactions.provider u.transaction.slot).toList.map (·.tx)))
        (⟨r, p⟩, (L ++ s.pendingTransactions.unlockedBy ord u.transaction.slot) ++ M)
  | refuse {s : PoolInner} {u : PendingPoolTransaction} {L : List PendingPoolTransaction}
      {o : ReadyTransaction} :
      s.readyTransactions.provider u.transaction.slot = some o →
      u.transaction.maxFeePerGas ≤ o.tx.maxFeePerGas →
      CascadeStep ord (s, u :: L) (.refused u.transaction) (s, L)

variable {ord : HashOrder}

/-- The order of the loose transactions forgotten. -/
theorem CascadeStep.absorb {c c' : Config} {e : Event} (h : CascadeStep ord c e c') :
    AbsorbStep ord c e c' := by
  cases h with
  | enter hfee hins hunl =>
    refine .enter (List.Perm.refl _) hfee hins hunl ?_
    rw [List.append_assoc, List.append_assoc]
    exact List.Perm.append_left _ List.perm_append_comm
  | refuse ho hfee => exact .refuse (List.Perm.refl _) ho hfee (List.Perm.refl _)

/-- Any number of rounds. -/
abbrev Cascade (ord : HashOrder) (c : Config) (evs : List Event) (c' : Config) : Prop :=
  Run (CascadeStep ord) c evs c'

theorem Cascade.absorb {c c' : Config} {evs : List Event} (h : Cascade ord c evs c') :
    Absorb ord c evs c' :=
  h.mono fun _ _ _ hs => hs.absorb

structure ConfigInv (c : Config) : Prop where
  pool : PoolInv c.1
  loose : Loose c.1 c.2

namespace ConfigInv

variable {s : PoolInner} {L : List PendingPoolTransaction}

theorem perm {L' : List PendingPoolTransaction} (hc : ConfigInv (s, L)) (hp : L.Perm L') :
    ConfigInv (s, L') :=
  ⟨hc.pool, hc.loose.perm hp⟩

/-- Checking a marker off moves transactions from the queue to the loose ones. -/
theorem unlock {m : TxMarker} {p : PendingTransactions} (hc : ConfigInv (s, L))
    (hunl : Unlocked s.pendingTransactions m p) :
    ConfigInv (⟨s.readyTransactions, p⟩, L ++ s.pendingTransactions.unlockedBy ord m) := by
  obtain ⟨hinv, hl⟩ := hc
  have hfrom : ∀ x ∈ s.pendingTransactions.unlockedBy ord m,
      ∃ w, s.pendingTransactions.waitingQueue.lookup x.transaction.hash = some w ∧
        m ∈ w.transaction.requires := by
    intro x hx
    obtain ⟨w, hw, hmem, rfl⟩ := (mem_unlockedBy hinv.pending).mp hx
    exact ⟨w, hw, hmem⟩
  refine ⟨⟨hinv.ready, hunl.wf, ?_, ?_⟩, ?_, ?_, ?_, ?_, ?_⟩
  · intro h t w ht hw
    exact hinv.disjoint h t w ht (hunl.of_queue hw)
  · intro m' h hm
    rw [hunl.required, HashMap.lookup_erase_ite, hinv.apart m' h hm, ite_self]
  · intro x hx
    rcases List.mem_append.mp hx with hx | hx
    · exact hl.isReady x hx
    · exact (isReady_of_mem_unlockedBy hinv.pending hx).1
  · intro x hx
    rcases List.mem_append.mp hx with hx | hx
    · exact hl.marked x hx
    · exact (isReady_of_mem_unlockedBy hinv.pending hx).2.1
  · rw [List.map_append, List.nodup_append]
    refine ⟨hl.nodup, unlockedBy_nodup hinv.pending, ?_⟩
    intro a ha b hb hab
    obtain ⟨x, hx, rfl⟩ := List.mem_map.mp ha
    obtain ⟨y, hy, rfl⟩ := List.mem_map.mp hb
    obtain ⟨w, hw, -⟩ := hfrom y hy
    have hnone := hl.notQueued x hx
    rw [hab, hw] at hnone
    cases hnone
  · intro x hx
    rcases List.mem_append.mp hx with hx | hx
    · exact hl.notReady x hx
    · obtain ⟨w, hw, -⟩ := hfrom x hx
      cases ht : s.readyTransactions.readyTx.lookup x.transaction.hash with
      | none => rfl
      | some t => exact (hinv.disjoint _ t w ht hw).elim
  · intro x hx
    show p.waitingQueue.lookup _ = none
    rw [hunl.queue]
    rcases List.mem_append.mp hx with hx | hx
    · rw [hl.notQueued x hx, ite_self]
    · obtain ⟨w, hw, hmem⟩ := hfrom x hx
      rw [if_pos ((hinv.pending.waiters _ _).mpr ⟨w, hw, (hinv.pending.mem_missing hw).mpr hmem⟩)]

/-- A loose transaction goes in, once nobody waits for its marker any more. -/
theorem insert {u : PendingPoolTransaction} {r : ReadyTransactions} (hc : ConfigInv (s, u :: L))
    (hins : Inserted s.readyTransactions u.transaction r)
    (hnone : s.pendingTransactions.requiredMarkers.lookup u.transaction.slot = none) :
    ConfigInv (⟨r, s.pendingTransactions⟩, L) := by
  obtain ⟨hinv, hl⟩ := hc
  have hrest := hl.of_subperm (List.sublist_cons_self _ _).subperm
  refine ⟨⟨hins.wf hinv.ready (hl.marked u List.mem_cons_self), hinv.pending, ?_, ?_⟩,
    hrest.isReady, hrest.marked, hrest.nodup, ?_, hrest.notQueued⟩
  · intro h t w ht hw
    rcases hins.of_some ht with ⟨rfl, -⟩ | ⟨t₀, -, ht₀, -⟩
    · have hnone := hl.notQueued u List.mem_cons_self
      rw [hw] at hnone
      cases hnone
    · exact hinv.disjoint h t₀ w ht₀ hw
  · intro m h hm
    rw [hins.provided] at hm
    split at hm
    · rename_i heq
      rw [heq]
      exact hnone
    · exact hinv.apart m h hm
  · intro x hx
    refine hins.fresh _ ?_ (hrest.notReady x hx)
    intro heq
    exact (List.nodup_cons.mp hl.nodup).1 (List.mem_map.mpr ⟨x, hx, heq⟩)

/-- Entries and markers are taken away from the ready half. -/
theorem shrink {r : ReadyTransactions} (hc : ConfigInv (s, L)) (hwf : ReadyWf r)
    (hsh : Shrunk s.readyTransactions r) : ConfigInv (⟨r, s.pendingTransactions⟩, L) := by
  obtain ⟨hinv, hl⟩ := hc
  refine ⟨⟨hwf, hinv.pending, ?_, ?_⟩, hl.isReady, hl.marked, hl.nodup, ?_, hl.notQueued⟩
  · intro h t w ht hw
    obtain ⟨t₀, ht₀, -⟩ := hsh.ready h t ht
    exact hinv.disjoint h t₀ w ht₀ hw
  · intro m h hm
    exact hinv.apart m h (hsh.provided m h hm)
  · intro x hx
    exact hsh.ready_none (hl.notReady x hx)

end ConfigInv

theorem ConfigInv.step {c c' : Config} {e : Event} (hc : ConfigInv c) (hs : AbsorbStep ord c e c') :
    ConfigInv c' := by
  cases hs with
  | @enter s L L' rest u r p hperm _ hins hunl hperm' =>
    have hunlocked : ConfigInv (⟨s.readyTransactions, p⟩,
        (u :: rest) ++ s.pendingTransactions.unlockedBy ord u.transaction.slot) :=
      (hc.perm hperm).unlock hunl
    have hnone : p.requiredMarkers.lookup u.transaction.slot = none := by
      rw [hunl.required, Finmap.lookup_erase]
    exact (hunlocked.insert hins hnone).perm hperm'.symm
  | refuse hperm _ _ hperm' =>
    have hl := (hc.loose.perm hperm).of_subperm (List.sublist_cons_self _ _).subperm
    exact ⟨hc.pool, hl.perm hperm'.symm⟩

section

variable {c c' : Config} {evs : List Event} (hc : ConfigInv c)
include hc

theorem ConfigInv.absorb (hr : Absorb ord c evs c') : ConfigInv c' :=
  hr.keeps hc ConfigInv.step

theorem ConfigInv.absorb_keeps {J : Config → Prop}
    (hstep : ∀ {c e c'}, ConfigInv c → J c → AbsorbStep ord c e c' → J c') (hJ : J c)
    (hr : Absorb ord c evs c') : J c' :=
  (hr.keeps (I := fun c => ConfigInv c ∧ J c) ⟨hc, hJ⟩
    fun hi hs => ⟨hi.1.step hs, hstep hi.1 hi.2 hs⟩).2

end

end BaseAnvil.Pool

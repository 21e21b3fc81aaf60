import BaseAnvil.Pool.Pruned
import BaseAnvil.Pool.Served

/-!
# BaseAnvil.Pool.Prune

What `prune_markers` does to the pool when a block was mined.

The first loop takes the pruned transactions out and collects what the markers
unlock (`Unloaded`); the second promotes these with everything they wake in turn
(`Served`). Put together, the pruned transactions, the ready ones and the queue are
each described by the pool before and the set of the markers (`Mined`), whatever
their order.
-/

namespace BaseAnvil.Pool

open Lib PoolInner

/-! ### The first loop -/

/-- The state of the first loop from the pool `s`, with the markers of `labels` done. -/
structure Unloaded (ord : HashOrder) (s : PoolInner) (ms : List TxMarker)
    (labels : List (TxMarker × List PoolTransaction)) (c : Config) : Prop
    extends Fed s.pendingTransactions (Woken s.pendingTransactions ms) c where
  arranged : Arranged ord s.pendingTransactions (c.2.map (·.transaction)) c.1.pendingTransactions
  closed : ∀ m ∈ labels.map (·.1), ∀ h w,
    c.1.pendingTransactions.waitingQueue.lookup h = some w → m ∉ w.transaction.requires
  stays : ∀ h w, s.pendingTransactions.waitingQueue.lookup h = some w →
    ¬ Woken s.pendingTransactions ms w.transaction →
    c.1.pendingTransactions.waitingQueue.lookup h = some w
  prune : PruneInv s.readyTransactions ms [] c.1.readyTransactions
  vacant : ∀ m ∈ labels.map (·.1), c.1.readyTransactions.providedMarkers.lookup m = none
  pruned : ∀ x, x ∈ labels.flatMap (·.2) ↔ s.HasReady x ∧
    c.1.readyTransactions.readyTx.lookup x.hash = none

variable {ord : HashOrder} {s : PoolInner} {ms : List TxMarker}
  {labels : List (TxMarker × List PoolTransaction)}

namespace Unloaded

variable {c c' : Config}

/-- What is still ready was ready. -/
theorem hasReady_iff (hu : Unloaded ord s ms labels c) {x : PoolTransaction} : c.1.HasReady x ↔
    s.HasReady x ∧ c.1.readyTransactions.readyTx.lookup x.hash ≠ none := by
  constructor
  · rintro ⟨t, ht, htx⟩
    obtain ⟨t₀, ht₀, htx₀⟩ := hu.prune.kept _ t ht
    exact ⟨⟨t₀, ht₀, htx₀.trans htx⟩, by simp [ht]⟩
  · rintro ⟨⟨t₀, ht₀, htx₀⟩, hne⟩
    obtain ⟨t, ht⟩ := Option.ne_none_iff_exists'.mp hne
    exact ⟨t, ht, (hu.prune.tx_eq ht₀ ht).symm.trans htx₀⟩

section

variable (hs : PoolInv s)
include hs

theorem start (ms : List TxMarker) : Unloaded ord s ms [] (s, []) where
  toFed := fed_nil hs _
  arranged := arranged_nil
  closed m hm := absurd hm List.not_mem_nil
  stays h w hw _ := hw
  prune := .start _ _
  vacant m hm := absurd hm List.not_mem_nil
  pruned x := by
    constructor
    · exact fun hx => absurd hx List.not_mem_nil
    · intro hand
      obtain ⟨⟨t, ht, -⟩, hnone⟩ := hand
      rw [ht] at hnone
      cases hnone

theorem step {l : TxMarker × List PoolTransaction} (hl : l.1 ∈ ms) (hu : Unloaded ord s ms labels c)
    (h : PruneStep ord c l c') : Unloaded ord s ms (labels ++ [l]) c' := by
  have hwake : ∀ h w, s.pendingTransactions.waitingQueue.lookup h = some w →
      l.1 ∈ w.transaction.requires → Woken s.pendingTransactions ms w.transaction :=
    fun _ _ hw hm => .direct hw hm hl
  have hfed := hu.toFed.pruneStep hwake h
  cases h with
  | @mk s₁ L m txs r p hunl hrun hwf =>
    have hpend := hu.inv.pool.pending
    have hready := hu.inv.pool.ready
    refine ⟨hfed, ?_, ?_, ?_, ?_, ?_, ?_⟩
    · have harr := Arranged.unlock (X := L.map (·.transaction)) (Y := []) hs.pending hpend hu.queue
        (by simpa using hu.arranged) hunl
      simpa [rivals] using harr
    · intro m' hm' h w hw
      rw [List.map_append, List.mem_append] at hm'
      rcases hm' with hm' | hm'
      · exact hu.closed m' hm' h w (hunl.of_queue hw)
      · rw [show m' = m from List.mem_singleton.mp hm']
        exact hunl.not_waiting hpend hw
    · intro h w hw hnot
      exact hunl.stays hpend (hu.stays h w hw hnot) fun hfol => hnot (hwake h w hw hfol)
    · exact hrun.pruneInv hs.ready.toReadyCore hready.toReadyCore (hu.prune.push hl)
    · intro m' hm'
      rw [List.map_append, List.mem_append] at hm'
      rcases hm' with hm' | hm'
      · exact (hrun.shrunk hready).provided_none (hu.vacant m' hm')
      · rw [show m' = m from List.mem_singleton.mp hm']
        exact hrun.provided_none hready m List.mem_cons_self
    · intro x
      rw [List.flatMap_append, List.mem_append, hu.pruned, List.flatMap_singleton,
        hrun.mem_iff hready]
      constructor
      · intro hor
        rcases hor with ⟨hx, hnone⟩ | ⟨t, ht, htx, hnone⟩
        · exact ⟨hx, (hrun.shrunk hready).ready_none hnone⟩
        · exact ⟨(hu.hasReady_iff.mp ⟨t, ht, htx⟩).1, hnone⟩
      · intro hand
        by_cases hlook : s₁.readyTransactions.readyTx.lookup x.hash = none
        · exact Or.inl ⟨hand.1, hlook⟩
        · obtain ⟨t, ht, htx⟩ := hu.hasReady_iff.mpr ⟨hand.1, hlook⟩
          exact Or.inr ⟨t, ht, htx, hand.2⟩

theorem run (hrun : Run (PruneStep ord) (s, []) labels c) (hlabels : labels.map (·.1) = ms) :
    Unloaded ord s ms labels c := by
  refine hrun.invariant_mem (I := fun labels c => Unloaded ord s ms labels c) (start hs ms) ?_
  intro labels' c l c' hl hu hstep
  refine hu.step hs ?_ hstep
  rw [← hlabels]
  exact List.mem_map_of_mem hl

/-- Exactly the pruned transactions are gone. -/
theorem mem_pruned (hu : Unloaded ord s ms labels c) (hlabels : labels.map (·.1) = ms)
    (x : PoolTransaction) : x ∈ labels.flatMap (·.2) ↔ Pruned s.readyTransactions ms x := by
  have hgone : ∀ {y t}, s.readyTransactions.readyTx.lookup y = some t →
      (c.1.readyTransactions.readyTx.lookup y = none ↔ Pruned s.readyTransactions ms t.tx) := by
    intro y t ht
    refine hu.prune.gone_iff hs.ready.toReadyCore hu.inv.pool.ready.toReadyCore ?_ ht
    rw [← hlabels]
    exact hu.vacant
  rw [hu.pruned]
  constructor
  · intro hand
    obtain ⟨⟨t, ht, rfl⟩, hnone⟩ := hand
    exact (hgone ht).mp hnone
  · intro hp
    have hx : s.HasReady x := by
      cases hp with
      | direct ht _ => exact hs.hasReady ht
      | back _ _ hp _ _ => exact hs.hasReady hp
    obtain ⟨t, ht, rfl⟩ := hx
    exact ⟨⟨t, ht, rfl⟩, (hgone ht).mpr hp⟩

/-- The slots are held by those that were ready and not pruned. -/
theorem holder_iff (hu : Unloaded ord s ms labels c) (hlabels : labels.map (·.1) = ms)
    (m : TxMarker) (x : PoolTransaction) :
    c.1.readyTransactions.holder m = some x ↔
      s.HasReady x ∧ ¬ Pruned s.readyTransactions ms x ∧ x.slot = m := by
  rw [holder_eq_some hu.inv.pool.ready.toReadyCore, ← hu.mem_pruned hs hlabels, hu.pruned]
  have hready : (∃ t, c.1.readyTransactions.readyTx.lookup x.hash = some t ∧ t.tx = x) ↔ _ :=
    hu.hasReady_iff
  rw [hready]
  tauto

end

/-- The second loop starts with what the first left. -/
theorem served (hu : Unloaded ord s ms labels c) (hlabels : labels.map (·.1) = ms) :
    Served ord s.pendingTransactions ms c.1.readyTransactions.holder [] c where
  toFed := hu.toFed
  woken x hx := absurd hx List.not_mem_nil
  arranged := hu.arranged
  closed q hq := by
    rcases hq with hq | ⟨x, hx, -⟩
    · exact hu.closed q (by rw [hlabels]; exact hq)
    · exact absurd hx List.not_mem_nil
  stays := hu.stays
  holder _ := rfl

end Unloaded

/-! ### Both loops -/

/-- The two loops and what they report. -/
theorem pruneMarkers_served (hs : PoolInv s) :
    ∃ labels imports s₁ evs s' promoted failed,
      s.pruneMarkers ord ms = .ok ({ promoted, failed, pruned := labels.flatMap (·.2) }, s') ∧
      labels.map (·.1) = ms ∧ Unloaded ord s ms labels (s₁, imports) ∧
      Served ord s.pendingTransactions ms s₁.readyTransactions.holder evs (s', []) ∧
      Accounted (s₁, imports) evs (s', []) ∧ Reported evs promoted failed := by
  obtain ⟨labels, imports, s₁, evs, s', promoted, failed, heq, hlabels, hphase, hrun, hrep⟩ :=
    pruneMarkers_spec hs ms
  have hu := Unloaded.run hs hphase hlabels
  exact ⟨labels, imports, s₁, evs, s', promoted, failed, heq, hlabels, hu,
    (hu.served hlabels).cascade hs.pending hrun, .of_absorb hu.inv hrun.absorb, hrep⟩

variable {x : PoolTransaction} {ms' : List TxMarker}

theorem Woken.mono {p : PendingTransactions} (hsub : ∀ m ∈ ms, m ∈ ms') (h : Woken p ms x) :
    Woken p ms' x := by
  induction h with
  | direct hw hreq hm => exact .direct hw hreq (hsub _ hm)
  | chain _ hw hfol ih => exact .chain ih hw hfol

variable {p₀ : PendingTransactions}

/-- The bidders for the slot of a woken transaction are its rivals, in their order. -/
theorem Served.bidders_eq_rivals {start : TxMarker → Option PoolTransaction} {evs : List Event}
    (hp₀ : PendingWf p₀) (hs : Served ord p₀ ms start evs (s, [])) (hx : Woken p₀ ms x)
    {q : TxMarker} (hq : q ∈ x.requires) : bidders x.slot (tried evs) = rivals ord p₀ q := by
  have hmarked : ∀ {y}, Woken p₀ ms y → NonceMarked y ∧ y.requires ≠ [] := by
    intro y hy
    obtain ⟨h, w, hw, rfl⟩ := hy.queued
    obtain ⟨m, hreq, -⟩ := hp₀.missing h w hw
    exact ⟨hp₀.marked h w hw, by rw [hreq]; exact List.cons_ne_nil _ _⟩
  have hsame : bidders x.slot (tried evs) = waitingFor q (tried evs) := by
    refine List.filter_congr fun y hy => ?_
    obtain ⟨hym, hyreq⟩ := hmarked (hs.woken y hy)
    refine decide_eq_decide.mpr ⟨fun hslot => ?_, fun hqy => ?_⟩
    · rcases (hmarked hx).1.requires_of_slot_eq hym hslot.symm hq with hnil | hone
      · exact absurd hnil hyreq
      · rw [hone]
        exact List.mem_cons_self
    · exact hym.slot_eq_of_mem_requires (hmarked hx).1 hqy hq
  rw [hsame]
  have harr := hs.arranged q
  rw [List.map_nil, List.append_nil] at harr
  rcases harr with hawake | hasleep
  · exact hawake.order
  · have hmem := mem_waitingFor.mpr ⟨(hs.mem_tried_iff hp₀).mpr hx, hq⟩
    rw [hasleep.none] at hmem
    exact absurd hmem List.not_mem_nil

/-- Who bids for a slot, and in which order, only depends on who was woken. -/
theorem Served.bidders_congr {start start' : TxMarker → Option PoolTransaction}
    {evs evs' : List Event} {s' : PoolInner} (hp₀ : PendingWf p₀)
    (hs : Served ord p₀ ms start evs (s, [])) (hs' : Served ord p₀ ms' start' evs' (s', []))
    (hw : ∀ x, Woken p₀ ms x ↔ Woken p₀ ms' x) (m : TxMarker) :
    bidders m (tried evs) = bidders m (tried evs') := by
  by_cases hex : ∃ x, Woken p₀ ms x ∧ x.slot = m
  · obtain ⟨x, hx, rfl⟩ := hex
    obtain ⟨h, w, hlook, rfl⟩ := hx.queued
    obtain ⟨q, hq⟩ := hp₀.exists_requires hlook
    rw [hs.bidders_eq_rivals hp₀ hx hq, hs'.bidders_eq_rivals hp₀ ((hw _).mp hx) hq]
  · have hnil : ∀ {X}, (∀ x ∈ X, Woken p₀ ms x) → bidders m X = [] := fun hX =>
      List.filter_eq_nil_iff.mpr fun x hx hslot => hex ⟨x, hX x hx, of_decide_eq_true hslot⟩
    rw [hnil hs.woken, hnil fun x hx => (hw x).mpr (hs'.woken x hx)]

/-! ### What the prune of a block keeps -/

/-- Ready transactions lead from `x` to `y`, each requiring what the one before
provides. -/
inductive LeadsTo (s : PoolInner) : PoolTransaction → PoolTransaction → Prop
  | next {x y : PoolTransaction} : s.HasReady y → y.Follows x → LeadsTo s x y
  | chain {x y z : PoolTransaction} : LeadsTo s x y → s.HasReady z → z.Follows y → LeadsTo s x z

/-- `x` made room for a promoted transaction. -/
def PruneResult.Replaces (res : PruneResult) (x : PoolTransaction) : Prop :=
  ∃ r, .ready r ∈ res.promoted ∧ x ∈ r.removed

/-- `x` is reported as not promoted, or as replaced after all. -/
def PruneResult.Reports (res : PruneResult) (x : PoolTransaction) : Prop :=
  x.hash ∈ res.failed ∨ (∃ r, .ready r ∈ res.promoted ∧ x.hash ∈ r.discarded) ∨ res.Replaces x

/-- What `prune_markers` makes of the pool `s`. -/
structure Mined (s : PoolInner) (ms : List TxMarker) (res : PruneResult) (s' : PoolInner) :
    Prop where
  pruned : ∀ x, s.HasReady x → (∃ m ∈ ms, m ∈ x.provides) → x ∈ res.pruned ∧ ¬ s'.Holds x
  kept : ∀ x, s.HasReady x → (∀ m ∈ ms, m ∉ x.provides) → (∀ y ∈ res.pruned, ¬ LeadsTo s x y) →
    s'.HasReady x ∨ res.Replaces x
  unlocked : ∀ h w, s.pendingTransactions.waitingQueue.lookup h = some w →
    (∀ m ∈ w.missingMarkers, m ∈ ms) → s'.HasReady w.transaction ∨ res.Reports w.transaction
  /-- So it is with those that a promoted transaction wakes. -/
  woken : ∀ x, Woken s.pendingTransactions ms x → s'.HasReady x ∨ res.Reports x
  queued : ∀ h w, s.pendingTransactions.waitingQueue.lookup h = some w →
    ¬ Woken s.pendingTransactions ms w.transaction →
    s'.pendingTransactions.waitingQueue.lookup h = some w

/-- The same pool transactions, pruned, ready and queued. -/
structure SameOutcome (res : PruneResult) (s : PoolInner) (res' : PruneResult) (s' : PoolInner) :
    Prop where
  pruned : ∀ x, x ∈ res.pruned ↔ x ∈ res'.pruned
  ready : ∀ x, s.HasReady x ↔ s'.HasReady x
  queued : ∀ x, s.HasQueued x ↔ s'.HasQueued x

section

variable {s₁ s' : PoolInner} {imports : List PendingPoolTransaction} {evs : List Event}
  {promoted : List AddedTransaction} {failed : List TxHash}

section

/-- A ready transaction was not waiting before. -/
theorem not_hasQueued_of_hasReady (hs : PoolInv s) (hx : s.HasReady x)
    {w : PendingPoolTransaction} : s.pendingTransactions.waitingQueue.lookup x.hash ≠ some w := by
  intro hw
  obtain ⟨t, ht, -⟩ := hx
  exact hs.disjoint _ t w ht hw

/-- What the first loop leaves or collects is replaced, refused or in the pool. -/
theorem Accounted.holds_or (ha : Accounted (s₁, imports) evs (s', []))
    (hx : Config.Holds (s₁, imports) x) :
    s'.Holds x ∨ x ∈ replacedTxs evs ∨ x.hash ∈ refusedHashes evs := by
  by_cases hrep : x ∈ replacedTxs evs
  · exact Or.inr (Or.inl hrep)
  · by_cases href : x.hash ∈ refusedHashes evs
    · exact Or.inr (Or.inr href)
    · rcases (ha.holds x).mpr ⟨hx, hrep, href⟩ with hin | ⟨u, hu, -⟩
      · exact Or.inl hin
      · exact absurd hu List.not_mem_nil

theorem Unloaded.not_holds (hs : PoolInv s) (hu : Unloaded ord s ms labels (s₁, imports))
    (hx : x ∈ labels.flatMap (·.2)) : ¬ Config.Holds (s₁, imports) x := by
  obtain ⟨hready, hnone⟩ := (hu.pruned x).mp hx
  intro hin
  rcases hin with (⟨t, ht, -⟩ | ⟨w, hw, -⟩) | ⟨u, hmem, rfl⟩
  · rw [hnone] at ht
    cases ht
  · exact not_hasQueued_of_hasReady hs hready (hu.queue _ w hw)
  · obtain ⟨h, w, hw, heq⟩ := (hu.loose u hmem).queued
    rw [← hs.pending.hash h w hw, heq] at hw
    exact not_hasQueued_of_hasReady hs hready hw

/-- A transaction is pruned as a provider, or on the way to a pruned one. -/
theorem leadsTo_of_pruned (hs : PoolInv s) (h : Pruned s.readyTransactions ms x) :
    x.slot ∈ ms ∨ ∃ y, Pruned s.readyTransactions ms y ∧ LeadsTo s x y := by
  cases h with
  | direct _ hslot => exact Or.inl hslot
  | @back _ _ t _ hp ht _ hfol _ => exact Or.inr ⟨t.tx, hp, .next (hs.hasReady ht) hfol⟩

end

theorem mined_woken (hs : PoolInv s) (hu : Unloaded ord s ms labels (s₁, imports))
    (hsv : Served ord s.pendingTransactions ms s₁.readyTransactions.holder evs (s', []))
    (ha : Accounted (s₁, imports) evs (s', [])) (hrep : Reported evs promoted failed)
    (hx : Woken s.pendingTransactions ms x) :
    s'.HasReady x ∨
      PruneResult.Reports { promoted, failed, pruned := labels.flatMap (·.2) } x := by
  obtain ⟨h, w, hw, rfl⟩ := id hx.queued
  have hin : Config.Holds (s₁, imports) w.transaction := by
    by_cases hstay : s₁.pendingTransactions.waitingQueue.lookup h = some w
    · exact Or.inl (Or.inr (hu.inv.pool.hasQueued hstay))
    · exact Or.inr (List.mem_map.mp (hu.arranged.mem_of_left hs.pending hw hstay))
  rcases ha.holds_or hin with (hready | ⟨w', hw', htx⟩) | hr | hr
  · exact Or.inl hready
  · rw [hsv.queue_iff hs.pending, htx] at hw'
    exact absurd hx hw'.2
  · exact Or.inr (Or.inr (Or.inr ((hrep.replaced _).mp hr)))
  · exact Or.inr (((hrep.refused _).mp hr).imp_right Or.inl)

theorem mined_of_served (hs : PoolInv s) (hlabels : labels.map (·.1) = ms)
    (hu : Unloaded ord s ms labels (s₁, imports))
    (hsv : Served ord s.pendingTransactions ms s₁.readyTransactions.holder evs (s', []))
    (ha : Accounted (s₁, imports) evs (s', [])) (hrep : Reported evs promoted failed) :
    Mined s ms { promoted, failed, pruned := labels.flatMap (·.2) } s' := by
  have hprov : ∀ {x}, s.HasReady x → ∀ m, m ∈ x.provides ↔ m = x.slot :=
    fun hx _ => (hx.marked hs.ready.toReadyCore).mem_provides
  refine ⟨fun x hx hms => ?_, fun x hx hms hlead => ?_, fun h w hw hms => ?_, fun x hx => ?_,
    fun h w hw hnot => ?_⟩
  · obtain ⟨m, hm, hmx⟩ := hms
    rw [hprov hx] at hmx
    subst hmx
    have hmem : x ∈ labels.flatMap (·.2) := by
      rw [hu.mem_pruned hs hlabels]
      obtain ⟨t, ht, rfl⟩ := hx
      exact .direct ht hm
    exact ⟨hmem, fun hin => hu.not_holds hs hmem ((ha.holds x).mp (Or.inl hin)).1⟩
  · have hnot : ¬ Pruned s.readyTransactions ms x := by
      intro hp
      rcases leadsTo_of_pruned hs hp with hslot | ⟨y, hy, hxy⟩
      · exact hms _ hslot ((hprov hx _).mpr rfl)
      · exact hlead y ((hu.mem_pruned hs hlabels y).mpr hy) hxy
    obtain ⟨hx₁, -⟩ := (holder_eq_some hu.inv.pool.ready.toReadyCore).mp
      ((hu.holder_iff hs hlabels x.slot x).mpr ⟨hx, hnot, rfl⟩)
    rcases ha.holds_or (Or.inl (Or.inl hx₁)) with (hready | ⟨w, hw, -⟩) | hr | hr
    · exact Or.inl hready
    · exact absurd (hsv.queue _ w hw) (not_hasQueued_of_hasReady hs hx)
    · exact Or.inr ((hrep.replaced x).mp hr)
    · -- a transaction that was ready is not tried
      obtain ⟨⟨w, hw⟩ | ⟨u, hmem, hhash⟩, -⟩ := (ha.attempted x.hash).mp (Or.inr hr)
      · exact absurd hw (not_hasQueued_of_hasReady hu.inv.pool hx₁)
      · obtain ⟨t, ht, -⟩ := hx₁
        rw [← hhash, hu.inv.loose.notReady u hmem] at ht
        cases ht
  · obtain ⟨m, hreq, hmiss⟩ := hs.pending.missing h w hw
    have hm : m ∈ ms := hms m (by rw [hmiss]; exact Finset.mem_singleton_self m)
    exact mined_woken hs hu hsv ha hrep (.direct hw (by rw [hreq]; exact List.mem_cons_self) hm)
  · exact mined_woken hs hu hsv ha hrep hx
  · exact (hsv.queue_iff hs.pending).mpr ⟨hw, hnot⟩

end

/-- **Pruning.** `prune_markers` returns, keeps the right transactions, and the order of the markers
does not matter. -/
theorem pruneMarkers_mined {ops : List PoolOp} {s : PoolInner} (hrun : PoolRun ops s)
    (ord : HashOrder) (ms : List TxMarker) :
    ∃ res s', s.pruneMarkers ord ms = .ok (res, s') ∧ Mined s ms res s' ∧
      ∀ ms', (∀ m, m ∈ ms' ↔ m ∈ ms) → ∃ res' s'', s.pruneMarkers ord ms' = .ok (res', s'') ∧
        SameOutcome res s' res' s'' := by
  have hs := PoolRun.inv hrun
  obtain ⟨labels, imports, s₁, evs, s', promoted, failed, heq, hlabels, hu, hsv, ha, hrep⟩ :=
    pruneMarkers_served hs
  refine ⟨_, s', heq, mined_of_served hs hlabels hu hsv ha hrep, fun ms' hms => ?_⟩
  obtain ⟨labels', imports', s₁', evs', s'', promoted', failed', heq', hlabels', hu', hsv', -, -⟩ :=
    pruneMarkers_served hs
  have hpruned : ∀ x, Pruned s.readyTransactions ms x ↔ Pruned s.readyTransactions ms' x :=
    fun x => ⟨.mono fun m hm => (hms m).mpr hm, .mono fun m hm => (hms m).mp hm⟩
  have hwoken : ∀ x, Woken s.pendingTransactions ms x ↔ Woken s.pendingTransactions ms' x :=
    fun x => ⟨.mono fun m hm => (hms m).mpr hm, .mono fun m hm => (hms m).mp hm⟩
  refine ⟨_, s'', heq', fun x => ?_, fun x => ?_, fun x => ?_⟩
  · rw [hu.mem_pruned hs hlabels, hu'.mem_pruned hs hlabels', hpruned]
  · -- the slot starts with the same holder and sees the same bids
    have hstart : s₁.readyTransactions.holder x.slot = s₁'.readyTransactions.holder x.slot := by
      ext y
      rw [hu.holder_iff hs hlabels, hu'.holder_iff hs hlabels', hpruned]
    have hend : s'.readyTransactions.holder x.slot = s''.readyTransactions.holder x.slot :=
      calc s'.readyTransactions.holder x.slot
          = (bidders x.slot (tried evs)).foldl compete (s₁.readyTransactions.holder x.slot) :=
            hsv.holder x.slot
        _ = (bidders x.slot (tried evs')).foldl compete (s₁'.readyTransactions.holder x.slot) := by
            rw [hsv.bidders_congr hs.pending hsv' hwoken, hstart]
        _ = s''.readyTransactions.holder x.slot := (hsv'.holder x.slot).symm
    have hx := holder_eq_some hsv.inv.pool.ready.toReadyCore (m := x.slot) (x := x)
    have hx' := holder_eq_some hsv'.inv.pool.ready.toReadyCore (m := x.slot) (x := x)
    rw [hend, hx'] at hx
    simpa [PoolInner.HasReady] using hx.symm
  · show (∃ w, _) ↔ ∃ w, _
    simp only [hsv.queue_iff hs.pending, hsv'.queue_iff hs.pending, hwoken]

/-- Nonce 0 is mined; nonce 1 stays ready. -/
theorem pruneMarkers_mined_pair :
    ∃ s res s', PoolRun pairOps s ∧
      s.pruneMarkers ascendingOrder [toMarker 0 1] = .ok (res, s') ∧
      Mined s [toMarker 0 1] res s' := by
  obtain ⟨s, hrun, -⟩ := run_of_execAll ascendingOrder 0 pairOps (fun _ => true)
    (by decide +kernel) (by decide +kernel)
  obtain ⟨res, s', heq, hmined, -⟩ := pruneMarkers_mined hrun ascendingOrder [toMarker 0 1]
  exact ⟨s, res, s', hrun, heq, hmined⟩

/-- A ready nonce 5, another nonce 5 in the queue at a higher fee, and nonces 7 to 9
in the queue. -/
def promotionOps : List PoolOp :=
  [.addTransaction (sampleTx 1 5 5 10), .addTransaction (sampleTx 2 5 0 20),
    .addTransaction (sampleTx 3 7 0 10), .addTransaction (sampleTx 4 8 0 10),
    .addTransaction (sampleTx 5 9 0 10)]

/-- With the nonces 4, 6 and 7 mined, the ready nonce 5 makes room for the queued one;
nonce 7 was in the queue and is ready now; nonce 9, which waited for the marker of
nonce 8, has left the queue. -/
theorem promotion_reaches_further :
    ∃ s res s', PoolRun promotionOps s ∧
      s.pruneMarkers ascendingOrder [toMarker 4 1, toMarker 6 1, toMarker 7 1] = .ok (res, s') ∧
      res.pruned = [] ∧
      (s.readyTransactions.contains 1 = true ∧ s'.readyTransactions.contains 1 = false) ∧
      (s.pendingTransactions.contains 3 = true ∧ s'.readyTransactions.contains 3 = true ∧
        (sampleTx 3 7 0 10).provides = [toMarker 7 1]) ∧
      (s.pendingTransactions.contains 5 = true ∧ s'.pendingTransactions.contains 5 = false ∧
        (sampleTx 5 9 0 10).requires = [toMarker 8 1]) := by
  obtain ⟨s, hrun, hP⟩ := run_of_execAll ascendingOrder 0 promotionOps
    (fun s => (match s.pruneMarkers ascendingOrder [toMarker 4 1, toMarker 6 1, toMarker 7 1] with
      | .ok (res, s') => decide (res.pruned = [] ∧
          (s.readyTransactions.contains 1 = true ∧ s'.readyTransactions.contains 1 = false) ∧
          (s.pendingTransactions.contains 3 = true ∧ s'.readyTransactions.contains 3 = true) ∧
          (s.pendingTransactions.contains 5 = true ∧ s'.pendingTransactions.contains 5 = false))
      | .error _ => false) = true)
    (by decide +kernel) (by decide +kernel)
  split at hP
  · rename_i res s' heq
    obtain ⟨hpruned, h₁, h₃, h₅⟩ := of_decide_eq_true hP
    exact ⟨s, res, s', hrun, heq, hpruned, h₁, ⟨h₃.1, h₃.2, by decide +kernel⟩,
      ⟨h₅.1, h₅.2, by decide +kernel⟩⟩
  · cases hP

end BaseAnvil.Pool

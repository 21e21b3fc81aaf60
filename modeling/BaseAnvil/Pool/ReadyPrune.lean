import BaseAnvil.Pool.ReadyInv

/-!
# BaseAnvil.Pool.ReadyPrune

What `ReadyTransactions::prune_tags` does. One round either finds nobody who
provides the marker, or takes the provider out (`PrunedOne`), moves the
transactions it unlocked one marker ahead and may put the marker of its own
predecessor on the worklist. `PruneRun` is the whole loop as a relation; later
results are by induction on it and never look at the loop again.
-/

namespace BaseAnvil.Pool

open Lib ReadyTransactions HashMap

/-- The entry `x` once `t`, stored under `h`, was taken out. -/
def afterPrune (h : TxHash) (t : ReadyTransaction) (y : TxHash) (x : ReadyTransaction) :
    ReadyTransaction where
  transaction := x.transaction
  unlocks := if x.tx.slot ∈ t.tx.requires then swapRemoveItem x.unlocks h else x.unlocks
  requiresOffset := x.requiresOffset + t.unlocks.count y

@[simp] theorem afterPrune_tx (h : TxHash) (t : ReadyTransaction) (y : TxHash)
    (x : ReadyTransaction) : (afterPrune h t y x).tx = x.tx := rfl

variable {h : TxHash} {t : ReadyTransaction} {r : ReadyTransactions}
  {x : ReadyTransaction} {y : TxHash}

theorem mem_afterPrune_unlocks {z : TxHash} (hne : z ≠ h) :
    z ∈ (afterPrune h t y x).unlocks ↔ z ∈ x.unlocks := by
  unfold afterPrune
  split
  · exact mem_swapRemoveItem_of_ne hne
  · exact Iff.rfl

theorem mem_of_mem_afterPrune {z : TxHash} (hz : z ∈ (afterPrune h t y x).unlocks) :
    z ∈ x.unlocks := by
  unfold afterPrune at hz
  split at hz
  · exact mem_of_mem_swapRemoveItem hz
  · exact hz

/-- The markers put on the worklist: the predecessor's, if it unlocks nobody else. -/
def ReadyTransactions.backMarkers (r : ReadyTransactions) (h : TxHash) (t : ReadyTransaction) :
    List TxMarker :=
  ((t.tx.requires.filterMap r.provider).filter
    fun p => (swapRemoveItem p.unlocks h).isEmpty).map (·.tx.slot)

/-- What one round does when `t`, stored under `h`, provides the marker. -/
structure PrunedOne (r : ReadyTransactions) (h : TxHash) (t : ReadyTransaction)
    (r' : ReadyTransactions) : Prop where
  id : r'.id = r.id
  provided : r'.providedMarkers = r.providedMarkers.erase t.tx.slot
  ready : ∀ y, r'.readyTx.lookup y =
    if y = h then none else (r.readyTx.lookup y).map (afterPrune h t y)
  independent : ∃ R : HashMap TxHash ReadyTransaction,
    (∀ y, (R.lookup y).map (fun x => (x.transaction, x.requiresOffset)) =
      if y = h then none
      else (r.readyTx.lookup y).map (fun x => (x.transaction, x.requiresOffset))) ∧
    t.unlocks.foldl satisfy (R, r.independentTransactions.remove t.transaction) =
      (r'.readyTx, r'.independentTransactions)

/-! ### One round -/

theorem foldl_satisfy_lookup (l : List TxHash)
    (st : HashMap TxHash ReadyTransaction × BTreeSet PoolTransactionRef PoolTransactionRef.cmp) :
    (l.foldl satisfy st).1.lookup y =
      (st.1.lookup y).map fun x => { x with requiresOffset := x.requiresOffset + l.count y } := by
  induction l generalizing st with
  | nil => simp
  | cons h rest ih =>
    rw [List.foldl_cons, ih]
    unfold satisfy
    cases hh : st.1.lookup h with
    | none =>
      by_cases hy : y = h
      · subst hy
        simp [hh]
      · simp [Ne.symm hy]
    | some t =>
      rw [lookup_insert_ite]
      by_cases hy : y = h
      · subst hy
        rw [if_pos rfl, hh, Option.map_some, Option.map_some, List.count_cons_self]
        simp only [Option.some.injEq, ReadyTransaction.mk.injEq, true_and]
        omega
      · rw [if_neg hy]
        simp [Ne.symm hy]

/-- The walk over the predecessors of `t`: there is at most one. -/
theorem foldl_previousMarkers (hr : ReadyCore r) (ht : r.readyTx.lookup h = some t) :
    ∃ R, t.tx.requires.foldl (previousMarkers (r.providedMarkers.erase t.tx.slot) t.tx.hash)
        (r.readyTx.erase h, []) = (R, r.backMarkers h t) ∧
      ∀ y, R.lookup y = if y = h then none else (r.readyTx.lookup y).map fun x =>
        { x with unlocks := if x.tx.slot ∈ t.tx.requires then swapRemoveItem x.unlocks h
                            else x.unlocks } := by
  have hm := hr.marked h t ht
  have hhash := hr.hash h t ht
  -- entries that provide no required marker are left alone
  have hskip : ∀ y, (∀ m ∈ t.tx.requires, r.providedMarkers.lookup m ≠ some y) →
      (r.readyTx.erase h).lookup y = if y = h then none else (r.readyTx.lookup y).map fun x =>
        { x with unlocks := if x.tx.slot ∈ t.tx.requires then swapRemoveItem x.unlocks h
                            else x.unlocks } := by
    intro y hy
    rw [lookup_erase_ite]
    split
    · rfl
    cases hx : r.readyTx.lookup y with
    | none => rfl
    | some x =>
      have hnot : x.tx.slot ∉ t.tx.requires := fun hmem =>
        hy _ hmem ((hr.provided _ y).mpr ⟨x, hx, rfl⟩)
      rw [Option.map_some, if_neg hnot]
  rcases hm.requires with hreq | ⟨-, hreq⟩
  · refine ⟨r.readyTx.erase h, by simp [hreq, backMarkers], fun y => ?_⟩
    exact hskip y (by simp [hreq])
  have hself := hm.not_follows_self
  rw [PoolTransaction.Follows, hreq, List.mem_singleton] at hself
  generalize toMarker (t.tx.nonce - 1) t.tx.sender = m at hreq hself
  have hprov : (r.providedMarkers.erase t.tx.slot).lookup m = r.providedMarkers.lookup m := by
    rw [lookup_erase_ite, if_neg (Ne.symm hself)]
  cases hlook : r.providedMarkers.lookup m with
  | none =>
    refine ⟨r.readyTx.erase h, ?_, fun y => hskip y ?_⟩
    · simp [hreq, previousMarkers, hprov, hlook, backMarkers, provider]
    · simp [hreq, hlook]
  | some x =>
    obtain ⟨p, hp, hslot⟩ := (hr.provided m x).mp hlook
    have hxh : x ≠ h := ne_of_lookup hp ht <| by
      rintro rfl
      exact hself hslot
    have hp' : (r.readyTx.erase h).lookup x = some p := by
      rw [Finmap.lookup_erase_ne hxh]
      exact hp
    have hpm : p.provides = [p.tx.slot] := (hr.marked x p hp).provides
    refine ⟨(r.readyTx.erase h).insert x { p with unlocks := swapRemoveItem p.unlocks h }, ?_, ?_⟩
    · simp only [hreq, List.foldl_cons, List.foldl_nil, previousMarkers, hprov, hlook, hp', hhash,
        hpm, backMarkers, List.filterMap_cons, provider, Option.bind_some, hp, List.filterMap_nil]
      by_cases hemp : (swapRemoveItem p.unlocks h).isEmpty = true
      · simp [hemp]
      · simp [hemp]
    · intro y
      rw [lookup_insert_ite]
      by_cases hyx : y = x
      · subst hyx
        rw [if_pos rfl, if_neg hxh, hp, Option.map_some, hslot, hreq, if_pos List.mem_cons_self]
      · rw [if_neg hyx]
        refine hskip y ?_
        simp only [hreq, List.mem_singleton, forall_eq, hlook]
        exact fun heq => hyx (Option.some.inj heq).symm

theorem pruneOne_none (hr : ReadyCore r) {m : TxMarker} (hm : r.provider m = none) :
    r.pruneOne m = .ok (none, r) := by
  have hnone := hr.provider_eq_none.mp hm
  simp [pruneOne, hnone, erase_of_lookup_none hnone]

theorem pruneOne_some (hr : ReadyCore r) (ht : r.provider t.tx.slot = some t) :
    ∃ r', r.pruneOne t.tx.slot = .ok (some (t.tx, r.backMarkers t.tx.hash t), r') ∧
      PrunedOne r t.tx.hash t r' := by
  obtain ⟨hlook, -⟩ := hr.provider_eq_some.mp ht
  have hprov := (hr.provided t.tx.slot _).mpr ⟨t, hlook, rfl⟩
  obtain ⟨R, hfold, hR⟩ := foldl_previousMarkers hr hlook
  have hdrop : t.tx.provides.foldlM (dropProvided t.tx.hash t.tx.slot)
      (r.providedMarkers.erase t.tx.slot) = .ok (r.providedMarkers.erase t.tx.slot) := by
    have hnone : (r.providedMarkers.erase t.tx.slot).lookup t.tx.slot = none := by
      rw [Finmap.lookup_erase]
    rw [(hr.marked _ t hlook).provides, ← PoolTransaction.slot]
    simp [dropProvided, hnone, erase_of_lookup_none hnone]
  refine ⟨{ r with
      providedMarkers := r.providedMarkers.erase t.tx.slot
      readyTx := (t.unlocks.foldl satisfy (R, r.independentTransactions.remove t.transaction)).1
      independentTransactions :=
        (t.unlocks.foldl satisfy (R, r.independentTransactions.remove t.transaction)).2 }, ?_, ?_⟩
  · simp only [pruneOne, hprov, Option.bind_some, hlook, Option.map_some, hfold, hdrop]
  · refine ⟨rfl, rfl, ?_, R, ?_, rfl⟩
    · intro y
      rw [foldl_satisfy_lookup, hR]
      split
      · rfl
      · rw [Option.map_map]
        rfl
    · intro y
      rw [hR]
      split
      · rfl
      · rw [Option.map_map]
        rfl

namespace PrunedOne

variable {r' : ReadyTransactions} {x' : ReadyTransaction}

section

variable (hp : PrunedOne r h t r')
include hp

theorem of_some (hx' : r'.readyTx.lookup y = some x') :
    y ≠ h ∧ ∃ x, r.readyTx.lookup y = some x ∧ x' = afterPrune h t y x := by
  rw [hp.ready] at hx'
  split at hx'
  · cases hx'
  · obtain ⟨x, hx, heq⟩ := Option.map_eq_some_iff.mp hx'
    exact ⟨‹_›, x, hx, heq.symm⟩

theorem some_of_ne (hne : y ≠ h) (hx : r.readyTx.lookup y = some x) :
    r'.readyTx.lookup y = some (afterPrune h t y x) := by
  rw [hp.ready, if_neg hne, hx, Option.map_some]

theorem withoutEntry : WithoutEntry r.readyTx h r'.readyTx := by
  intro y
  rw [hp.ready]
  split
  · rfl
  · rw [Option.map_map]
    rfl

theorem core (hr : ReadyCore r) (ht : r.readyTx.lookup h = some t) : ReadyCore r' :=
  hr.of_withoutEntry ht hp.withoutEntry hp.provided

theorem wf (hr : ReadyWf r) (ht : r.readyTx.lookup h = some t) : ReadyWf r' := by
  refine ⟨hp.core hr.toReadyCore ht, ?_⟩
  intro y x' hx' hoff
  obtain ⟨hyh, x, hx, rfl⟩ := hp.of_some hx'
  have hoff' : x.requiresOffset + t.unlocks.count y < x.tx.requires.length := hoff
  obtain ⟨z, p, hpz, hfol, hmem⟩ := hr.linked y x hx (by omega)
  have hzh : z ≠ h := ne_of_lookup hpz ht <| by
    rintro rfl
    -- what `p` unlocks was moved ahead, so it no longer counts on a provider
    have hcount : 0 < p.unlocks.count y := List.count_pos_iff.mpr hmem
    have hlen : x.tx.requires.length = 1 := by
      rw [(hr.marked y x hx).requires_eq_singleton hfol, List.length_singleton]
    omega
  exact ⟨z, _, hp.some_of_ne hzh hpz, hfol, (mem_afterPrune_unlocks hyh).mpr hmem⟩

end

/-- The provider of a marker after a round is what the round made of the one before. -/
theorem provider {m : TxMarker} (hr : ReadyCore r) (ht : r.readyTx.lookup h = some t)
    (hp : PrunedOne r h t r') (hx' : r'.provider m = some x') :
    ∃ x, r.provider m = some x ∧ x' = afterPrune h t x.tx.hash x := by
  obtain ⟨hlook, hslot⟩ := (hp.core hr ht).provider_eq_some.mp hx'
  obtain ⟨-, x, hx, heq⟩ := hp.of_some hlook
  have htx : x'.tx = x.tx := (congrArg ReadyTransaction.tx heq :)
  rw [htx] at hx hslot heq
  exact ⟨x, hr.provider_eq_some.mpr ⟨hx, hslot⟩, heq⟩

end PrunedOne

/-! ### The loop -/

/-- The rounds of `prune_tags`: from `r`, with the markers given still to do, the
transactions given are pruned and `r'` is left. -/
inductive PruneRun : ReadyTransactions → List TxMarker → List PoolTransaction →
    ReadyTransactions → Prop
  | nil {r : ReadyTransactions} : PruneRun r [] [] r
  | skip {r r' : ReadyTransactions} {m : TxMarker} {rest : List TxMarker}
      {txs : List PoolTransaction} :
      r.provider m = none → PruneRun r rest txs r' → PruneRun r (m :: rest) txs r'
  | take {r r₁ r' : ReadyTransactions} {t : ReadyTransaction} {rest : List TxMarker}
      {txs : List PoolTransaction} :
      r.provider t.tx.slot = some t → PrunedOne r t.tx.hash t r₁ →
      PruneRun r₁ (r.backMarkers t.tx.hash t ++ rest) txs r' →
      PruneRun r (t.tx.slot :: rest) (t.tx :: txs) r'

theorem pruneOne_cases (hr : ReadyCore r) (m : TxMarker) :
    (r.provider m = none ∧ r.pruneOne m = .ok (none, r)) ∨
      ∃ t r', t.tx.slot = m ∧ r.provider t.tx.slot = some t ∧
        r.pruneOne m = .ok (some (t.tx, r.backMarkers t.tx.hash t), r') ∧
        PrunedOne r t.tx.hash t r' := by
  cases hprov : r.provider m with
  | none => exact Or.inl ⟨rfl, pruneOne_none hr hprov⟩
  | some t =>
    obtain ⟨-, hslot⟩ := hr.provider_eq_some.mp hprov
    subst hslot
    obtain ⟨r', heq, hpruned⟩ := pruneOne_some hr hprov
    exact Or.inr ⟨t, r', rfl, hprov, heq, hpruned⟩

theorem pruneLoop_spec (ms : List TxMarker) (acc : List PoolTransaction) (hr : ReadyWf r) :
    ∃ txs r', pruneLoop r ms acc = .ok (acc ++ txs, r') ∧ PruneRun r ms txs r' ∧ ReadyWf r' := by
  fun_induction pruneLoop r ms acc with
  | case1 r acc => exact ⟨[], r, by rw [List.append_nil], .nil, hr⟩
  | case2 r acc m rest e herr =>
    rcases pruneOne_cases hr.toReadyCore m with ⟨-, heq⟩ | ⟨t, r', -, -, heq, -⟩
    all_goals
      rw [heq] at herr
      cases herr
  | case3 r acc m rest r₁ hone ih =>
    rcases pruneOne_cases hr.toReadyCore m with ⟨hprov, heq⟩ | ⟨t, r', -, -, heq, -⟩
    all_goals
      rw [heq] at hone
      cases hone
    obtain ⟨txs, r', heq', hrun, hwf⟩ := ih hr
    exact ⟨txs, r', heq', .skip hprov hrun, hwf⟩
  | case4 r acc m rest tx tags r₁ hone ih =>
    rcases pruneOne_cases hr.toReadyCore m with ⟨hprov, heq⟩ | ⟨t, r', hslot, hprov, heq, hpruned⟩
    all_goals
      rw [heq] at hone
      cases hone
    subst hslot
    obtain ⟨txs, r', heq', hrun, hwf⟩ := ih (hpruned.wf hr (hr.provider_eq_some.mp hprov).1)
    exact ⟨t.tx :: txs, r', by rw [heq']; simp, .take hprov hpruned hrun, hwf⟩

theorem pruneTags_spec (hr : ReadyWf r) (m : TxMarker) :
    ∃ txs r', r.pruneTags m = .ok (txs, r') ∧ PruneRun r [m] txs r' ∧ ReadyWf r' := by
  obtain ⟨txs, r', heq, hrun, hwf⟩ := pruneLoop_spec [m] [] hr
  exact ⟨txs, r', by rw [pruneTags, heq, List.nil_append], hrun, hwf⟩

variable {txs : List PoolTransaction} {r' : ReadyTransactions}

/-- What every round keeps, a prune keeps. -/
theorem PruneRun.invariant {J : ReadyTransactions → Prop}
    (hstep : ∀ r t r₁, ReadyWf r → J r → r.readyTx.lookup t.tx.hash = some t →
      PrunedOne r t.tx.hash t r₁ → J r₁) {ms : List TxMarker}
    (hrun : PruneRun r ms txs r') (hr : ReadyWf r) (hJ : J r) : J r' := by
  induction hrun with
  | nil => exact hJ
  | skip _ _ ih => exact ih hr hJ
  | take hprov hone _ ih =>
    obtain ⟨hlook, -⟩ := hr.provider_eq_some.mp hprov
    exact ih (hone.wf hr hlook) (hstep _ _ _ hr hJ hlook hone)

/-- A prune only takes entries and markers away. -/
structure Shrunk (r r' : ReadyTransactions) : Prop where
  id : r'.id = r.id
  ready : ∀ h t', r'.readyTx.lookup h = some t' →
    ∃ t, r.readyTx.lookup h = some t ∧ t.transaction = t'.transaction
  provided : ∀ m h, r'.providedMarkers.lookup m = some h → r.providedMarkers.lookup m = some h

section

variable (hs : Shrunk r r')
include hs

theorem Shrunk.ready_none {h : TxHash} (hnone : r.readyTx.lookup h = none) :
    r'.readyTx.lookup h = none := by
  refine Option.eq_none_iff_forall_ne_some.mpr fun t' ht' => ?_
  obtain ⟨t, ht, -⟩ := hs.ready h t' ht'
  rw [hnone] at ht
  cases ht

theorem Shrunk.provided_none {m : TxMarker} (hnone : r.providedMarkers.lookup m = none) :
    r'.providedMarkers.lookup m = none := by
  refine Option.eq_none_iff_forall_ne_some.mpr fun h hh => ?_
  rw [hs.provided m h hh] at hnone
  cases hnone

end

theorem PruneRun.shrunk {ms : List TxMarker} (hrun : PruneRun r ms txs r') (hr : ReadyWf r) :
    Shrunk r r' := by
  refine hrun.invariant (J := Shrunk r) ?_ hr ⟨rfl, fun h t ht => ⟨t, ht, rfl⟩, fun _ _ h => h⟩
  intro r₁ t r₂ _ hs _ hone
  refine ⟨hone.id.trans hs.id, ?_, ?_⟩
  · intro h t' ht'
    obtain ⟨-, x, hx, rfl⟩ := hone.of_some ht'
    exact hs.ready h x hx
  · intro m h hm
    rw [hone.provided] at hm
    exact hs.provided m h (lookup_erase_eq_some.mp hm).2

end BaseAnvil.Pool

import BaseAnvil.Pool.ReadyPrune

/-!
# BaseAnvil.Pool.Pruned

Which ready transactions a list of markers prunes: the providers of the markers and,
going back, a predecessor of a pruned transaction that unlocks nobody else
(`Pruned`). The set is a least fixed point over the pool before the prune, so the
order in which the markers are handled cannot matter.
-/

namespace BaseAnvil.Pool

open Lib

/-- What pruning the markers `ms` takes from the ready transactions. -/
inductive Pruned (r : ReadyTransactions) (ms : List TxMarker) : PoolTransaction → Prop
  | direct {h : TxHash} {t : ReadyTransaction} :
      r.readyTx.lookup h = some t → t.tx.slot ∈ ms → Pruned r ms t.tx
  | back {h y : TxHash} {t p : ReadyTransaction} :
      Pruned r ms t.tx → r.readyTx.lookup h = some t → r.readyTx.lookup y = some p →
      t.tx.Follows p.tx → p.unlocks.erase h = [] → Pruned r ms p.tx

variable {ms todo : List TxMarker} {r r' : ReadyTransactions} {txs : List PoolTransaction}

theorem Pruned.mono {ms' : List TxMarker} (hsub : ∀ m ∈ ms, m ∈ ms') {x : PoolTransaction}
    (h : Pruned r ms x) : Pruned r ms' x := by
  induction h with
  | direct ht hslot => exact .direct ht (hsub _ hslot)
  | back _ ht hp hfol hunl ih => exact .back ih ht hp hfol hunl

/-- The state of the prune: `r` is what is left of `r₀` with the markers `todo` still
to be handled. -/
structure PruneInv (r₀ : ReadyTransactions) (ms : List TxMarker) (todo : List TxMarker)
    (r : ReadyTransactions) : Prop where
  kept : ∀ y x, r.readyTx.lookup y = some x → ∃ x₀, r₀.readyTx.lookup y = some x₀ ∧ x₀.tx = x.tx
  /-- Until its successor goes, a transaction keeps its `unlocks`. -/
  unlocks : ∀ y x x₀, r.readyTx.lookup y = some x → r₀.readyTx.lookup y = some x₀ →
    (∀ z f, r₀.readyTx.lookup z = some f → f.tx.Follows x.tx → r.readyTx.lookup z ≠ none) →
    x.unlocks = x₀.unlocks
  gone : ∀ y x₀, r₀.readyTx.lookup y = some x₀ → r.readyTx.lookup y = none → Pruned r₀ ms x₀.tx
  due : ∀ m ∈ todo, m ∈ ms ∨
    ∃ y p, r₀.readyTx.lookup y = some p ∧ p.tx.slot = m ∧ Pruned r₀ ms p.tx
  /-- A predecessor that has to go is on the worklist. -/
  listed : ∀ y x x₀ z f, r.readyTx.lookup y = some x → r₀.readyTx.lookup y = some x₀ →
    r₀.readyTx.lookup z = some f → r.readyTx.lookup z = none → f.tx.Follows x.tx →
    x₀.unlocks.erase z = [] → x.tx.slot ∈ todo

namespace PruneInv

variable {r₀ : ReadyTransactions}

theorem start (r₀ : ReadyTransactions) (ms : List TxMarker) : PruneInv r₀ ms [] r₀ := by
  refine ⟨fun y x hx => ⟨x, hx, rfl⟩, ?_, ?_, fun m hm => absurd hm List.not_mem_nil, ?_⟩
  · intro y x x₀ hx hx₀ _
    rw [hx] at hx₀
    cases hx₀
    rfl
  · intro y x₀ hx₀ hnone
    rw [hx₀] at hnone
    cases hnone
  · intro y x x₀ z f _ _ hf hnone
    rw [hf] at hnone
    cases hnone

/-- The next marker of the list is taken up. -/
theorem push (hi : PruneInv r₀ ms [] r) {m : TxMarker} (hm : m ∈ ms) : PruneInv r₀ ms [m] r where
  kept := hi.kept
  unlocks := hi.unlocks
  gone := hi.gone
  due m' hm' := by
    rw [List.mem_singleton.mp hm']
    exact Or.inl hm
  listed y x x₀ z f hx hx₀ hf hnone hfol hunl :=
    absurd (hi.listed y x x₀ z f hx hx₀ hf hnone hfol hunl) List.not_mem_nil

theorem skip (hr : ReadyCore r) {m : TxMarker} (hi : PruneInv r₀ ms (m :: todo) r)
    (hm : r.provider m = none) : PruneInv r₀ ms todo r where
  kept := hi.kept
  unlocks := hi.unlocks
  gone := hi.gone
  due m' hm' := hi.due m' (List.mem_cons_of_mem _ hm')
  listed y x x₀ z f hx hx₀ hf hnone hfol hunl := by
    rcases List.mem_cons.mp (hi.listed y x x₀ z f hx hx₀ hf hnone hfol hunl) with heq | hmem
    · have hprov := (hr.provided m y).mpr ⟨x, hx, heq⟩
      rw [hr.provider_eq_none.mp hm] at hprov
      cases hprov
    · exact hmem

/-- The successor of a transaction is the only one. -/
theorem follower_unique (hr₀ : ReadyCore r₀) {h z : TxHash} {t f : ReadyTransaction}
    {p : PoolTransaction} (ht : r₀.readyTx.lookup h = some t) (hf : r₀.readyTx.lookup z = some f)
    (htp : t.tx.Follows p) (hfp : f.tx.Follows p) : z = h :=
  (hr₀.slot_inj hf ht
    ((hr₀.marked z f hf).slot_eq_of_mem_requires (hr₀.marked h t ht) hfp htp)).1

theorem take (hr₀ : ReadyCore r₀) (hr : ReadyCore r) {t : ReadyTransaction} {r₁ : ReadyTransactions}
    (hi : PruneInv r₀ ms (t.tx.slot :: todo) r) (hlook : r.readyTx.lookup t.tx.hash = some t)
    (hone : PrunedOne r t.tx.hash t r₁) :
    PruneInv r₀ ms (r.backMarkers t.tx.hash t ++ todo) r₁ := by
  obtain ⟨t₀, ht₀, htx⟩ := hi.kept _ t hlook
  have hself : r₁.readyTx.lookup t.tx.hash = none := by
    rw [hone.ready, if_pos rfl]
  have hsub : ∀ z, r.readyTx.lookup z = none → r₁.readyTx.lookup z = none := by
    intro z hz
    rw [hone.ready, hz]
    split <;> rfl
  have hback : ∀ z, r₁.readyTx.lookup z = none → z = t.tx.hash ∨ r.readyTx.lookup z = none := by
    intro z hz
    rw [hone.ready] at hz
    split at hz
    · exact Or.inl ‹_›
    · exact Or.inr (Option.map_eq_none_iff.mp hz)
  have hpruned : Pruned r₀ ms t₀.tx := by
    rcases hi.due _ List.mem_cons_self with hmem | ⟨y, p, hp, hslot, hpr⟩
    · exact .direct ht₀ (by rw [htx]; exact hmem)
    · obtain ⟨-, rfl⟩ := hr₀.slot_inj hp ht₀ (by rw [hslot, htx])
      exact hpr
  -- a predecessor still has the links it had at the start
  have hpred : ∀ y x x₀, r.readyTx.lookup y = some x → r₀.readyTx.lookup y = some x₀ →
      t.tx.Follows x.tx → x.unlocks = x₀.unlocks := by
    intro y x x₀ hx hx₀ hfol
    refine hi.unlocks y x x₀ hx hx₀ fun z f hf hfx hnone => ?_
    rw [← htx] at hfol
    rw [follower_unique hr₀ ht₀ hf hfol hfx, hlook] at hnone
    cases hnone
  refine ⟨?_, ?_, ?_, ?_, ?_⟩
  · intro y x' hx'
    obtain ⟨-, x, hx, rfl⟩ := hone.of_some hx'
    exact hi.kept y x hx
  · intro y x' x₀ hx' hx₀ hnot
    obtain ⟨-, x, hx, rfl⟩ := hone.of_some hx'
    have hfol : x.tx.slot ∉ t.tx.requires := fun hmem =>
      hnot _ t₀ ht₀ (by rw [htx]; exact hmem) hself
    rw [show (afterPrune t.tx.hash t y x).unlocks = x.unlocks from if_neg hfol]
    exact hi.unlocks y x x₀ hx hx₀ fun z f hf hfx hnone => hnot z f hf hfx (hsub z hnone)
  · intro y x₀ hx₀ hnone
    rcases hback y hnone with rfl | hnone
    · rw [ht₀] at hx₀
      cases hx₀
      exact hpruned
    · exact hi.gone y x₀ hx₀ hnone
  · intro m hm
    rcases List.mem_append.mp hm with hm | hm
    · obtain ⟨p, hp, rfl⟩ := List.mem_map.mp hm
      obtain ⟨hp, hempty⟩ := List.mem_filter.mp hp
      obtain ⟨m, hreq, hprov⟩ := List.mem_filterMap.mp hp
      obtain ⟨hpl, hslot⟩ := hr.provider_eq_some.mp hprov
      obtain ⟨p₀, hp₀, hptx⟩ := hi.kept _ p hpl
      have hfol : t.tx.Follows p.tx := by
        rw [PoolTransaction.Follows, hslot]
        exact hreq
      have herase : p₀.unlocks.erase t.tx.hash = [] := by
        rw [← hpred _ p p₀ hpl hp₀ hfol]
        have hperm := swapRemoveItem_perm p.unlocks t.tx.hash
        rw [List.isEmpty_iff.mp hempty] at hperm
        exact hperm.symm.eq_nil
      rw [← htx, ← hptx] at hfol
      exact Or.inr ⟨_, p₀, hp₀, by rw [hptx], .back hpruned ht₀ hp₀ hfol herase⟩
    · exact hi.due m (List.mem_cons_of_mem _ hm)
  · intro y x' x₀ z f hx' hx₀ hf hnone hfol hunl
    obtain ⟨hne, x, hx, rfl⟩ := hone.of_some hx'
    rw [afterPrune_tx] at hfol ⊢
    rcases hback z hnone with rfl | hnone
    · rw [ht₀] at hf
      cases hf
      rw [htx] at hfol
      refine List.mem_append_left _ (List.mem_map.mpr ⟨x, List.mem_filter.mpr ⟨?_, ?_⟩, rfl⟩)
      · exact List.mem_filterMap.mpr
          ⟨x.tx.slot, hfol, hr.provider_eq_some.mpr ⟨hr.lookup_hash hx, rfl⟩⟩
      · rw [hpred y x x₀ hx hx₀ hfol, List.isEmpty_iff]
        have hperm := swapRemoveItem_perm x₀.unlocks t.tx.hash
        rw [hunl] at hperm
        exact hperm.eq_nil
    · rcases List.mem_cons.mp (hi.listed y x x₀ z f hx hx₀ hf hnone hfol hunl) with heq | hmem
      · exact absurd (hr.slot_inj hx hlook heq).1 hne
      · exact List.mem_append_right _ hmem

end PruneInv

section

variable (hrun : PruneRun r todo txs r')
include hrun

/-- The loop works its list off. -/
theorem PruneRun.pruneInv {r₀ : ReadyTransactions} (hr₀ : ReadyCore r₀) (hr : ReadyCore r)
    (hi : PruneInv r₀ ms todo r) : PruneInv r₀ ms [] r' := by
  induction hrun with
  | nil => exact hi
  | skip hprov _ ih => exact ih hr (hi.skip hr hprov)
  | take hprov hone _ ih =>
    obtain ⟨hlook, -⟩ := hr.provider_eq_some.mp hprov
    exact ih (hone.core hr hlook) (hi.take hr₀ hr hlook hone)

/-- Nobody provides a marker that was handled. -/
theorem PruneRun.provided_none (hr : ReadyWf r) :
    ∀ m ∈ todo, r'.providedMarkers.lookup m = none := by
  induction hrun with
  | nil => exact fun m hm => absurd hm List.not_mem_nil
  | @skip r r' m rest txs hprov hrest ih =>
    intro m' hm'
    rcases List.mem_cons.mp hm' with rfl | hm'
    · exact (hrest.shrunk hr).provided_none (hr.provider_eq_none.mp hprov)
    · exact ih hr m' hm'
  | @take r r₁ r' t rest txs hprov hone hrest ih =>
    obtain ⟨hlook, -⟩ := hr.provider_eq_some.mp hprov
    have hwf := hone.wf hr hlook
    intro m' hm'
    rcases List.mem_cons.mp hm' with rfl | hm'
    · refine (hrest.shrunk hwf).provided_none ?_
      rw [hone.provided, Finmap.lookup_erase]
    · exact ih hwf m' (List.mem_append_right _ hm')

/-- The transactions returned are those that went. -/
theorem PruneRun.mem_iff (hr : ReadyWf r) (x : PoolTransaction) :
    x ∈ txs ↔
      ∃ t, r.readyTx.lookup x.hash = some t ∧ t.tx = x ∧ r'.readyTx.lookup x.hash = none := by
  induction hrun with
  | @nil r =>
    constructor
    · exact fun hx => absurd hx List.not_mem_nil
    · intro hex
      obtain ⟨t, ht, -, hnone⟩ := hex
      rw [ht] at hnone
      cases hnone
  | skip _ _ ih => exact ih hr
  | @take r r₁ r' t rest txs hprov hone hrest ih =>
    obtain ⟨hlook, -⟩ := hr.provider_eq_some.mp hprov
    have hwf := hone.wf hr hlook
    rw [List.mem_cons, ih hwf]
    constructor
    · intro hor
      rcases hor with rfl | ⟨t', ht', heq, hnone⟩
      · refine ⟨t, hlook, rfl, (hrest.shrunk hwf).ready_none ?_⟩
        rw [hone.ready, if_pos rfl]
      · obtain ⟨-, y, hy, rfl⟩ := hone.of_some ht'
        exact ⟨y, hy, heq, hnone⟩
    · intro hex
      obtain ⟨t', ht', heq, hnone⟩ := hex
      by_cases hx : x.hash = t.tx.hash
      · rw [hx, hlook] at ht'
        cases ht'
        exact Or.inl heq.symm
      · exact Or.inr ⟨_, hone.some_of_ne hx ht', heq, hnone⟩

end

section

variable {r₀ : ReadyTransactions} {y : TxHash} {x₀ : ReadyTransaction}

theorem PruneInv.tx_eq (hi : PruneInv r₀ ms todo r) (hx₀ : r₀.readyTx.lookup y = some x₀)
    {x : ReadyTransaction} (hx : r.readyTx.lookup y = some x) : x₀.tx = x.tx := by
  obtain ⟨x₁, hx₁, htx⟩ := hi.kept y x hx
  rw [hx₀] at hx₁
  cases hx₁
  exact htx

/-- In the end exactly the pruned transactions are gone. -/
theorem PruneInv.gone_iff (hr₀ : ReadyCore r₀) (hr : ReadyCore r) (hi : PruneInv r₀ ms [] r)
    (hnone : ∀ m ∈ ms, r.providedMarkers.lookup m = none) (hx₀ : r₀.readyTx.lookup y = some x₀) :
    r.readyTx.lookup y = none ↔ Pruned r₀ ms x₀.tx := by
  refine ⟨hi.gone y x₀ hx₀, fun hp => ?_⟩
  generalize hx : x₀.tx = x at hp
  induction hp generalizing y x₀ with
  | @direct h t ht hslot =>
    cases hlook : r.readyTx.lookup y with
    | none => rfl
    | some x' =>
      have hprov := (hr.provided t.tx.slot y).mpr ⟨x', hlook, by rw [← hi.tx_eq hx₀ hlook, hx]⟩
      rw [hnone _ hslot] at hprov
      cases hprov
  | @back h z t p _ ht hp hfol hunl ih =>
    have hgone := ih ht rfl
    obtain ⟨rfl, rfl⟩ := hr₀.slot_inj hx₀ hp (by rw [hx])
    cases hlook : r.readyTx.lookup y with
    | none => rfl
    | some x' =>
      rw [hi.tx_eq hx₀ hlook] at hfol
      exact absurd (hi.listed y x' _ h t hlook hx₀ ht hgone hfol hunl) List.not_mem_nil

end

end BaseAnvil.Pool

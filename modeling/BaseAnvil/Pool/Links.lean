import BaseAnvil.Pool.Exec
import BaseAnvil.Pool.Woken

/-!
# BaseAnvil.Pool.Links

The `unlocks` lists of the ready half. `LinksSound` says that every entry is a
ready transaction that waits for the one it is listed by, listed once.

`prune_tags` keeps this. `remove_with_markers` does not: it leaves the removed
hash with the provider of its required marker (what it takes out instead is the
provider's own hash, which is not there). So a link becomes stale whenever a
listed transaction goes while the transaction that lists it stays, be it by a
removal or because it was replaced. `KeepsLinks` is the condition on a step under
which this does not happen.
-/

namespace BaseAnvil.Pool

open Lib PoolInner ReadyTransactions PoolTransaction

/-- The links are sound: `unlocks` has no duplicates, and names only ready transactions that require
what its transaction provides. -/
structure LinksSound (r : ReadyTransactions) : Prop where
  nodup : ∀ h p, r.readyTx.lookup h = some p → p.unlocks.Nodup
  follows : ∀ h p, r.readyTx.lookup h = some p → ∀ x ∈ p.unlocks,
    ∃ t, r.readyTx.lookup x = some t ∧ t.tx.Follows p.tx

/-- Some ready transaction lists `h`. -/
def Listed (r : ReadyTransactions) (h : TxHash) : Prop :=
  ∃ y p, r.readyTx.lookup y = some p ∧ h ∈ p.unlocks

theorem linksSound_of_empty {r : ReadyTransactions} (h : r.readyTx = ∅) : LinksSound r := by
  refine ⟨?_, ?_⟩ <;> intro x p hp <;> simp [h] at hp

variable {h : TxHash} {tx : PoolTransaction} {t : ReadyTransaction} {L : List TxHash}

namespace LinksSound

variable {r r' : ReadyTransactions} {p : ReadyTransaction}

/-- No transaction lists itself. -/
theorem not_own (hl : LinksSound r) (hr : ReadyCore r) (hp : r.readyTx.lookup h = some p) :
    h ∉ p.unlocks := by
  intro hmem
  obtain ⟨t, ht, hfol⟩ := hl.follows h p hp h hmem
  rw [hp] at ht
  cases ht
  exact (hr.marked h p hp).not_follows_self hfol

/-- A transaction is listed by one other at most. -/
theorem lister_unique (hl : LinksSound r) (hr : ReadyCore r) {h' x : TxHash} {p' : ReadyTransaction}
    (hp : r.readyTx.lookup h = some p) (hp' : r.readyTx.lookup h' = some p') (hx : x ∈ p.unlocks)
    (hx' : x ∈ p'.unlocks) : h = h' := by
  obtain ⟨t, ht, hfol⟩ := hl.follows h p hp x hx
  obtain ⟨t', ht', hfol'⟩ := hl.follows h' p' hp' x hx'
  rw [ht] at ht'
  cases ht'
  refine (hr.slot_inj hp hp' ?_).1
  exact (hr.marked x t ht).eq_of_mem_requires hfol' hfol

/-! ### Pruning keeps the links -/

theorem prunedOne (hl : LinksSound r) (ht : r.readyTx.lookup h = some t) (hp : PrunedOne r h t r') :
    LinksSound r' := by
  refine ⟨?_, ?_⟩
  · intro y x' hx'
    obtain ⟨-, x, hx, rfl⟩ := hp.of_some hx'
    have hnodup := hl.nodup y x hx
    unfold afterPrune
    split
    · exact (swapRemoveItem_perm _ _).nodup_iff.mpr (hnodup.erase h)
    · exact hnodup
  · intro y x' hx' z hz
    obtain ⟨-, x, hx, rfl⟩ := hp.of_some hx'
    obtain ⟨tz, htz, hfol⟩ := hl.follows y x hx z (mem_of_mem_afterPrune hz)
    have hzh : z ≠ h := by
      intro heq
      subst heq
      rw [ht] at htz
      cases htz
      rw [Follows] at hfol
      unfold afterPrune at hz
      rw [if_pos hfol, (swapRemoveItem_perm _ _).mem_iff] at hz
      exact (List.Nodup.not_mem_erase (hl.nodup y x hx)) hz
    exact ⟨_, hp.some_of_ne hzh htz, hfol⟩

variable {txs : List PoolTransaction}

theorem pruneRun (hl : LinksSound r) (hr : ReadyWf r) {ms : List TxMarker}
    (hrun : PruneRun r ms txs r') : LinksSound r' :=
  hrun.invariant (J := LinksSound)
    (fun _ _ _ _ hl ht hone => hl.prunedOne ht hone) hr hl

/-! ### Removal and insertion keep them conditionally -/

theorem cleared (hl : LinksSound r) (hr : ReadyCore r) (hc : Cleared r L txs r')
    (hkeep : ∀ h ∈ L, ∀ y p, r.readyTx.lookup y = some p → h ∈ p.unlocks →
      UnlockReach r.readyTx L y) : LinksSound r' := by
  -- what is listed by a transaction that stays is not reached
  have hstay : ∀ y p, r.readyTx.lookup y = some p → ¬ UnlockReach r.readyTx L y →
      ∀ x ∈ p.unlocks, ¬ UnlockReach r.readyTx L x := by
    intro y p hp hnot x hx hreach
    cases hreach with
    | start hmem _ => exact hnot (hkeep x hmem y p hp hx)
    | @step z _ tz _ hz htz hmem _ =>
      have heq := hl.lister_unique hr htz hp hmem hx
      subst heq
      exact hnot hz
  have hsame : ∀ y p', r'.readyTx.lookup y = some p' →
      r.readyTx.lookup y = some p' ∧ ¬ UnlockReach r.readyTx L y := by
    intro y p' hp'
    obtain ⟨hnot, p, hp, hown⟩ := hc.of_some hp'
    have heq := hown.eq (hl.not_own hr hp)
    subst heq
    exact ⟨hp, hnot⟩
  refine ⟨?_, ?_⟩
  · intro y p' hp'
    exact hl.nodup y p' (hsame y p' hp').1
  · intro y p' hp' x hx
    obtain ⟨hp, hnot⟩ := hsame y p' hp'
    obtain ⟨t, ht, hfol⟩ := hl.follows y p' hp x hx
    obtain ⟨t', ht', hown⟩ := hc.kept x t ht (hstay y p' hp hnot x hx)
    exact ⟨t', ht', by rw [hown.tx_eq]; exact hfol⟩

theorem inserted (hl : LinksSound r) (hr : ReadyCore r) (hnew : r.readyTx.lookup tx.hash = none)
    (hi : Inserted r tx r') (hfree : ∀ o, r.provider tx.slot = some o → ¬ Listed r o.tx.hash) :
    LinksSound r' := by
  -- a listed transaction is not the one that is replaced
  have hkept : ∀ y p, r.readyTx.lookup y = some p → ∀ x ∈ p.unlocks,
      ∃ t', r'.readyTx.lookup x = some t' ∧ t'.tx.Follows p.tx := by
    intro y p hp x hx
    obtain ⟨t, ht, hfol⟩ := hl.follows y p hp x hx
    have hslot : t.tx.slot ≠ tx.slot := by
      intro heq
      refine hfree t (hr.provider_eq_some.mpr ⟨hr.lookup_hash ht, heq⟩) ⟨y, p, hp, ?_⟩
      rw [hr.hash x t ht]
      exact hx
    obtain ⟨t₁, ht₁, hown⟩ := hi.kept x t ht hslot
    exact ⟨_, ht₁, by rw [linkTo_tx, hown.tx_eq]; exact hfol⟩
  have hcases : ∀ y p', r'.readyTx.lookup y = some p' →
      (y = tx.hash ∧ p' = r.newEntry tx) ∨
        ∃ p, r.readyTx.lookup y = some p ∧ p' = p.linkTo tx := by
    intro y p' hp'
    rcases hi.of_some hp' with hnew | ⟨p, p₁, hp, -, hown, rfl⟩
    · exact Or.inl hnew
    · rw [hown.eq (hl.not_own hr hp)]
      exact Or.inr ⟨p, hp, rfl⟩
  refine ⟨?_, ?_⟩
  · intro y p' hp'
    rcases hcases y p' hp' with ⟨-, rfl⟩ | ⟨p, hp, rfl⟩
    · cases ho : r.provider tx.slot with
      | none => simp [newEntry, inherited, ho]
      | some o => simpa [newEntry, inherited, ho] using hl.nodup _ o (hr.provider_eq_some.mp ho).1
    · unfold ReadyTransaction.linkTo
      split
      · refine List.nodup_append.mpr ⟨hl.nodup y p hp, List.nodup_singleton _, ?_⟩
        intro a ha b hb hab
        rw [List.mem_singleton] at hb
        subst hb hab
        obtain ⟨t, ht, -⟩ := hl.follows y p hp _ ha
        rw [hnew] at ht
        cases ht
      · exact hl.nodup y p hp
  · intro y p' hp' x hx
    rcases hcases y p' hp' with ⟨-, rfl⟩ | ⟨p, hp, rfl⟩
    · obtain ⟨o, ho, hx⟩ := mem_newEntry_unlocks.mp hx
      obtain ⟨hlook, hslot⟩ := hr.provider_eq_some.mp ho
      obtain ⟨t', ht', hfol⟩ := hkept _ o hlook x hx
      rw [Follows, hslot] at hfol
      exact ⟨t', ht', hfol⟩
    · rw [linkTo_tx]
      rcases mem_linkTo_unlocks.mp hx with hx | ⟨hfol, rfl⟩
      · exact hkept y p hp x hx
      · exact ⟨_, hi.new, hfol⟩

end LinksSound

/-! ### Cascades -/

/-- Members of `U` for the same (sender, nonce) offer the same fee. -/
def EqualFees (U : PoolTransaction → Prop) : Prop :=
  ∀ x y, U x → U y → x.slot = y.slot → x.maxFeePerGas = y.maxFeePerGas

/-- No member of `U` can replace a listed transaction. -/
def Outbid (U : PoolTransaction → Prop) (r : ReadyTransactions) : Prop :=
  ∀ x, U x → ∀ o, r.provider x.slot = some o → Listed r o.tx.hash →
    x.maxFeePerGas ≤ o.tx.maxFeePerGas

structure LinkInv (p₀ : PendingTransactions) (U : PoolTransaction → Prop) (c : Config) : Prop
    extends Fed p₀ U c where
  links : LinksSound c.1.readyTransactions
  outbid : Outbid U c.1.readyTransactions

/-- Inserting adds one link at most, to the transaction inserted. -/
theorem Inserted.listed {r r' : ReadyTransactions} (hr : ReadyCore r) (hi : Inserted r tx r')
    (hl : Listed r' h) : Listed r h ∨ h = tx.hash := by
  obtain ⟨y, p', hp', hmem⟩ := hl
  rcases hi.of_some hp' with ⟨-, rfl⟩ | ⟨p, p₁, hp, -, hown, rfl⟩
  · obtain ⟨o, ho, hmem⟩ := mem_newEntry_unlocks.mp hmem
    exact Or.inl ⟨_, o, (hr.provider_eq_some.mp ho).1, hmem⟩
  · rcases mem_linkTo_unlocks.mp hmem with hmem | ⟨-, heq⟩
    · exact Or.inl ⟨y, p, hp, hown.subset _ hmem⟩
    · exact Or.inr heq

section

variable {U : PoolTransaction → Prop} {p₀ : PendingTransactions} {ord : HashOrder}

theorem LinkInv.step {c c' : Config} {e : Event} (hU : WakesWithin p₀ U) (hfee : EqualFees U)
    (hi : LinkInv p₀ U c) (hs : AbsorbStep ord c e c') : LinkInv p₀ U c' := by
  have hfed := hi.toFed.step hU hs
  obtain ⟨⟨hinv, hloose, -⟩, hlinks, hout⟩ := hi
  cases hs with
  | @enter s L L' rest u r p hperm hpay hins _ _ =>
    have hmem := hperm.mem_iff.mpr List.mem_cons_self
    have hcore := hins.core hinv.pool.ready.toReadyCore (hinv.loose.marked u hmem)
    refine ⟨hfed, ?_, ?_⟩
    · refine hlinks.inserted hinv.pool.ready.toReadyCore (hinv.loose.notReady u hmem) hins ?_
      intro o ho hlisted
      exact absurd (hout u.transaction (hloose u hmem) o ho hlisted)
        (Nat.not_le.mpr (hpay o ho))
    · intro x hx o ho hlisted
      obtain ⟨hlook, hslot⟩ := hcore.provider_eq_some.mp ho
      rcases hins.of_some hlook with ⟨-, heq⟩ | ⟨t, t₁, ht, -, hown, heq⟩
      · -- the new entry is listed; whoever competes with it pays the same
        subst heq
        exact Nat.le_of_eq (hfee x u.transaction hx (hloose u hmem) hslot.symm)
      · have htx : o.tx = t.tx := by rw [heq, linkTo_tx, hown.tx_eq]
        rw [htx] at hlisted ht hslot ⊢
        refine hout x hx t (hinv.pool.ready.provider_eq_some.mpr ⟨ht, hslot⟩) ?_
        refine (hins.listed hinv.pool.ready.toReadyCore hlisted).resolve_right ?_
        intro heq'
        rw [heq', hinv.loose.notReady u hmem] at ht
        cases ht
  | refuse _ _ _ _ => exact ⟨hfed, hlinks, hout⟩

theorem Outbid.prunedOne {r r' : ReadyTransactions} (hr : ReadyCore r)
    (ht : r.readyTx.lookup h = some t) (hp : PrunedOne r h t r') (hout : Outbid U r) :
    Outbid U r' := by
  intro x hx o' ho' hlisted
  obtain ⟨o, ho, rfl⟩ := hp.provider hr ht ho'
  obtain ⟨y, p', hp', hmem⟩ := hlisted
  obtain ⟨-, p, hpp, rfl⟩ := hp.of_some hp'
  exact hout x hx o ho ⟨y, p, hpp, mem_of_mem_afterPrune hmem⟩

theorem LinkInv.pruneStep {c c' : Config} {l : TxMarker × List PoolTransaction}
    (hU : ∀ h w, p₀.waitingQueue.lookup h = some w → l.1 ∈ w.transaction.requires → U w.transaction)
    (hi : LinkInv p₀ U c) (hs : PruneStep ord c l c') : LinkInv p₀ U c' := by
  have hfed := hi.toFed.pruneStep hU hs
  obtain ⟨⟨hinv, -, -⟩, hlinks, hout⟩ := hi
  cases hs with
  | mk _ hrun _ =>
    refine ⟨hfed, hlinks.pruneRun hinv.pool.ready hrun, ?_⟩
    exact hrun.invariant (J := Outbid U)
      (fun _ _ _ hr hout ht hone => hout.prunedOne hr.toReadyCore ht hone) hinv.pool.ready hout

end

variable {s : PoolInner}

/-- A ready transaction that competes with a queued one is not listed: what they
both require is waited for, so nobody provides it. -/
theorem not_listed_of_queued (hs : PoolInv s) (hl : LinksSound s.readyTransactions)
    {w : PendingPoolTransaction} (hw : s.pendingTransactions.waitingQueue.lookup h = some w)
    {o : ReadyTransaction} (ho : s.readyTransactions.provider w.transaction.slot = some o) :
    ¬ Listed s.readyTransactions o.tx.hash := by
  intro hlisted
  obtain ⟨y, p, hp, hmem⟩ := hlisted
  obtain ⟨hlook, hslot⟩ := hs.ready.provider_eq_some.mp ho
  obtain ⟨t, ht, hfol⟩ := hl.follows y p hp _ hmem
  rw [hlook] at ht
  cases ht
  obtain ⟨m, hm⟩ := hs.pending.exists_requires hw
  -- the transaction that lists it provides the marker that is waited for
  have hps : p.tx.slot = m := by
    rcases (hs.pending.marked h w hw).requires_of_slot_eq (hs.ready.marked _ o hlook) hslot.symm hm
      with hnil | hone
    · rw [Follows, hnil] at hfol
      cases hfol
    · rw [Follows, hone, List.mem_singleton] at hfol
      exact hfol
  have hnone := hs.apart m y ((hs.ready.provided m y).mpr ⟨p, hp, hps⟩)
  exact (hs.pending.lookup_none_iff.mp hnone) h w hw hm

theorem outbid_woken (hs : PoolInv s) (hl : LinksSound s.readyTransactions) (ms : List TxMarker) :
    Outbid (Woken s.pendingTransactions ms) s.readyTransactions := by
  intro x hx o ho hlisted
  obtain ⟨h, w, hw, rfl⟩ := hx.queued
  exact absurd hlisted (not_listed_of_queued hs hl hw ho)

/-! ### Runs that keep the links -/

/-- The step leaves no stale link: a new transaction replaces no listed one,
whatever is woken competes at equal fees only, and what is removed goes together
with the transaction that lists it. -/
def KeepsLinks (s : PoolInner) : PoolOp → Prop
  | .addTransaction tx => s.contains tx.hash = false →
      (∀ m ∈ tx.requires, m ∈ s.readyTransactions.providedMarkers) →
      (∀ o, s.readyTransactions.provider tx.slot = some o →
        o.tx.maxFeePerGas < tx.maxFeePerGas → ¬ Listed s.readyTransactions o.tx.hash) ∧
      EqualFees (Woken s.pendingTransactions [tx.slot])
  | .pruneMarkers ms => EqualFees (Woken s.pendingTransactions ms)
  | op => ∀ L, Targets s op L → ∀ h ∈ L, ∀ y p,
      s.readyTransactions.readyTx.lookup y = some p → h ∈ p.unlocks →
      UnlockReach s.readyTransactions.readyTx L y

theorem KeepsLinks.of_targets {op : PoolOp} (hk : KeepsLinks s op) (ht : Targets s op L) :
    ∀ h ∈ L, ∀ y p, s.readyTransactions.readyTx.lookup y = some p → h ∈ p.unlocks →
      UnlockReach s.readyTransactions.readyTx L y := by
  cases ht with
  | removeInvalid => exact hk _ .removeInvalid
  | removeTransactionsByAddress htxs => exact hk _ (.removeTransactionsByAddress htxs)
  | dropTransaction => exact hk _ .dropTransaction

theorem equalFees_submits {p : PendingTransactions} (hp : PendingWf p)
    (hf : EqualFees (Woken p [tx.slot])) : EqualFees (Submits p tx) := by
  intro x y hx hy hslot
  rcases hx with rfl | hx
  · rcases hy with rfl | hy
    · rfl
    · exact absurd hslot.symm (hy.above hp).slot_ne
  · rcases hy with rfl | hy
    · exact absurd hslot (hx.above hp).slot_ne
    · exact hf x y hx hy hslot

theorem LinksSound.outcome {s' : PoolInner} {op : PoolOp} (hs : PoolInv s)
    (hl : LinksSound s.readyTransactions) (hk : KeepsLinks s op) (h : Outcome s op s') :
    LinksSound s'.readyTransactions := by
  cases h with
  | @add ord tx res s' hm hout =>
    cases hout with
    | contained _ => exact hl
    | underpriced _ => exact hl
    | queued _ _ _ _ _ => exact hl
    | absorbed hc hreq hstep hrun =>
      obtain ⟨hfree, hfee⟩ := hk hc hreq
      have hout : Outbid (Submits s.pendingTransactions tx) s.readyTransactions := by
        intro x hx o ho hlisted
        rcases hx with rfl | hx
        · exact Nat.le_of_not_lt fun hlt => hfree o ho hlt hlisted
        · exact outbid_woken hs hl _ x hx o ho hlisted
      have hall : Absorb ord (s, [s.incoming tx]) _ (s', []) := .cons hstep hrun
      have hend := hall.keeps
        (I := LinkInv s.pendingTransactions (Submits s.pendingTransactions tx))
        ⟨fed_incoming hs hm hc hreq, hl, hout⟩
        fun hi hs' => hi.step (wakesWithin_submits _) (equalFees_submits hs.pending hfee) hs'
      exact hend.links
  | @prune ord ms labels imports s₁ evs s' hlabels hphase hrun =>
    have hwoken : ∀ l ∈ labels, ∀ h w, s.pendingTransactions.waitingQueue.lookup h = some w →
        l.1 ∈ w.transaction.requires → Woken s.pendingTransactions ms w.transaction := by
      intro l hl' h w hw hmem
      refine .direct hw hmem ?_
      rw [← hlabels]
      exact List.mem_map_of_mem hl'
    have hmid : LinkInv s.pendingTransactions (Woken s.pendingTransactions ms) (s₁, imports) :=
      hphase.invariant_mem
        (I := fun _ c => LinkInv s.pendingTransactions (Woken s.pendingTransactions ms) c)
        ⟨fed_nil hs _, hl, outbid_woken hs hl ms⟩
        fun _ _ l _ hl' hi hs' => hi.pruneStep (hwoken l hl') hs'
    have hend := hrun.keeps hmid fun hi hs' => hi.step wakesWithin_woken hk hs'
    exact hend.links
  | remove ht hcl _ _ => exact hl.cleared hs.ready.toReadyCore hcl (hk.of_targets ht)
  | clear => exact linksSound_of_empty rfl

/-- **Links.** No `unlocks` names a transaction that is not ready, in every run whose steps keep the
links: what is replaced or removed is not listed by a transaction that stays. -/
theorem linksSound_of_keepsLinks {ops : List PoolOp} {s : PoolInner}
    (hrun : Run (Guarded KeepsLinks PoolStep) PoolInner.empty ops s) :
    LinksSound s.readyTransactions := by
  refine Run.invariant_of (I := fun _ s => PoolInv s)
    (J := fun _ s => LinksSound s.readyTransactions) ?_ (linksSound_of_empty rfl) ?_ hrun
  · intro ops s hrun
    exact PoolRun.inv hrun.unguard
  · intro _ s op s' hinv hl hs
    exact hl.outcome hinv hs.1 (hs.2.outcome hinv)

/-- Nonce 1 is linked to nonce 0. -/
theorem linksSound_of_keepsLinks_pair :
    ∃ s, Run (Guarded KeepsLinks PoolStep) PoolInner.empty pairOps s ∧
      (s.readyTransactions.readyTx.lookup 1).map (·.unlocks) = some [2] ∧
      LinksSound s.readyTransactions := by
  obtain ⟨s₁, s, hs₁, hs, hpend, hslot, -, hlook⟩ := pair_steps
  have hkeep₁ : KeepsLinks PoolInner.empty (.addTransaction (sampleTx 1 0 0 10)) := by
    intro _ _
    refine ⟨fun o ho => ?_, fun x y hx => absurd hx not_woken_empty⟩
    cases ho
  have hkeep₂ : KeepsLinks s₁ (.addTransaction (sampleTx 2 1 0 10)) := by
    intro _ _
    refine ⟨fun o ho => ?_, fun x y hx => ?_⟩
    · rw [provider, hslot] at ho
      cases ho
    · rw [hpend] at hx
      exact absurd hx not_woken_empty
  have hrun : Run (Guarded KeepsLinks PoolStep) PoolInner.empty pairOps s :=
    .snoc (.snoc .nil ⟨hkeep₁, hs₁⟩) ⟨hkeep₂, hs⟩
  exact ⟨s, hrun, hlook, linksSound_of_keepsLinks hrun⟩

/-- Dropping nonce 1 alone leaves it in the `unlocks` of nonce 0. -/
theorem drop_leaves_stale_link :
    ∃ s p, PoolRun (pairOps ++ [.dropTransaction 2]) s ∧
      s.readyTransactions.readyTx.lookup 1 = some p ∧ 2 ∈ p.unlocks ∧
      s.readyTransactions.readyTx.lookup 2 = none ∧ ¬ LinksSound s.readyTransactions := by
  obtain ⟨s, hrun, h₁, h₂⟩ := run_of_execAll ascendingOrder 0 (pairOps ++ [.dropTransaction 2])
    (fun s => (s.readyTransactions.readyTx.lookup 1).map (·.unlocks) = some [2] ∧
      s.readyTransactions.readyTx.lookup 2 = none)
    (by decide +kernel) (by decide +kernel)
  obtain ⟨p, hp, hunl⟩ := Option.map_eq_some_iff.mp h₁
  have hmem : 2 ∈ p.unlocks := by
    rw [hunl]
    exact List.mem_cons_self
  refine ⟨s, p, hrun, hp, hmem, h₂, fun hl => ?_⟩
  obtain ⟨t, ht, -⟩ := hl.follows 1 p hp 2 hmem
  rw [h₂] at ht
  cases ht

end BaseAnvil.Pool

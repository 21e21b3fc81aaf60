import BaseAnvil.Pool.Account
import BaseAnvil.Pool.History
import BaseAnvil.Pool.Walk

/-!
# BaseAnvil.Pool.Removal

What the three ways to remove transactions leave behind.

A removal is meant to take its targets and every ready transaction that depends on
one of them. The code follows the `unlocks` of the ready transactions instead, and
`drop_transaction` looks at the ready half only. The two agree exactly when the
links of the doomed transactions fit their dependents (`LinksFit`) and, for a drop,
the target is not in the queue. The removal by address needs no condition: the links
never leave the sender.
-/

namespace BaseAnvil.Pool

open PoolInner Finmap

/-! ### Hashes of signed transactions -/

/-- A hash stands for one signed transaction, however often it is submitted. -/
def HashesIdentify (T : List PoolTransaction) : Prop :=
  ∀ a ∈ T, ∀ b ∈ T, a.hash = b.hash → a.pendingTransaction = b.pendingTransaction

theorem PoolRun.submitted_marked {ops : List PoolOp} {s : PoolInner} (h : PoolRun ops s) :
    ∀ t ∈ submitted ops, NonceMarked t := by
  refine h.invariant (I := fun ops _ => ∀ t ∈ submitted ops, NonceMarked t)
    (fun t ht => absurd ht List.not_mem_nil) ?_
  intro ops s op s' hi hs t ht
  rw [submitted_append, List.mem_append] at ht
  rcases ht with ht | ht
  · exact hi t ht
  · cases hs with
    | addTransaction hm _ =>
      rw [List.mem_singleton.mp ht]
      exact hm
    | _ => exact absurd ht List.not_mem_nil

open PoolRun

theorem PoolRun.ascending {ops : List PoolOp} {s : PoolInner} (h : PoolRun ops s)
    (hid : HashesIdentify (submitted ops)) : Ascending s.readyTransactions := by
  intro y p hp x hx t ht
  have htr := traced h
  obtain ⟨t', ht', hhash, hfol⟩ := htr.links y p hp x hx
  have heq := hid _ (htr.ready x t ht) t' ht'
    (((inv h).ready.hash x t ht).trans hhash.symm)
  rw [PoolTransaction.sender, PoolTransaction.nonce, heq]
  exact (submitted_marked h t' ht').nonce_of_follows hfol

/-! ### What a removal should do -/

/-- `x` is ready and requires, directly or through others, what a transaction with
`P` provides. -/
inductive Dependent (s : PoolInner) (P : PoolTransaction → Prop) : PoolTransaction → Prop
  | direct {x y : PoolTransaction} :
      s.Holds y → P y → s.HasReady x → x.Follows y → Dependent s P x
  | chain {x y : PoolTransaction} :
      Dependent s P y → s.HasReady x → x.Follows y → Dependent s P x

/-- The targets in the pool, and what depends on them. -/
def Doomed (s : PoolInner) (P : PoolTransaction → Prop) (x : PoolTransaction) : Prop :=
  (s.Holds x ∧ P x) ∨ Dependent s P x

/-- `s'` is `s` without the doomed transactions. -/
structure Purged (s : PoolInner) (P : PoolTransaction → Prop) (s' : PoolInner) : Prop where
  ready : ∀ x, s'.HasReady x ↔ s.HasReady x ∧ ¬ Doomed s P x
  queued : ∀ x, s'.HasQueued x ↔ s.HasQueued x ∧ ¬ Doomed s P x
  /-- What is left keeps its place. -/
  readyEntry : ∀ h t', s'.readyTransactions.readyTx.lookup h = some t' →
    ∃ t, s.readyTransactions.readyTx.lookup h = some t ∧ t'.transaction = t.transaction ∧
      t'.requiresOffset = t.requiresOffset
  queuedEntry : ∀ h w, s'.pendingTransactions.waitingQueue.lookup h = some w →
    s.pendingTransactions.waitingQueue.lookup h = some w

/-- `removed` lists the doomed transactions, each once. -/
def ListsDoomed (s : PoolInner) (P : PoolTransaction → Prop) (removed : List PoolTransaction) :
    Prop :=
  removed.Nodup ∧ ∀ x, x ∈ removed ↔ Doomed s P x

/-- The operation removes what it should and returns what it removed. -/
def Removes (s : PoolInner) : PoolOp → Prop
  | .dropTransaction h =>
    Purged s (fun x => x.hash = h) (s.dropTransaction h).2 ∧
      ∀ tx, (s.dropTransaction h).1 = some tx ↔ s.Holds tx ∧ tx.hash = h
  | .removeInvalid hs => ∀ ord,
      Purged s (fun x => x.hash ∈ hs) (s.removeInvalid ord hs).2 ∧
        ListsDoomed s (fun x => x.hash ∈ hs) (s.removeInvalid ord hs).1
  | .removeTransactionsByAddress a => ∀ ord, ∃ n, ∀ fuel, n < fuel → ∃ removed s',
      s.removeTransactionsByAddress ord fuel a = some (removed, s') ∧
        Purged s (fun x => x.sender = a) s' ∧ ListsDoomed s (fun x => x.sender = a) removed
  | _ => True

/-- The `unlocks` of the doomed transactions lead to all their dependents and to
nothing else. -/
structure LinksFit (s : PoolInner) (P : PoolTransaction → Prop) : Prop where
  reach : ∀ x, Dependent s P x → ¬ P x → ∃ h p,
    s.readyTransactions.readyTx.lookup h = some p ∧ Doomed s P p.tx ∧ x.hash ∈ p.unlocks
  stay : ∀ h p, s.readyTransactions.readyTx.lookup h = some p → Doomed s P p.tx →
    ∀ y ∈ p.unlocks, ∀ t, s.readyTransactions.readyTx.lookup y = some t → Doomed s P t.tx

/-- When a removal does what it should: a dropped transaction is not queued, and the links lead to
exactly those that depend on the removed ones. The removal of a sender always fits. -/
def RemovalFits (s : PoolInner) : PoolOp → Prop
  | .dropTransaction h =>
    s.pendingTransactions.contains h = false ∧ LinksFit s fun x => x.hash = h
  | .removeInvalid hs => LinksFit s fun x => x.hash ∈ hs
  | _ => True

/-! ### The links decide -/

section

variable {s : PoolInner} {P : PoolTransaction → Prop} {L : List TxHash} {x : PoolTransaction}

theorem Dependent.hasReady (h : Dependent s P x) : s.HasReady x := by
  cases h with
  | direct _ _ hx _ => exact hx
  | chain _ hx _ => exact hx

theorem Doomed.holds (h : Doomed s P x) : s.Holds x := by
  rcases h with ⟨hx, -⟩ | hdep
  · exact hx
  · exact Or.inl hdep.hasReady

variable {y : PoolTransaction}

theorem PoolInv.not_queued (hs : PoolInv s) (hx : s.HasReady x) (hy : s.HasQueued y) :
    x.hash ≠ y.hash := by
  obtain ⟨t, ht, -⟩ := hx
  obtain ⟨w, hw, -⟩ := hy
  intro heq
  rw [heq] at ht
  exact hs.disjoint _ t w ht hw

/-- In the queue only targets are doomed. -/
theorem doomed_of_queued (hs : PoolInv s) (hx : s.HasQueued x) : Doomed s P x ↔ P x := by
  constructor
  · intro hd
    rcases hd with ⟨-, hp⟩ | hdep
    · exact hp
    · exact absurd rfl (hs.not_queued hdep.hasReady hx)
  · exact fun hp => Or.inl ⟨Or.inr hx, hp⟩

/-- The removal reaches what is doomed and nothing else. -/
def ReachesDoomed (s : PoolInner) (P : PoolTransaction → Prop) (L : List TxHash) : Prop :=
  ∀ h t, s.readyTransactions.readyTx.lookup h = some t →
    (UnlockReach s.readyTransactions.readyTx L h ↔ Doomed s P t.tx)

theorem linksFit_iff (hs : PoolInv s) (ha : Ascending s.readyTransactions)
    (hL : ∀ x, s.HasReady x → (x.hash ∈ L ↔ P x)) : LinksFit s P ↔ ReachesDoomed s P L := by
  constructor
  · intro hfit h t ht
    constructor
    · intro hreach
      induction hreach generalizing t with
      | @start h t' hmem ht' =>
        have hx := hs.hasReady ht
        refine Or.inl ⟨Or.inl hx, (hL _ hx).mp ?_⟩
        rw [hs.ready.hash h t ht]
        exact hmem
      | @step h h' p t' _ hp hmem _ ih => exact hfit.stay h p hp (ih p hp) h' hmem t ht
    · -- by the nonce: the transaction that lists a dependent is one nonce below
      intro hd
      induction hn : t.tx.nonce.toNat using Nat.strong_induction_on generalizing h t with
      | _ n ih =>
        have hx := hs.hasReady ht
        have hhash := hs.ready.hash h t ht
        by_cases hp : P t.tx
        · refine .start ?_ ht
          rw [← hhash]
          exact (hL _ hx).mpr hp
        · have hdep : Dependent s P t.tx := hd.resolve_left fun hand => hp hand.2
          obtain ⟨y, p, hlook, hpd, hmem⟩ := hfit.reach t.tx hdep hp
          rw [hhash] at hmem
          have hnonce := (ha y p hlook h hmem t ht).2
          exact .step (ih p.tx.nonce.toNat (by omega) y p hlook hpd rfl) hlook hmem ht
  · intro hreach
    refine ⟨fun x hdep hp => ?_, fun h p hp hd y hy t ht => ?_⟩
    · obtain ⟨t, ht, rfl⟩ := hdep.hasReady
      have hr := (hreach _ t ht).mpr (Or.inr hdep)
      cases hr with
      | start hmem _ => exact absurd ((hL _ hdep.hasReady).mp hmem) hp
      | @step h _ p _ hrp hlook hmem _ =>
        exact ⟨h, p, hlook, (hreach h p hlook).mp hrp, hmem⟩
    · exact (hreach y t ht).mp (.step ((hreach h p hp).mpr hd) hp hy ht)

/-! ### What the removal leaves -/

variable {r : ReadyTransactions} {txs : List PoolTransaction}

section

variable (hc : Cleared s.readyTransactions L txs r)
include hc

theorem Cleared.hasReady_iff (p : PendingTransactions) (x : PoolTransaction) :
    HasReady ⟨r, p⟩ x ↔
      s.HasReady x ∧ ¬ UnlockReach s.readyTransactions.readyTx L x.hash := by
  constructor
  · intro hx
    obtain ⟨t', ht', rfl⟩ := hx
    obtain ⟨hnot, t, ht, hown⟩ := hc.of_some ht'
    exact ⟨⟨t, ht, hown.tx_eq.symm⟩, hnot⟩
  · intro hx
    obtain ⟨⟨t, ht, rfl⟩, hnot⟩ := hx
    obtain ⟨t', ht', hown⟩ := hc.kept _ t ht hnot
    exact ⟨t', ht', hown.tx_eq⟩

theorem Cleared.reachesDoomed_iff (hs : PoolInv s) (p : PendingTransactions) :
    ReachesDoomed s P L ↔
      ∀ x, HasReady ⟨r, p⟩ x ↔ s.HasReady x ∧ ¬ Doomed s P x := by
  constructor
  · intro hreach x
    rw [hc.hasReady_iff]
    refine and_congr_right fun hx => not_congr ?_
    obtain ⟨t, ht, rfl⟩ := hx
    exact hreach _ t ht
  · intro hready h t ht
    have hx := hs.hasReady ht
    have hiff := hready t.tx
    rw [hc.hasReady_iff, hs.ready.hash h t ht] at hiff
    constructor
    · intro hr
      by_contra hd
      exact (hiff.mpr ⟨hx, hd⟩).2 hr
    · intro hd
      by_contra hr
      exact (hiff.mp ⟨hx, hr⟩).2 hd

theorem Cleared.readyEntry :
    ∀ h t', r.readyTx.lookup h = some t' →
      ∃ t, s.readyTransactions.readyTx.lookup h = some t ∧ t'.transaction = t.transaction ∧
        t'.requiresOffset = t.requiresOffset := by
  intro h t' ht'
  obtain ⟨-, t, ht, hown⟩ := hc.of_some ht'
  exact ⟨t, ht, hown.transaction, hown.requiresOffset⟩

end

variable {txs' : List PoolTransaction} {p : PendingTransactions}

/-- The queue loses exactly the targets. -/
theorem Dropped.hasQueued_iff (hs : PoolInv s) (hL : ∀ x, s.Holds x → (x.hash ∈ L ↔ P x))
    (hd : Dropped s.pendingTransactions L txs' p) (x : PoolTransaction) :
    HasQueued ⟨r, p⟩ x ↔ s.HasQueued x ∧ ¬ Doomed s P x := by
  show (∃ w, p.waitingQueue.lookup x.hash = some w ∧ w.transaction = x) ↔ _
  rw [hd.queue]
  constructor
  · intro hex
    obtain ⟨w, hw, hwx⟩ := hex
    split at hw
    · cases hw
    · rename_i hmem
      have hx : s.HasQueued x := ⟨w, hw, hwx⟩
      rw [doomed_of_queued hs hx, ← hL x (Or.inr hx)]
      exact ⟨hx, hmem⟩
  · intro hand
    obtain ⟨hx, hnot⟩ := hand
    rw [doomed_of_queued hs hx, ← hL x (Or.inr hx)] at hnot
    rw [if_neg hnot]
    exact hx

/-- A removal from both halves is right iff it reaches what is doomed. -/
theorem removal_iff (hs : PoolInv s) (hL : ∀ x, s.Holds x → (x.hash ∈ L ↔ P x))
    (hc : Cleared s.readyTransactions L txs r) (hd : Dropped s.pendingTransactions L txs' p) :
    Purged s P ⟨r, p⟩ ∧ ListsDoomed s P (txs ++ txs') ↔ ReachesDoomed s P L := by
  constructor
  · intro hand
    exact (hc.reachesDoomed_iff hs p).mpr hand.1.ready
  · intro hreach
    refine ⟨⟨(hc.reachesDoomed_iff hs p).mp hreach, hd.hasQueued_iff hs hL, hc.readyEntry,
      fun h w hw => hd.of_queue hw⟩, ?_, fun x => ?_⟩
    · refine List.nodup_append.mpr ⟨hc.nodup.of_map _, hd.nodup.of_map _, ?_⟩
      intro a ha b hb hab
      obtain ⟨t, ht, -, -⟩ := (hc.removed a).mp ha
      obtain ⟨w, hw, -, -⟩ := (hd.removed b).mp hb
      rw [hab] at ht
      exact hs.disjoint _ t w ht hw
    · rw [List.mem_append, hc.removed, hd.removed]
      constructor
      · intro hor
        rcases hor with ⟨t, ht, rfl, hr⟩ | ⟨w, hw, heq, hmem⟩
        · exact (hreach _ t ht).mp hr
        · have hx : s.HasQueued x := ⟨w, hw, heq.symm⟩
          exact (doomed_of_queued hs hx).mpr ((hL x (Or.inr hx)).mp hmem)
      · intro hdm
        rcases hdm.holds with hx | hx
        · obtain ⟨t, ht, rfl⟩ := hx
          exact Or.inl ⟨t, ht, rfl, (hreach _ t ht).mpr hdm⟩
        · obtain ⟨w, hw, heq⟩ := id hx
          exact Or.inr ⟨w, hw, heq.symm,
            (hL x (Or.inr hx)).mpr ((doomed_of_queued hs hx).mp hdm)⟩

/-- A drop is right iff it reaches what is doomed and its target is not queued. -/
theorem drop_iff (hs : PoolInv s) (h : TxHash) :
    Removes s (.dropTransaction h) ↔
      s.pendingTransactions.contains h = false ∧ ReachesDoomed s (fun x => x.hash = h) [h] := by
  obtain ⟨hc, -⟩ := removeWithMarkers_none_spec hs.ready [h]
  have hreach := hc.reachesDoomed_iff (P := fun x => x.hash = h) hs s.pendingTransactions
  have hcont : s.pendingTransactions.contains h = false ↔
      s.pendingTransactions.waitingQueue.lookup h = none := by
    simp [PendingTransactions.contains, ← lookup_eq_none]
  rw [hcont]
  constructor
  · intro hrem
    obtain ⟨hpurged, -⟩ := hrem
    refine ⟨?_, hreach.mpr hpurged.ready⟩
    cases hw : s.pendingTransactions.waitingQueue.lookup h with
    | none => rfl
    | some w =>
      have hx := hs.hasQueued hw
      exact absurd ((doomed_of_queued hs hx).mpr (hs.pending.hash h w hw))
        ((hpurged.queued _).mp hx).2
  · intro hand
    obtain ⟨hnone, hr⟩ := hand
    have hfree : ∀ x, s.HasQueued x → x.hash ≠ h := by
      intro x hx heq
      obtain ⟨w, hw, -⟩ := hx
      rw [heq, hnone] at hw
      cases hw
    refine ⟨⟨hreach.mp hr, fun x => ⟨fun hx => ⟨hx, ?_⟩, fun hx => hx.1⟩, hc.readyEntry,
      fun _ _ hw => hw⟩, fun tx => ⟨fun hfind => ?_, fun hx => ?_⟩⟩
    · rw [doomed_of_queued hs hx]
      exact hfree x hx
    · obtain ⟨t, ht, rfl, -⟩ := (hc.removed tx).mp (List.mem_of_find?_eq_some hfind)
      exact ⟨Or.inl ⟨t, ht, rfl⟩, by simpa using List.find?_some hfind⟩
    · obtain ⟨hholds, hhash⟩ := hx
      obtain ⟨t, ht, rfl⟩ := hholds.resolve_right fun hq => hfree _ hq hhash
      have hmem := (hc.removed t.tx).mpr ⟨t, ht, rfl, .start (by simp [hhash]) ht⟩
      show List.find? (fun t => decide (t.hash = h)) _ = some t.tx
      cases hfind : List.find? (fun t => decide (t.hash = h))
          (s.readyTransactions.removeWithMarkers [h] none).1 with
      | none =>
        have := List.find?_eq_none.mp hfind _ hmem
        simp [hhash] at this
      | some tx' =>
        have hhash' : tx'.hash = h := by simpa using List.find?_some hfind
        obtain ⟨t', ht', heq, -⟩ := (hc.removed tx').mp (List.mem_of_find?_eq_some hfind)
        rw [hhash', ← hhash, ht] at ht'
        cases ht'
        rw [heq]

/-! ### Removal by address -/

variable (hs : PoolInv s)
include hs

/-- Dependents have the sender of what they depend on. -/
theorem Dependent.sender_eq {a : Address} (h : Dependent s (fun x => x.sender = a) x) :
    x.sender = a := by
  have hr := hs.ready.toReadyCore
  induction h with
  | direct _ hp hx hfol => exact ((hx.marked hr).nonce_of_follows hfol).1.trans hp
  | chain _ hx hfol ih => exact ((hx.marked hr).nonce_of_follows hfol).1.trans ih

theorem linksFit_sender (ha : Ascending s.readyTransactions) (a : Address) :
    LinksFit s fun x => x.sender = a := by
  refine ⟨fun x hdep hne => absurd (hdep.sender_eq hs) hne, fun h p hp hd y hy t ht => ?_⟩
  have hpa : p.tx.sender = a := hd.elim (fun hand => hand.2) fun hdep => hdep.sender_eq hs
  exact Or.inl ⟨Or.inl (hs.hasReady ht), (ha h p hp y hy t ht).1.trans hpa⟩

theorem mem_pending_transactions (ord : HashOrder) :
    x ∈ s.pendingTransactions.transactions ord ↔ s.HasQueued x := by
  rw [PendingTransactions.transactions, List.mem_filterMap]
  constructor
  · intro hex
    obtain ⟨h, -, hmap⟩ := hex
    obtain ⟨w, hw, rfl⟩ := Option.map_eq_some_iff.mp hmap
    exact hs.hasQueued hw
  · intro hx
    obtain ⟨w, hw, rfl⟩ := hx
    refine ⟨_, (ord.hashes.mem_toList _ _).mpr ?_, by rw [hw]; rfl⟩
    exact mem_keys.mpr (mem_iff.mpr ⟨w, hw⟩)

theorem holds_inj (hx : s.Holds x) (hy : s.Holds y) (heq : x.hash = y.hash) : x = y := by
  rcases hx with hx | hx <;> rcases hy with hy | hy
  · obtain ⟨t, ht, rfl⟩ := hx
    obtain ⟨t', ht', rfl⟩ := hy
    rw [heq, ht'] at ht
    cases ht
    rfl
  · exact absurd heq (hs.not_queued hx hy)
  · exact absurd heq.symm (hs.not_queued hy hx)
  · obtain ⟨w, hw, rfl⟩ := hx
    obtain ⟨w', hw', rfl⟩ := hy
    rw [heq, hw'] at hw
    cases hw
    rfl

theorem removes_byAddress (hi : Indexed s.readyTransactions) (ha : Ascending s.readyTransactions)
    (a : Address) : Removes s (.removeTransactionsByAddress a) := by
  obtain ⟨n, l, hl, hmem⟩ := collect_complete hs.ready hi ha
  intro ord
  refine ⟨n, fun fuel hfuel => ?_⟩
  have htxs : s.transactionsBySender ord fuel a = some
      ((s.pendingTransactions.transactions ord).filter (·.sender = a) ++
        l.filter (·.sender = a)) := by
    rw [transactionsBySender, hl fuel hfuel]
    rfl
  generalize hT : (s.pendingTransactions.transactions ord).filter (·.sender = a) ++
    l.filter (·.sender = a) = T at htxs
  have hmemT : ∀ x, x ∈ T ↔ s.Holds x ∧ x.sender = a := by
    intro x
    rw [← hT, List.mem_append, List.mem_filter, List.mem_filter, mem_pending_transactions hs, hmem,
      decide_eq_true_eq, ← or_and_right, or_comm]
    exact Iff.rfl
  have hL : ∀ x, s.Holds x → (x.hash ∈ T.map (·.hash) ↔ x.sender = a) := by
    intro x hx
    rw [List.mem_map]
    constructor
    · intro hex
      obtain ⟨y, hy, hhash⟩ := hex
      obtain ⟨hyh, hya⟩ := (hmemT y).mp hy
      rw [← holds_inj hs hyh hx hhash]
      exact hya
    · exact fun hxa => ⟨x, (hmemT x).mpr ⟨hx, hxa⟩, rfl⟩
  obtain ⟨txs, txs', r, p, heq, hc, -, hd⟩ := removeInvalid_spec ord hs (T.map (·.hash))
  refine ⟨txs ++ txs', ⟨r, p⟩, ?_, (removal_iff hs hL hc hd).mpr ?_⟩
  · rw [removeTransactionsByAddress, htxs, Option.map_some, heq]
  · exact (linksFit_iff hs ha fun x hx => hL x (Or.inl hx)).mp (linksFit_sender hs ha a)

end

/-! ### When a removal is complete -/

/-- **Removal.** In every pool that can be reached, a removal does what it should exactly when the
links of the doomed transactions fit and a dropped transaction is not queued. -/
theorem removes_iff_fits {ops : List PoolOp} {s : PoolInner} (hrun : PoolRun ops s)
    (hid : HashesIdentify (submitted ops)) (hlen : (submitted ops).length ≤ 2 ^ 64) (op : PoolOp) :
    Removes s op ↔ RemovalFits s op := by
  have hs := inv hrun
  have ha := ascending hrun hid
  cases op with
  | dropTransaction h =>
    rw [drop_iff hs, RemovalFits, linksFit_iff hs ha]
    intro x _
    exact List.mem_singleton
  | removeInvalid hashes =>
    have hL : ∀ x, s.Holds x → (x.hash ∈ hashes ↔ x.hash ∈ hashes) := fun _ _ => Iff.rfl
    rw [RemovalFits, linksFit_iff hs ha fun x hx => hL x (Or.inl hx)]
    have hone : ∀ ord, Purged s (fun x => x.hash ∈ hashes) (s.removeInvalid ord hashes).2 ∧
        ListsDoomed s (fun x => x.hash ∈ hashes) (s.removeInvalid ord hashes).1 ↔
        ReachesDoomed s (fun x => x.hash ∈ hashes) hashes := by
      intro ord
      obtain ⟨txs, txs', r, p, heq, hc, -, hd⟩ := removeInvalid_spec ord hs hashes
      rw [heq]
      exact removal_iff hs hL hc hd
    exact ⟨fun hrem => (hone ascendingOrder).mp (hrem ascendingOrder),
      fun hreach ord => (hone ord).mpr hreach⟩
  | removeTransactionsByAddress a =>
    obtain ⟨n, hn, -⟩ := counted hrun hlen
    exact ⟨fun _ => trivial, fun _ => removes_byAddress hs hn.indexed ha a⟩
  | addTransaction _ => exact Iff.rfl
  | pruneMarkers _ => exact Iff.rfl
  | clear => exact Iff.rfl

/-- The removal of the sender of nonces 0 and 1. -/
theorem removes_iff_fits_pair :
    ∃ s, PoolRun pairOps s ∧ HashesIdentify (submitted pairOps) ∧
      (submitted pairOps).length ≤ 2 ^ 64 ∧ s.readyTransactions.contains 1 = true ∧
      Removes s (.removeTransactionsByAddress 1) := by
  obtain ⟨s, hrun, hP⟩ := run_of_execAll ascendingOrder 0 pairOps
    (fun s => s.readyTransactions.contains 1) (by decide +kernel) (by decide +kernel)
  have hid : HashesIdentify (submitted pairOps) := by
    show ∀ a ∈ submitted pairOps, ∀ b ∈ submitted pairOps, _
    decide +kernel
  have hlen : (submitted pairOps).length ≤ 2 ^ 64 := by decide +kernel
  exact ⟨s, hrun, hid, hlen, hP,
    (removes_iff_fits hrun hid hlen (.removeTransactionsByAddress 1)).mpr trivial⟩

/-- A queued transaction survives its drop, which returns nothing. -/
theorem drop_ignores_queue :
    ∃ s, PoolRun [.addTransaction (sampleTx 1 1 0 10)] s ∧
      s.pendingTransactions.contains 1 = true ∧ (s.dropTransaction 1).1 = none ∧
      (s.dropTransaction 1).2.pendingTransactions.contains 1 = true ∧
      ¬ Removes s (.dropTransaction 1) := by
  obtain ⟨s, hrun, hq, hnone⟩ := run_of_execAll ascendingOrder 0
    [.addTransaction (sampleTx 1 1 0 10)]
    (fun s => s.pendingTransactions.contains 1 = true ∧ (s.dropTransaction 1).1 = none)
    (by decide +kernel) (by decide +kernel)
  refine ⟨s, hrun, hq, hnone, hq, fun hrem => ?_⟩
  have hfit := (drop_iff (inv hrun) 1).mp hrem
  rw [hq] at hfit
  cases hfit.1

end BaseAnvil.Pool

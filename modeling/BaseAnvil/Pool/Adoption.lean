import BaseAnvil.Pool.Exec
import BaseAnvil.Pool.History
import BaseAnvil.Pool.Woken

/-!
# BaseAnvil.Pool.Adoption

A ready transaction may require a marker that nobody provides: its predecessor was
mined. Such a marker is an orphan (`OrphanedIn`), and the transaction is
independent. If a transaction that provides an orphan becomes ready after all (the
chain was rolled back and the predecessor's nonce is used again), nothing links the
two: the pool does not adopt the orphans, and goes on treating the transaction as
independent.

`CountsRight` says that this has not happened. Every operation but an adoption
keeps it, and with it the representation invariant `RepInv` holds.
-/

namespace BaseAnvil.Pool

open Lib PoolInner Finmap PoolRun ReadyTransaction

/-- A ready transaction requires `m` and nobody provides it. -/
def OrphanedIn (r : ReadyTransactions) (m : TxMarker) : Prop :=
  r.providedMarkers.lookup m = none ∧ ∃ h t, r.readyTx.lookup h = some t ∧ m ∈ t.tx.requires

/-- What a transaction that counts on nobody requires is not provided. -/
def CountsRight (r : ReadyTransactions) : Prop :=
  ∀ h t, r.readyTx.lookup h = some t → t.tx.requires.length ≤ t.requiresOffset →
    ∀ m ∈ t.tx.requires, r.providedMarkers.lookup m = none

/-- The orphans of `r` are orphans of `r₀` or among the markers `B`. -/
def OrphansWithin (r₀ : ReadyTransactions) (B : List TxMarker) (r : ReadyTransactions) : Prop :=
  ∀ m, OrphanedIn r m → OrphanedIn r₀ m ∨ m ∈ B

variable {r : ReadyTransactions} {h : TxHash}

/-- With right counts, a transaction is linked from the provider of what it requires. -/
theorem CountsRight.listed (hc : CountsRight r) (hr : ReadyWf r) {h' : TxHash}
    {t p : ReadyTransaction} (ht : r.readyTx.lookup h = some t) (hp : r.readyTx.lookup h' = some p)
    (hfol : t.tx.Follows p.tx) : h ∈ p.unlocks := by
  have hprov := (hr.provided p.tx.slot h').mpr ⟨p, hp, rfl⟩
  have hlt : t.requiresOffset < t.tx.requires.length := by
    refine Nat.lt_of_not_le fun hle => ?_
    have hnone := hc h t ht hle _ hfol
    rw [hprov] at hnone
    cases hnone
  obtain ⟨y, q, hq, hfol', hmem⟩ := hr.linked h t ht hlt
  obtain ⟨rfl, rfl⟩ := hr.slot_inj hq hp ((hr.marked h t ht).eq_of_mem_requires hfol hfol')
  exact hmem

/-! ### Cascades -/

structure AdoptInv (r₀ : ReadyTransactions) (B : List TxMarker) (p₀ : PendingTransactions)
    (U : PoolTransaction → Prop) (c : Config) : Prop extends Fed p₀ U c where
  counts : CountsRight c.1.readyTransactions
  orphans : OrphansWithin r₀ B c.1.readyTransactions
  covered : ∀ u ∈ c.2, ∀ m ∈ u.transaction.requires,
    m ∈ c.1.readyTransactions.providedMarkers ∨ m ∈ B

/-- No member of `U` provides an orphan of `r₀`, or a marker of `B`. -/
def AdoptsNone (r₀ : ReadyTransactions) (B : List TxMarker) (U : PoolTransaction → Prop) : Prop :=
  ∀ x, U x → x.slot ∉ B ∧ ¬ OrphanedIn r₀ x.slot

variable {r' : ReadyTransactions}

theorem CountsRight.inserted {tx : PoolTransaction} (hm : NonceMarked tx) (hi : Inserted r tx r')
    (hc : CountsRight r) (horphan : ¬ OrphanedIn r tx.slot) : CountsRight r' := by
  intro h t' ht' hlen m hmem
  rw [hi.provided]
  rcases hi.of_some ht' with ⟨-, rfl⟩ | ⟨t, t₁, ht, -, hown, rfl⟩
  · -- none of what it requires is provided, and it does not provide that itself
    have hlen : tx.requires.length ≤ r.inherentCount tx := hlen
    have hall := List.countP_eq_length.mp (Nat.le_antisymm List.countP_le_length hlen)
    have hnone : m ∉ r.providedMarkers := by simpa using hall m hmem
    have hne : m ≠ tx.slot := by
      intro heq
      subst heq
      exact hm.not_follows_self hmem
    rw [if_neg hne]
    exact lookup_eq_none.mpr hnone
  · rw [linkTo_tx, hown.tx_eq] at hlen hmem
    rw [linkTo_requiresOffset, hown.requiresOffset] at hlen
    have hnone := hc h t ht hlen m hmem
    rw [if_neg]
    · exact hnone
    · intro heq
      subst heq
      exact horphan ⟨hnone, h, t, ht, hmem⟩

variable {r₀ : ReadyTransactions} {B : List TxMarker}
  {U : PoolTransaction → Prop} {p₀ : PendingTransactions} {ord : HashOrder}

theorem AdoptInv.step {c c' : Config} {e : Event} (hU : WakesWithin p₀ U)
    (hnone : AdoptsNone r₀ B U) (hi : AdoptInv r₀ B p₀ U c) (hs : AbsorbStep ord c e c') :
    AdoptInv r₀ B p₀ U c' := by
  have hfed := hi.toFed.step hU hs
  obtain ⟨⟨hinv, hloose, -⟩, hcounts, horph, hcov⟩ := hi
  cases hs with
  | @enter s L L' rest u r p hperm hpay hins hunl hperm' =>
    have hmem : ∀ x, x ∈ u :: rest → x ∈ L := fun x hx => hperm.mem_iff.mpr hx
    have hu := hmem u List.mem_cons_self
    have hum := hinv.loose.marked u hu
    have hnot : ¬ OrphanedIn s.readyTransactions u.transaction.slot := by
      intro ho
      obtain ⟨hB, h₀⟩ := hnone _ (hloose u hu)
      rcases horph _ ho with h | h
      · exact h₀ h
      · exact hB h
    have hgrow : ∀ m, m ∈ s.readyTransactions.providedMarkers → m ∈ r.providedMarkers := by
      intro m hm
      obtain ⟨h, hh⟩ := mem_iff.mp hm
      refine mem_iff.mpr ?_
      rw [hins.provided]
      split
      · exact ⟨_, rfl⟩
      · exact ⟨h, hh⟩
    refine ⟨hfed, hcounts.inserted hum hins hnot, ?_, ?_⟩
    · intro m hm
      obtain ⟨hnoprov, h, t', ht', hreq⟩ := hm
      have hout : m ∉ s.readyTransactions.providedMarkers := fun hin =>
        lookup_eq_none.mp hnoprov (hgrow m hin)
      rcases hins.of_some ht' with ⟨-, rfl⟩ | ⟨t, t₁, ht, -, hown, rfl⟩
      · exact Or.inr ((hcov u hu m hreq).resolve_left hout)
      · rw [linkTo_tx, hown.tx_eq] at hreq
        exact horph m ⟨lookup_eq_none.mpr hout, h, t, ht, hreq⟩
    · intro x hx m hm
      rcases List.mem_append.mp (hperm'.mem_iff.mp hx) with hx | hx
      · exact (hcov x (hmem x (List.mem_cons_of_mem _ hx)) m hm).imp_left (hgrow m)
      · obtain ⟨-, hxm, hreq⟩ := isReady_of_mem_unlockedBy hinv.pool.pending hx
        refine Or.inl (mem_iff.mpr ⟨u.transaction.hash, ?_⟩)
        rw [hins.provided, if_pos (hxm.eq_of_mem_requires hreq hm)]
  | @refuse s L L' rest u o hperm _ _ hperm' =>
    refine ⟨hfed, hcounts, horph, fun x hx => ?_⟩
    exact hcov x (hperm.mem_iff.mpr (List.mem_cons_of_mem _ (hperm'.mem_iff.mp hx)))

/-! ### Pruning -/

/-- What holds while `ms` are still to be pruned: a marker on the worklist is one
of `B`, or put there because its provider unlocks nobody any more. -/
structure PruneAdopt (r₀ : ReadyTransactions) (B : List TxMarker) (r : ReadyTransactions)
    (ms : List TxMarker) : Prop where
  counts : CountsRight r
  orphans : OrphansWithin r₀ B r
  worklist : ∀ m ∈ ms, m ∈ B ∨ ∀ t, r.provider m = some t → t.unlocks = []

theorem afterPrune_unlocks_nil {t x : ReadyTransaction} {y : TxHash} (hx : x.unlocks = []) :
    (afterPrune h t y x).unlocks = [] := by
  refine List.eq_nil_iff_forall_not_mem.mpr fun z hz => ?_
  have hmem := mem_of_mem_afterPrune hz
  rw [hx] at hmem
  cases hmem

theorem PruneAdopt.take {r₁ : ReadyTransactions} {rest : List TxMarker}
    {t : ReadyTransaction} (hr : ReadyWf r)
    (hfol : ∀ h p, r.readyTx.lookup h = some p → ∀ x ∈ p.unlocks, ∀ q,
      r.readyTx.lookup x = some q → q.tx.Follows p.tx)
    (ha : PruneAdopt r₀ B r (t.tx.slot :: rest)) (hprov : r.provider t.tx.slot = some t)
    (hone : PrunedOne r t.tx.hash t r₁) :
    PruneAdopt r₀ B r₁ (r.backMarkers t.tx.hash t ++ rest) := by
  obtain ⟨hlook, -⟩ := hr.provider_eq_some.mp hprov
  have herase : ∀ m, r₁.providedMarkers.lookup m =
      if m = t.tx.slot then none else r.providedMarkers.lookup m := by
    intro m
    rw [hone.provided, HashMap.lookup_erase_ite]
  refine ⟨?_, ?_, ?_⟩
  · intro y x' hx' hlen m hmem
    obtain ⟨-, x, hx, rfl⟩ := hone.of_some hx'
    rw [herase]
    by_cases hle : x.tx.requires.length ≤ x.requiresOffset
    · rw [ha.counts y x hx hle m hmem, ite_self]
    · -- it moved ahead, so it waited for `t`
      have hcount : 0 < t.unlocks.count y := by
        have hlen : x.tx.requires.length ≤ x.requiresOffset + t.unlocks.count y := hlen
        omega
      have hf := hfol _ t hlook y (List.count_pos_iff.mp hcount) x hx
      rw [if_pos ((hr.marked y x hx).eq_of_mem_requires hf hmem)]
  · intro m hm
    obtain ⟨hnoprov, y, x', hx', hreq⟩ := hm
    obtain ⟨-, x, hx, rfl⟩ := hone.of_some hx'
    rw [herase] at hnoprov
    by_cases hslot : m = t.tx.slot
    · subst hslot
      rcases ha.worklist _ List.mem_cons_self with hB | hnil
      · exact Or.inr hB
      · have hin := ha.counts.listed hr hx hlook hreq
        rw [hnil t hprov] at hin
        cases hin
    · rw [if_neg hslot] at hnoprov
      exact ha.orphans m ⟨hnoprov, y, x, hx, hreq⟩
  · intro m hm
    rcases List.mem_append.mp hm with hm | hm
    · refine Or.inr fun x' hx' => ?_
      obtain ⟨x, hx, rfl⟩ := hone.provider hr.toReadyCore hlook hx'
      obtain ⟨p, hp, rfl⟩ := List.mem_map.mp hm
      obtain ⟨hp, hnil⟩ := List.mem_filter.mp hp
      obtain ⟨m', hm', hp⟩ := List.mem_filterMap.mp hp
      obtain ⟨hplook, hpslot⟩ := hr.provider_eq_some.mp hp
      obtain ⟨hxlook, hxslot⟩ := hr.provider_eq_some.mp hx
      obtain ⟨-, rfl⟩ := hr.slot_inj hxlook hplook hxslot
      unfold afterPrune
      rw [hpslot, if_pos hm']
      exact List.isEmpty_iff.mp hnil
    · refine (ha.worklist m (List.mem_cons_of_mem _ hm)).imp_right fun hnil x' hx' => ?_
      obtain ⟨x, hx, rfl⟩ := hone.provider hr.toReadyCore hlook hx'
      exact afterPrune_unlocks_nil (hnil x hx)

variable {T : List PoolTransaction} {p : PendingTransactions}

theorem PruneAdopt.pruneRun (hT : DistinctHashes T) {ms : List TxMarker}
    {txs : List PoolTransaction} {L : List PendingPoolTransaction} (hrun : PruneRun r ms txs r')
    (hr : ReadyWf r) (ht : Traced T (⟨r, p⟩, L)) (ha : PruneAdopt r₀ B r ms) :
    PruneAdopt r₀ B r' [] := by
  induction hrun with
  | nil => exact ha
  | skip hprov _ ih =>
    exact ih hr ht ⟨ha.counts, ha.orphans, fun m hm => ha.worklist m (List.mem_cons_of_mem _ hm)⟩
  | take hprov hone _ ih =>
    obtain ⟨hlook, -⟩ := hr.provider_eq_some.mp hprov
    refine ih (hone.wf hr hlook) (ht.prunedOne hone) (ha.take hr ?_ hprov hone)
    exact fun h q hq x hx q' hq' => ht.follows_of_listed hT hr.toReadyCore hq hx hq'

/-- What holds during the first loop of `prune_markers`. -/
structure PrunePhase (T : List PoolTransaction) (r₀ : ReadyTransactions) (B : List TxMarker)
    (p₀ : PendingTransactions) (U : PoolTransaction → Prop) (c : Config) : Prop
    extends Fed p₀ U c where
  traced : Traced T c
  adopt : PruneAdopt r₀ B c.1.readyTransactions []
  within : ∀ u ∈ c.2, ∀ m ∈ u.transaction.requires, m ∈ B

theorem PrunePhase.pruneStep (hT : DistinctHashes T) {c c' : Config}
    {l : TxMarker × List PoolTransaction}
    (hU : ∀ h w, p₀.waitingQueue.lookup h = some w → l.1 ∈ w.transaction.requires → U w.transaction)
    (hB : l.1 ∈ B) (hi : PrunePhase T r₀ B p₀ U c) (hs : PruneStep ord c l c') :
    PrunePhase T r₀ B p₀ U c' := by
  have hfed := hi.toFed.pruneStep hU hs
  have htr := hi.traced.pruneStep hi.inv hs
  cases hs with
  | @mk s L m txs r p hunl hrun _ =>
    refine ⟨hfed, htr, ?_, ?_⟩
    · refine PruneAdopt.pruneRun hT hrun hi.inv.pool.ready hi.traced ?_
      refine ⟨hi.adopt.counts, hi.adopt.orphans, fun m' hm' => Or.inl ?_⟩
      rw [List.mem_singleton] at hm'
      rw [hm']
      exact hB
    · intro x hx m' hm'
      rcases List.mem_append.mp hx with hx | hx
      · exact hi.within x hx m' hm'
      · obtain ⟨-, hxm, hreq⟩ := isReady_of_mem_unlockedBy hi.inv.pool.pending hx
        rw [hxm.eq_of_mem_requires hreq hm']
        exact hB

/-! ### Runs without an adoption -/

/-- The step makes no transaction ready that provides an orphan. -/
def KeepsOrphans (s : PoolInner) : PoolOp → Prop
  | .addTransaction tx => s.contains tx.hash = false →
      (∀ m ∈ tx.requires, m ∈ s.readyTransactions.providedMarkers) →
      AdoptsNone s.readyTransactions [] (Submits s.pendingTransactions tx)
  | .pruneMarkers ms => AdoptsNone s.readyTransactions ms (Woken s.pendingTransactions ms)
  | _ => True

theorem orphansWithin_self : OrphansWithin r B r :=
  fun _ hm => Or.inl hm

theorem CountsRight.outcome {s s' : PoolInner} {op : PoolOp} (hs : PoolInv s)
    (hT : DistinctHashes T) (ht : Traced T (s, [])) (hc : CountsRight s.readyTransactions)
    (hk : KeepsOrphans s op) (h : Outcome s op s') : CountsRight s'.readyTransactions := by
  cases h with
  | @add ord tx res s' hm hout =>
    cases hout with
    | contained _ => exact hc
    | underpriced _ => exact hc
    | queued _ _ _ _ _ => exact hc
    | absorbed hcon hreq hstep hrun =>
      have hstart : AdoptInv s.readyTransactions [] s.pendingTransactions
          (Submits s.pendingTransactions tx) (s, [s.incoming tx]) := by
        refine ⟨fed_incoming hs hm hcon hreq, hc, orphansWithin_self, ?_⟩
        intro u hu m hmem
        rw [List.mem_singleton] at hu
        subst hu
        exact Or.inl (hreq m hmem)
      have hall : Absorb ord (s, [s.incoming tx]) _ (s', []) := .cons hstep hrun
      exact (hall.keeps hstart
        fun hi hs' => hi.step (wakesWithin_submits _) (hk hcon hreq) hs').counts
  | @prune ord ms labels imports s₁ evs s' hlabels hphase hrun =>
    have hmem : ∀ l ∈ labels, l.1 ∈ ms := by
      intro l hl
      rw [← hlabels]
      exact List.mem_map_of_mem hl
    have hmid : PrunePhase T s.readyTransactions ms s.pendingTransactions
        (Woken s.pendingTransactions ms) (s₁, imports) :=
      hphase.invariant_mem (I := fun _ c => PrunePhase T s.readyTransactions ms
          s.pendingTransactions (Woken s.pendingTransactions ms) c)
        ⟨fed_nil hs _, ht, ⟨hc, orphansWithin_self, fun m hm => by cases hm⟩,
          fun u hu => absurd hu List.not_mem_nil⟩
        fun _ _ l _ hl hi hs' => hi.pruneStep hT
          (fun h w hw hreq => .direct hw hreq (hmem l hl)) (hmem l hl) hs'
    have hstart : AdoptInv s.readyTransactions ms s.pendingTransactions
        (Woken s.pendingTransactions ms) (s₁, imports) :=
      ⟨hmid.toFed, hmid.adopt.counts, hmid.adopt.orphans,
        fun u hu m hm => Or.inr (hmid.within u hu m hm)⟩
    exact (hrun.keeps hstart fun hi hs' => hi.step wakesWithin_woken hk hs').counts
  | @remove _ L txs txs' r p _ hcl hwf _ =>
    intro h t' ht' hlen m hmem
    obtain ⟨-, t, ht₀, hown⟩ := hcl.of_some ht'
    rw [hown.tx_eq] at hlen hmem
    rw [hown.requiresOffset] at hlen
    exact (hcl.shrunk hs.ready hwf).provided_none (hc h t ht₀ hlen m hmem)
  | clear =>
    intro h t ht
    cases ht

/-- In a run without an adoption the counts are right. -/
theorem countsRight_of_keepsOrphans {ops : List PoolOp} {s : PoolInner}
    (hrun : Run (Guarded KeepsOrphans PoolStep) empty ops s)
    (hT : DistinctHashes (submitted ops)) : CountsRight s.readyTransactions := by
  refine Run.invariant_of (I := fun ops s => PoolInv s ∧ Traced (submitted ops) (s, []))
    (J := fun ops s => DistinctHashes (submitted ops) → CountsRight s.readyTransactions)
    ?_ ?_ ?_ hrun hT
  · intro ops s hrun
    exact ⟨inv hrun.unguard, traced hrun.unguard⟩
  · intro _ h t ht
    cases ht
  · intro ops s op s' hinv hc hs hT'
    have hT₀ : DistinctHashes (submitted ops) := by
      rw [submitted_append, DistinctHashes, List.map_append] at hT'
      exact hT'.of_append_left
    exact (hc hT₀).outcome hinv.1 hT₀ hinv.2 hs.1 (hs.2.outcome hinv.1)

/-! ### The representation invariant -/

/-- What the fields of the pool are for: the maps and the ordered set of the ready half, and those
of the queue, say the same about the transactions in them. -/
structure RepInv (s : PoolInner) : Prop where
  /-- The two halves are disjoint. -/
  disjoint : ∀ h, ¬ (h ∈ s.readyTransactions.readyTx ∧ h ∈ s.pendingTransactions.waitingQueue)
  provided : ∀ m h, s.readyTransactions.providedMarkers.lookup m = some h ↔
    ∃ t, s.readyTransactions.readyTx.lookup h = some t ∧ m ∈ t.provides
  independent : ∀ h t, s.readyTransactions.readyTx.lookup h = some t →
    (t.transaction ∈ s.readyTransactions.independentTransactions ↔
      ∀ m ∈ t.tx.requires, m ∉ s.readyTransactions.providedMarkers)
  linked : ∀ h t h' p, s.readyTransactions.readyTx.lookup h = some t →
    s.readyTransactions.readyTx.lookup h' = some p →
    (∃ m ∈ t.tx.requires, m ∈ p.provides) → h ∈ p.unlocks
  waiting : ∀ m h,
    (∃ S, s.pendingTransactions.requiredMarkers.lookup m = some S ∧ h ∈ S) ↔
      ∃ w, s.pendingTransactions.waitingQueue.lookup h = some w ∧ m ∈ w.missingMarkers
  /-- No marker is required by a queued transaction and provided by a ready one. -/
  apart : ∀ m, ¬ (m ∈ s.pendingTransactions.requiredMarkers ∧
    m ∈ s.readyTransactions.providedMarkers)

theorem mem_waiters {m : TxMarker} :
    h ∈ p.waiters m ↔ ∃ S, p.requiredMarkers.lookup m = some S ∧ h ∈ S := by
  unfold PendingTransactions.waiters
  cases p.requiredMarkers.lookup m with
  | none => simp
  | some S => simp

theorem repInv_of_countsRight {s : PoolInner} (hs : PoolInv s) (hi : Indexed s.readyTransactions)
    (hc : CountsRight s.readyTransactions) : RepInv s := by
  refine ⟨?_, ?_, ?_, ?_, ?_, ?_⟩
  · intro h hand
    obtain ⟨t, ht⟩ := mem_iff.mp hand.1
    obtain ⟨w, hw⟩ := mem_iff.mp hand.2
    exact hs.disjoint h t w ht hw
  · intro m h
    rw [hs.ready.provided]
    refine exists_congr fun t => and_congr_right fun ht => ?_
    rw [provides, (hs.ready.marked h t ht).mem_provides, eq_comm]
  · intro h t ht
    have hself : t.transaction ∈ s.readyTransactions.independentTransactions ↔
        t.tx.requires.length ≤ t.requiresOffset := by
      rw [hi.mem]
      constructor
      · intro hex
        obtain ⟨h', t', ht', heq, hoff⟩ := hex
        have hh := hi.distinct h' h t' t ht' ht (by rw [heq]; exact Std.ReflCmp.compare_self)
        rw [hh, ht] at ht'
        cases ht'
        exact hoff
      · intro hoff
        exact ⟨h, t, ht, rfl, hoff⟩
    rw [hself]
    constructor
    · intro hoff m hm
      exact lookup_eq_none.mp (hc h t ht hoff m hm)
    · intro hall
      refine Nat.le_of_not_lt fun hlt => ?_
      obtain ⟨h', p, hp, hfol, -⟩ := hs.ready.linked h t ht hlt
      refine hall _ hfol (mem_iff.mpr ⟨h', ?_⟩)
      exact (hs.ready.provided _ h').mpr ⟨p, hp, rfl⟩
  · intro h t h' p ht hp hex
    obtain ⟨m, hm, hmp⟩ := hex
    rw [provides, (hs.ready.marked h' p hp).mem_provides] at hmp
    subst hmp
    exact hc.listed hs.ready ht hp hm
  · intro m h
    rw [← mem_waiters, hs.pending.waiters]
  · intro m hand
    obtain ⟨h, hh⟩ := mem_iff.mp hand.2
    exact lookup_eq_none.mp (hs.apart m h hh) hand.1

/-- Adding nonce 0, then nonce 1 behind it, adopts nothing. -/
theorem pair_keepsOrphans :
    ∃ s, Run (Guarded KeepsOrphans PoolStep) empty pairOps s ∧
      DistinctHashes (submitted pairOps) ∧ (submitted pairOps).length ≤ 2 ^ 64 := by
  obtain ⟨s₁, s, hs₁, hs, -, -, hready, -⟩ := pair_steps
  have hkeep₁ : KeepsOrphans empty (.addTransaction (sampleTx 1 0 0 10)) := by
    intro _ _ x _
    refine ⟨List.not_mem_nil, fun ho => ?_⟩
    obtain ⟨-, h, t, ht, -⟩ := ho
    cases ht
  have hkeep₂ : KeepsOrphans s₁ (.addTransaction (sampleTx 2 1 0 10)) := by
    intro _ _ x _
    refine ⟨List.not_mem_nil, fun ho => ?_⟩
    obtain ⟨-, h, t, ht, hreq⟩ := ho
    have hmem : h ∈ s₁.readyTransactions.readyTx := mem_iff.mpr ⟨t, ht⟩
    rw [hready, mem_singleton] at hmem
    rw [hready] at ht
    subst hmem
    rw [lookup_singleton_eq] at ht
    cases ht
    exact absurd hreq List.not_mem_nil
  refine ⟨s, .snoc (.snoc .nil ⟨hkeep₁, hs₁⟩) ⟨hkeep₂, hs⟩, ?_, by decide +kernel⟩
  show List.Nodup _
  decide +kernel

/-- **The representation invariant of the pool**, in every run without an adoption: no step makes a
transaction ready that provides what an orphan among the ready ones requires. -/
theorem repInv_of_keepsOrphans {ops : List PoolOp} {s : PoolInner}
    (hrun : Run (Guarded KeepsOrphans PoolStep) PoolInner.empty ops s)
    (hT : DistinctHashes (submitted ops)) (hlen : (submitted ops).length ≤ 2 ^ 64) : RepInv s := by
  obtain ⟨n, hn, -⟩ := counted hrun.unguard hlen
  exact repInv_of_countsRight (inv hrun.unguard) hn.indexed
    (countsRight_of_keepsOrphans hrun hT)

/-- Nonce 0, which requires nothing, and nonce 1 behind it. -/
theorem repInv_of_keepsOrphans_pair :
    ∃ s, Run (Guarded KeepsOrphans PoolStep) PoolInner.empty pairOps s ∧
      DistinctHashes (submitted pairOps) ∧ (submitted pairOps).length ≤ 2 ^ 64 ∧ RepInv s := by
  obtain ⟨s, hrun, hT, hlen⟩ := pair_keepsOrphans
  exact ⟨s, hrun, hT, hlen, repInv_of_keepsOrphans hrun hT hlen⟩

/-- Nonce 1 is ready and nonce 0 mined; after a rollback nonce 0 is sent again. -/
def adoptionOps : List PoolOp :=
  [.addTransaction (sampleTx 1 1 0 10), .addTransaction (sampleTx 2 0 0 10),
    .pruneMarkers [toMarker 0 1], .addTransaction (sampleTx 3 0 0 5)]

/-- The new nonce 0 provides what nonce 1 requires, but nonce 1 stays independent
and is not linked. -/
theorem adoption_breaks_repInv :
    ∃ s t p, PoolRun adoptionOps s ∧ DistinctHashes (submitted adoptionOps) ∧
      s.readyTransactions.readyTx.lookup 1 = some t ∧
      s.readyTransactions.readyTx.lookup 3 = some p ∧ t.tx.Follows p.tx ∧
      t.transaction ∈ s.readyTransactions.independentTransactions ∧ 1 ∉ p.unlocks ∧
      ¬ RepInv s := by
  obtain ⟨s, hrun, hP⟩ := run_of_execAll ascendingOrder 0 adoptionOps
    (fun s => (s.readyTransactions.readyTx.lookup 1).any fun t =>
      (s.readyTransactions.readyTx.lookup 3).any fun p =>
        p.tx.slot ∈ t.tx.requires ∧ p.tx.slot ∈ p.provides ∧
          t.transaction ∈ s.readyTransactions.independentTransactions.toList ∧ 1 ∉ p.unlocks)
    (by decide +kernel) (by decide +kernel)
  obtain ⟨t, ht, hP⟩ := (Option.any_eq_true _ _).mp hP
  obtain ⟨p, hp, hP⟩ := (Option.any_eq_true _ _).mp hP
  obtain ⟨hreq, hprov, hind, hunl⟩ := of_decide_eq_true hP
  refine ⟨s, t, p, hrun, ?_, ht, hp, hreq, hind, hunl, fun hrep => ?_⟩
  · show List.Nodup _
    decide +kernel
  · exact hunl (hrep.linked 1 t 3 p ht hp ⟨_, hreq, hprov⟩)

end BaseAnvil.Pool

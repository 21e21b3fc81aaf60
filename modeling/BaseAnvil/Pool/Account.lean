import BaseAnvil.Pool.Exec
import BaseAnvil.Pool.Outcome

/-!
# BaseAnvil.Pool.Account

Where every transaction goes. Along a cascade each attempt takes one transaction
that is in flight (queued or loose) and either makes it ready or loses it, and
what is lost or replaced is reported (`Accounted`). From this follow what a failed
and what a successful insertion do to the pool as a whole. That no assertion of
the pool fails comes out of the same description of the loops.
-/

namespace BaseAnvil.Pool

open Lib PoolInner

namespace PoolInner

/-- `x` is in the ready half. -/
def HasReady (s : PoolInner) (x : PoolTransaction) : Prop :=
  ∃ t, s.readyTransactions.readyTx.lookup x.hash = some t ∧ t.tx = x

/-- `x` is in the waiting half. -/
def HasQueued (s : PoolInner) (x : PoolTransaction) : Prop :=
  ∃ w, s.pendingTransactions.waitingQueue.lookup x.hash = some w ∧ w.transaction = x

/-- `x` is in the pool. -/
def Holds (s : PoolInner) (x : PoolTransaction) : Prop := s.HasReady x ∨ s.HasQueued x

end PoolInner

/-- `x` is in the pool or on its way into the ready half. -/
def Config.Holds (c : Config) (x : PoolTransaction) : Prop :=
  c.1.Holds x ∨ ∃ u ∈ c.2, u.transaction = x

/-- The transaction `h` is not ready yet. -/
def Config.InFlight (c : Config) (h : TxHash) : Prop :=
  (∃ w, c.1.pendingTransactions.waitingQueue.lookup h = some w) ∨
    ∃ u ∈ c.2, u.transaction.hash = h

/-- What the events of a cascade from `c₀` to `c` account for. -/
structure Accounted (c₀ : Config) (evs : List Event) (c : Config) : Prop where
  inv : ConfigInv c
  holds : ∀ x, c.Holds x ↔ c₀.Holds x ∧ x ∉ replacedTxs evs ∧ x.hash ∉ refusedHashes evs
  attempted : ∀ h, (h ∈ enteredHashes evs ∨ h ∈ refusedHashes evs) ↔ c₀.InFlight h ∧ ¬ c.InFlight h
  nodup : (enteredHashes evs ++ refusedHashes evs).Nodup
  entered : ∀ h ∈ enteredHashes evs, (∃ t, c.1.readyTransactions.readyTx.lookup h = some t) ∨
    ∃ x ∈ replacedTxs evs, x.hash = h
  refused : ∀ h ∈ refusedHashes evs, c.1.readyTransactions.readyTx.lookup h = none
  stays : ∀ h, c.InFlight h → c₀.InFlight h

variable {c c' : Config} {e : Event} {ord : HashOrder} {s : PoolInner}

theorem PoolInner.HasReady.marked {x : PoolTransaction} (hx : s.HasReady x)
    (hr : ReadyCore s.readyTransactions) : NonceMarked x := by
  obtain ⟨t, ht, rfl⟩ := hx
  exact hr.marked _ t ht

section

variable {h : TxHash} (hs : PoolInv s)
include hs

theorem PoolInv.hasReady {t : ReadyTransaction}
    (ht : s.readyTransactions.readyTx.lookup h = some t) : s.HasReady t.tx :=
  ⟨t, hs.ready.lookup_hash ht, rfl⟩

theorem PoolInv.hasQueued {w : PendingPoolTransaction}
    (hw : s.pendingTransactions.waitingQueue.lookup h = some w) : s.HasQueued w.transaction :=
  ⟨w, hs.pending.lookup_hash hw, rfl⟩

end

theorem accounted_nil (hc : ConfigInv c) : Accounted c [] c := by
  refine ⟨hc, ?_, ?_, List.nodup_nil, ?_, ?_, fun _ h => h⟩
  · intro x
    simp [replacedTxs, refusedHashes]
  · intro h
    simp [enteredHashes, refusedHashes]
  · intro h hh
    cases hh
  · intro h hh
    cases hh

/-! ### The two kinds of events -/

variable {L L' rest : List PendingPoolTransaction} {u : PendingPoolTransaction}

section Enter

variable {r : ReadyTransactions} {p : PendingTransactions}

/-- The transactions in flight after `u` went in. -/
theorem inFlight_enter (hc : ConfigInv (s, L)) (hperm : L.Perm (u :: rest))
    (hunl : Unlocked s.pendingTransactions u.transaction.slot p)
    (hperm' : L'.Perm (rest ++ s.pendingTransactions.unlockedBy ord u.transaction.slot))
    (h : TxHash) :
    Config.InFlight (⟨r, p⟩, L') h ↔ Config.InFlight (s, L) h ∧ h ≠ u.transaction.hash := by
  have hl := hc.loose.perm hperm
  have hur := (List.nodup_cons.mp hl.nodup).1
  simp only [Config.InFlight, hperm.mem_iff, hperm'.mem_iff, List.mem_append, List.mem_cons]
  constructor
  · intro hf
    rcases hf with ⟨w, hw⟩ | ⟨v, hv | hv, rfl⟩
    · have hw := hunl.of_queue hw
      refine ⟨Or.inl ⟨w, hw⟩, ?_⟩
      intro heq
      rw [heq, hl.notQueued u List.mem_cons_self] at hw
      cases hw
    · exact ⟨Or.inr ⟨v, Or.inr hv, rfl⟩, fun heq => hur (List.mem_map.mpr ⟨v, hv, heq⟩)⟩
    · obtain ⟨w, hw, -, rfl⟩ := (mem_unlockedBy hc.pool.pending).mp hv
      refine ⟨Or.inl ⟨w, hw⟩, ?_⟩
      intro heq
      rw [PendingPoolTransaction.mark_transaction] at heq
      rw [heq, hl.notQueued u List.mem_cons_self] at hw
      cases hw
  · intro hf
    rcases hf with ⟨⟨w, hw⟩ | ⟨v, rfl | hv, rfl⟩, hne⟩
    · rcases hunl.queue_cases ord hc.pool.pending hw with hw' | hmem
      · exact Or.inl ⟨w, hw'⟩
      · exact Or.inr ⟨_, Or.inr hmem, hc.pool.pending.hash h w hw⟩
    · exact absurd rfl hne
    · exact Or.inr ⟨v, Or.inl hv, rfl⟩

/-- What is held after `u` went in. -/
theorem holds_enter (hc : ConfigInv (s, L)) (hperm : L.Perm (u :: rest))
    (hins : Inserted s.readyTransactions u.transaction r)
    (hunl : Unlocked s.pendingTransactions u.transaction.slot p)
    (hperm' : L'.Perm (rest ++ s.pendingTransactions.unlockedBy ord u.transaction.slot)) :
    Config.Holds (⟨r, p⟩, L') x ↔ Config.Holds (s, L) x ∧
      x ∉ (s.readyTransactions.provider u.transaction.slot).toList.map (·.tx) := by
  have hl := hc.loose.perm hperm
  have hrep : x ∈ (s.readyTransactions.provider u.transaction.slot).toList.map (·.tx) ↔
      s.HasReady x ∧ x.slot = u.transaction.slot := hc.pool.ready.mem_provider
  rw [hrep]
  simp only [Config.Holds, hperm.mem_iff, hperm'.mem_iff, List.mem_append, List.mem_cons]
  constructor
  · intro hx
    rcases hx with (⟨t', ht', htx⟩ | ⟨w, hw, htx⟩) | ⟨v, hv | hv, rfl⟩
    · rcases hins.of_some ht' with ⟨hh, rfl⟩ | ⟨t, t₁, ht, hslot, hown, rfl⟩
      · refine ⟨Or.inr ⟨u, Or.inl rfl, htx⟩, fun hand => ?_⟩
        obtain ⟨⟨t, ht, -⟩, -⟩ := hand
        rw [hh, hl.notReady u List.mem_cons_self] at ht
        cases ht
      · rw [linkTo_tx, hown.tx_eq] at htx
        subst htx
        exact ⟨Or.inl (Or.inl ⟨t, ht, rfl⟩), fun hand => hslot hand.2⟩
    · have hw := hunl.of_queue hw
      refine ⟨Or.inl (Or.inr ⟨w, hw, htx⟩), fun hand => ?_⟩
      obtain ⟨⟨t, ht, -⟩, -⟩ := hand
      exact hc.pool.disjoint _ t w ht hw
    · refine ⟨Or.inr ⟨v, Or.inr hv, rfl⟩, fun hand => ?_⟩
      obtain ⟨⟨t, ht, -⟩, -⟩ := hand
      rw [hl.notReady v (List.mem_cons_of_mem _ hv)] at ht
      cases ht
    · obtain ⟨w, hw, -, rfl⟩ := (mem_unlockedBy hc.pool.pending).mp hv
      refine ⟨Or.inl (Or.inr ⟨w, hw, rfl⟩), fun hand => ?_⟩
      obtain ⟨⟨t, ht, -⟩, -⟩ := hand
      exact hc.pool.disjoint _ t w ht hw
  · intro hx
    rcases hx with ⟨(⟨t, ht, rfl⟩ | ⟨w, hw, rfl⟩) | ⟨v, rfl | hv, rfl⟩, hnot⟩
    · have hslot : t.tx.slot ≠ u.transaction.slot := fun heq => hnot ⟨⟨t, ht, rfl⟩, heq⟩
      obtain ⟨t₁, ht₁, hown⟩ := hins.kept _ t ht hslot
      exact Or.inl (Or.inl ⟨_, ht₁, by rw [linkTo_tx, hown.tx_eq]⟩)
    · rcases hunl.queue_cases ord hc.pool.pending hw with hw' | hmem
      · exact Or.inl (Or.inr ⟨w, hw', rfl⟩)
      · exact Or.inr ⟨_, Or.inr hmem, rfl⟩
    · exact Or.inl (Or.inl ⟨_, hins.new, rfl⟩)
    · exact Or.inr ⟨v, Or.inl hv, rfl⟩

end Enter

section Refuse

variable (hc : ConfigInv (s, L)) (hperm : L.Perm (u :: rest)) (hperm' : L'.Perm rest)
include hc hperm hperm'

/-- What is left when `u` is refused, for what is in flight and for what is held. -/
theorem refuse_iff {A : Prop} {P : PendingPoolTransaction → Prop} {h : TxHash}
    (hA : A → h ≠ u.transaction.hash) (hP : ∀ v, P v → v.transaction.hash = h) :
    (A ∨ ∃ v ∈ L', P v) ↔ (A ∨ ∃ v ∈ L, P v) ∧ h ≠ u.transaction.hash := by
  have hur := (List.nodup_cons.mp (hc.loose.perm hperm).nodup).1
  simp only [hperm.mem_iff, hperm'.mem_iff, List.mem_cons]
  constructor
  · rintro (ha | ⟨v, hv, hpv⟩)
    · exact ⟨Or.inl ha, hA ha⟩
    · refine ⟨Or.inr ⟨v, Or.inr hv, hpv⟩, fun heq => hur (List.mem_map.mpr ⟨v, hv, ?_⟩)⟩
      exact (hP v hpv).trans heq
  · rintro ⟨ha | ⟨v, rfl | hv, hpv⟩, hne⟩
    · exact Or.inl ha
    · exact absurd (hP _ hpv).symm hne
    · exact Or.inr ⟨v, hv, hpv⟩

theorem inFlight_refuse (h : TxHash) :
    Config.InFlight (s, L') h ↔ Config.InFlight (s, L) h ∧ h ≠ u.transaction.hash := by
  refine refuse_iff hc hperm hperm' ?_ fun v hv => hv
  rintro ⟨w, hw⟩ rfl
  rw [(hc.loose.perm hperm).notQueued u List.mem_cons_self] at hw
  cases hw

theorem holds_refuse :
    Config.Holds (s, L') x ↔ Config.Holds (s, L) x ∧ x.hash ≠ u.transaction.hash := by
  have hl := hc.loose.perm hperm
  refine refuse_iff hc hperm hperm' ?_ fun v hv => congrArg _ hv
  rintro (⟨t, ht, htx⟩ | ⟨w, hw, htx⟩) heq
  · rw [heq, hl.notReady u List.mem_cons_self] at ht
    cases ht
  · rw [heq, hl.notQueued u List.mem_cons_self] at hw
    cases hw

end Refuse

section

variable (hs : AbsorbStep ord c e c') (hc : ConfigInv c)
include hs hc

theorem AbsorbStep.inFlight (h : TxHash) :
    c'.InFlight h ↔ c.InFlight h ∧ h ∉ enteredHashes [e] ∧ h ∉ refusedHashes [e] := by
  cases hs with
  | enter hperm _ _ hunl hperm' =>
    rw [inFlight_enter hc hperm hunl hperm']
    simp [enteredHashes, refusedHashes]
  | refuse hperm _ _ hperm' =>
    rw [inFlight_refuse hc hperm hperm']
    simp [enteredHashes, refusedHashes]

theorem AbsorbStep.holds (x : PoolTransaction) :
    c'.Holds x ↔ c.Holds x ∧ x ∉ replacedTxs [e] ∧ x.hash ∉ refusedHashes [e] := by
  cases hs with
  | enter hperm _ hins hunl hperm' =>
    rw [holds_enter hc hperm hins hunl hperm']
    simp [replacedTxs, refusedHashes]
  | refuse hperm _ _ hperm' =>
    rw [holds_refuse hc hperm hperm']
    simp [replacedTxs, refusedHashes]

/-- The transaction of an attempt was in flight, and not ready. -/
theorem AbsorbStep.attempts {h : TxHash} (hh : h ∈ enteredHashes [e] ++ refusedHashes [e]) :
    c.InFlight h ∧ c.1.readyTransactions.readyTx.lookup h = none := by
  obtain ⟨u, hu, rfl⟩ : ∃ u ∈ c.2, h = u.transaction.hash := by
    cases hs with
    | enter hperm | refuse hperm =>
      exact ⟨_, hperm.mem_iff.mpr List.mem_cons_self, List.mem_singleton.mp hh⟩
  exact ⟨Or.inr ⟨u, hu, rfl⟩, hc.loose.notReady u hu⟩

/-- An attempt changes the ready half only where it reports it. -/
theorem AbsorbStep.ready :
    (∀ h ∈ enteredHashes [e], ∃ t, c'.1.readyTransactions.readyTx.lookup h = some t) ∧
    (∀ h t, c.1.readyTransactions.readyTx.lookup h = some t →
      (∃ t', c'.1.readyTransactions.readyTx.lookup h = some t') ∨
        ∃ x ∈ replacedTxs [e], x.hash = h) ∧
    (∀ h, h ∉ enteredHashes [e] → c.1.readyTransactions.readyTx.lookup h = none →
      c'.1.readyTransactions.readyTx.lookup h = none) := by
  cases hs with
  | @enter s L L' rest u r p hperm _ hins hunl hperm' =>
    refine ⟨?_, ?_, ?_⟩
    · intro h hh
      simp only [enteredHashes, List.filterMap_cons, List.filterMap_nil, List.mem_singleton] at hh
      subst hh
      exact ⟨_, hins.new⟩
    · intro h t ht
      by_cases hslot : t.tx.slot = u.transaction.slot
      · refine Or.inr ⟨t.tx, ?_, hc.pool.ready.hash h t ht⟩
        have hprov : s.readyTransactions.provider u.transaction.slot = some t :=
          hc.pool.ready.provider_eq_some.mpr ⟨hc.pool.ready.lookup_hash ht, hslot⟩
        simp [replacedTxs, hprov]
      · obtain ⟨t₁, ht₁, -⟩ := hins.kept h t ht hslot
        exact Or.inl ⟨_, ht₁⟩
    · intro h hne hh
      refine hins.fresh h (fun heq => hne ?_) hh
      simp [enteredHashes, heq]
  | refuse hperm _ _ hperm' =>
    refine ⟨?_, ?_, ?_⟩
    · intro h hh
      cases hh
    · intro h t ht
      exact Or.inl ⟨t, ht⟩
    · intro h _ hh
      exact hh

end

theorem Accounted.step {c₀ : Config} {evs : List Event} (ha : Accounted c₀ evs c)
    (hs : AbsorbStep ord c e c') : Accounted c₀ (evs ++ [e]) c' := by
  have hfly := hs.inFlight ha.inv
  have hatt := fun h hh => hs.attempts ha.inv (h := h) hh
  obtain ⟨hin, hstay, hout⟩ := hs.ready ha.inv
  -- what was attempted before is no longer in flight, so it is not attempted again
  have hnew : ∀ h, h ∈ enteredHashes [e] ++ refusedHashes [e] →
      ¬ (h ∈ enteredHashes evs ∨ h ∈ refusedHashes evs) := by
    intro h hh hor
    exact ((ha.attempted h).mp hor).2 (hatt h hh).1
  refine ⟨ha.inv.step hs, ?_, ?_, ?_, ?_, ?_, ?_⟩
  · intro x
    rw [hs.holds ha.inv, ha.holds, replacedTxs_append, refusedHashes_append, List.mem_append,
      List.mem_append, not_or, not_or]
    tauto
  · intro h
    rw [hfly, enteredHashes_append, refusedHashes_append, List.mem_append, List.mem_append]
    constructor
    · intro hor
      by_cases hold : h ∈ enteredHashes evs ∨ h ∈ refusedHashes evs
      · obtain ⟨h₀, hnot⟩ := (ha.attempted h).mp hold
        exact ⟨h₀, fun hand => hnot hand.1⟩
      · have hmem : h ∈ enteredHashes [e] ++ refusedHashes [e] := by
          rw [List.mem_append]
          tauto
        refine ⟨ha.stays h (hatt h hmem).1, fun hand => ?_⟩
        rw [List.mem_append] at hmem
        tauto
    · intro hand
      by_cases hc : c.InFlight h
      · tauto
      · have hold := (ha.attempted h).mpr ⟨hand.1, hc⟩
        tauto
  · rw [enteredHashes_append, refusedHashes_append]
    have hperm : (enteredHashes evs ++ enteredHashes [e] ++
        (refusedHashes evs ++ refusedHashes [e])).Perm
        ((enteredHashes evs ++ refusedHashes evs) ++ (enteredHashes [e] ++ refusedHashes [e])) := by
      rw [List.append_assoc, List.append_assoc]
      exact List.Perm.append_left _ (List.perm_append_comm_assoc _ _ _)
    rw [hperm.nodup_iff, List.nodup_append]
    refine ⟨ha.nodup, by cases e <;> simp [enteredHashes, refusedHashes], ?_⟩
    intro a hmem b hb hab
    subst hab
    exact hnew a hb (List.mem_append.mp hmem)
  · intro h hh
    rw [enteredHashes_append, List.mem_append] at hh
    rw [replacedTxs_append]
    rcases hh with hh | hh
    · rcases ha.entered h hh with ⟨t, ht⟩ | ⟨x, hx, hxh⟩
      · rcases hstay h t ht with hr | ⟨x, hx, hxh⟩
        · exact Or.inl hr
        · exact Or.inr ⟨x, List.mem_append_right _ hx, hxh⟩
      · exact Or.inr ⟨x, List.mem_append_left _ hx, hxh⟩
    · exact Or.inl (hin h hh)
  · intro h hh
    rw [refusedHashes_append, List.mem_append] at hh
    rcases hh with hh | hh
    · refine hout h (fun hmem => ?_) (ha.refused h hh)
      exact hnew h (List.mem_append_left _ hmem) (Or.inr hh)
    · refine hout h (fun hmem => ?_) (hatt h (List.mem_append_right _ hh)).2
      cases e with
      | entered tx l => cases hh
      | refused tx => cases hmem
  · intro h hh
    exact ha.stays h ((hfly h).mp hh).1

theorem Accounted.of_absorb {evs : List Event} (hc : ConfigInv c) (hrun : Absorb ord c evs c') :
    Accounted c evs c' :=
  hrun.invariant (I := Accounted c) (accounted_nil hc) fun _ _ _ _ hi hs => hi.step hs

/-! ### Insertion -/

/-- What `Ok(Ready { .. })` promises about the pool before and after. -/
structure ReadyReport (s : PoolInner) (tx : PoolTransaction) (r : AddedReady) (s' : PoolInner) :
    Prop where
  hash : r.hash = tx.hash
  /-- Nothing is lost that is not reported. -/
  holds : ∀ x, s'.Holds x ↔ (s.Holds x ∨ x = tx) ∧ x.hash ∉ r.discarded ∧ x ∉ r.removed
  /-- Promoted and discarded are those that left the queue. -/
  attempted : ∀ h, (h ∈ r.promoted ∨ h ∈ r.discarded) ↔
    (∃ w, s.pendingTransactions.waitingQueue.lookup h = some w) ∧
      s'.pendingTransactions.waitingQueue.lookup h = none
  nodup : (tx.hash :: r.promoted ++ r.discarded).Nodup
  added : s'.HasReady tx
  /-- What is promoted entered the ready set; it is there or was replaced again. -/
  promoted : ∀ h ∈ r.promoted, (∃ t, s'.readyTransactions.readyTx.lookup h = some t) ∨
    ∃ x ∈ r.removed, x.hash = h
  /-- What is discarded did not. -/
  discarded : ∀ h ∈ r.discarded, s'.readyTransactions.readyTx.lookup h = none

theorem config_holds_nil {x : PoolTransaction} : Config.Holds (s, []) x ↔ s.Holds x := by
  simp [Config.Holds]

theorem not_inFlight_nil {h : TxHash} :
    ¬ Config.InFlight (s, []) h ↔ s.pendingTransactions.waitingQueue.lookup h = none := by
  simp [Config.InFlight, Option.eq_none_iff_forall_ne_some]

theorem AddOutcome.readyReport {s' : PoolInner} (hs : PoolInv s) {tx : PoolTransaction}
    (hm : NonceMarked tx) {r : AddedReady} (h : AddOutcome ord s tx (.ok (.ready r)) s') :
    ReadyReport s tx r s' := by
  cases h with
  | @absorbed evs c s' hc hreq hstep hrun =>
    have hcfg := configInv_incoming hs hm hc (isReady_incoming hreq)
    have hacc := Accounted.of_absorb hcfg (.cons hstep hrun)
    have hcyc := not_replaced_of_enter hcfg hstep hrun
    have hnodup : (tx.hash :: enteredHashes evs ++ refusedHashes evs).Nodup := hacc.nodup
    have hfly : ∀ h, Config.InFlight (s, [s.incoming tx]) h ↔
        (∃ w, s.pendingTransactions.waitingQueue.lookup h = some w) ∨ h = tx.hash := by
      intro h
      simp only [Config.InFlight, List.mem_singleton, exists_eq_left]
      exact or_congr_right eq_comm
    have hholds : ∀ x, s'.Holds x ↔ (s.Holds x ∨ x = tx) ∧ x.hash ∉ refusedHashes evs ∧
        x ∉ (s.readyTransactions.provider tx.slot).toList.map (·.tx) ++ replacedTxs evs := by
      intro x
      rw [← config_holds_nil, hacc.holds]
      have h₀ : Config.Holds (s, [s.incoming tx]) x ↔ s.Holds x ∨ x = tx := by
        simp only [Config.Holds, List.mem_singleton, exists_eq_left]
        exact or_congr_right eq_comm
      rw [h₀]
      exact and_congr_right fun _ => and_comm
    have hnotQueued : s'.pendingTransactions.waitingQueue.lookup tx.hash = none :=
      not_inFlight_nil.mp ((hacc.attempted tx.hash).mp (Or.inl List.mem_cons_self)).2
    refine ⟨rfl, hholds, ?_, hnodup, ?_, ?_, hacc.refused⟩
    · intro h
      have hatt := hacc.attempted h
      rw [hfly, not_inFlight_nil, enteredHashes_entered, refusedHashes_entered,
        List.mem_cons] at hatt
      constructor
      · intro hor
        have hne : h ≠ tx.hash := by
          intro heq
          subst heq
          exact (List.nodup_cons.mp hnodup).1 (List.mem_append.mpr hor)
        have hboth := hatt.mp (hor.imp_left Or.inr)
        exact ⟨hboth.1.resolve_right hne, hboth.2⟩
      · intro hand
        have hor := hatt.mpr ⟨Or.inl hand.1, hand.2⟩
        rcases hor with (heq | hin) | hin
        · obtain ⟨w, hw⟩ := hand.1
          rw [heq, (not_contains hc).2] at hw
          cases hw
        · exact Or.inl hin
        · exact Or.inr hin
    · have htx : s'.Holds tx := by
        refine (hholds tx).mpr ⟨Or.inr rfl, ?_, ?_⟩
        · intro hmem
          exact (List.nodup_cons.mp hnodup).1 (List.mem_append_right _ hmem)
        · intro hmem
          rcases List.mem_append.mp hmem with hmem | hmem
          · obtain ⟨⟨o, hlook, -⟩, -⟩ := hs.ready.mem_provider.mp hmem
            rw [(not_contains hc).1] at hlook
            cases hlook
          · exact hcyc tx hmem rfl
      rcases htx with htx | ⟨w, hw, -⟩
      · exact htx
      · rw [hnotQueued] at hw
        cases hw
    · intro h hh
      exact hacc.entered h (List.mem_cons_of_mem _ hh)

/-- **Insertion.** A failed insertion leaves the pool as it was, and a successful one loses nothing:
every transaction is ready, queued or reported afterwards. -/
theorem addTransaction_accounts {ops : List PoolOp} {s : PoolInner} (hrun : PoolRun ops s)
    {tx : PoolTransaction} (hm : NonceMarked tx) {ord : HashOrder}
    {res : Except PoolError AddedTransaction} {s' : PoolInner}
    (hadd : s.addTransaction ord tx = .ok (res, s')) :
    (∀ e, res = .error e → s' = s) ∧
      (∀ h, res = .ok (.pending h) → ∀ x, s'.Holds x ↔ s.Holds x ∨ x = tx) ∧
      (∀ r, res = .ok (.ready r) → ReadyReport s tx r s') := by
  have hs := hrun.inv
  obtain ⟨res', s₁, heq, hout⟩ := addTransaction_spec ord hs hm
  rw [hadd] at heq
  cases heq
  refine ⟨?_, ?_, ?_⟩
  · intro e he
    subst he
    cases hout with
    | contained _ => rfl
    | underpriced _ => rfl
  · intro h he x
    subst he
    cases hout with
    | @queued m p hc hreq hprov hunder hq =>
      have hqueued : HasQueued ⟨s.readyTransactions, p⟩ x ↔ s.HasQueued x ∨ x = tx := by
        simp only [HasQueued, hq.queue, HashMap.lookup_insert_ite]
        constructor
        · intro hex
          obtain ⟨w, hw, rfl⟩ := hex
          split at hw
          · cases hw
            exact Or.inr rfl
          · exact Or.inl ⟨w, hw, rfl⟩
        · intro hor
          rcases hor with ⟨w, hw, rfl⟩ | rfl
          · refine ⟨w, ?_, rfl⟩
            rw [if_neg]
            · exact hw
            · intro heq
              have heq : w.transaction.hash = tx.hash := heq
              rw [heq, (not_contains hc).2] at hw
              cases hw
          · exact ⟨_, if_pos rfl, rfl⟩
      rw [Holds, hqueued, ← or_assoc]
      rfl
  · intro r he
    subst he
    exact hout.readyReport hs hm

/-- Nonce 1 waits; nonce 0 goes in and takes it along. -/
theorem addTransaction_accounts_promotion :
    ∃ s r s', PoolRun [.addTransaction (sampleTx 2 1 0 10)] s ∧
      s.addTransaction ascendingOrder (sampleTx 1 0 0 10) = .ok (.ok (.ready r), s') ∧
      r.promoted = [2] ∧ ReadyReport s (sampleTx 1 0 0 10) r s' := by
  obtain ⟨s, hrun, hP⟩ := run_of_execAll ascendingOrder 0 [.addTransaction (sampleTx 2 1 0 10)]
    (fun s => (s.addTransaction ascendingOrder (sampleTx 1 0 0 10)).toOption.map
      (·.1.toOption) = some (some (.ready { AddedReady.new 1 with promoted := [2] })))
    (by decide +kernel) (by decide +kernel)
  cases hadd : s.addTransaction ascendingOrder (sampleTx 1 0 0 10) with
  | error e =>
    rw [hadd] at hP
    cases hP
  | ok out =>
    obtain ⟨added | added, s'⟩ := out
    · rw [hadd] at hP
      cases hP
    · rw [hadd] at hP
      cases hP
      exact ⟨s, _, s', hrun, hadd, rfl, (addTransaction_accounts hrun (by decide) hadd).2.2 _ rfl⟩

/-! ### Assertions -/

/-- The calls of `add_ready_transaction` an operation on `s` makes: the pool at the
time of the call, and the transaction. -/
inductive AddReadyCall (ord : HashOrder) (s : PoolInner) :
    PoolInner → PendingPoolTransaction → Prop
  /-- By `add_transaction`, when nothing is missing. -/
  | add {tx : PoolTransaction} :
      NonceMarked tx → s.contains tx.hash = false → (s.incoming tx).isReady = true →
      AddReadyCall ord s s (s.incoming tx)
  /-- By `prune_markers`, once for each import. -/
  | prune {ms : List TxMarker} {imports done rest : List PendingPoolTransaction}
      {u : PendingPoolTransaction} {pruned : List PoolTransaction}
      {promoted : List AddedTransaction} {failed : List TxHash} {s₁ s₂ : PoolInner} :
      ms.foldlM (pruneMarker ord) ([], [], s) = .ok (imports, pruned, s₁) →
      imports = done ++ u :: rest →
      done.foldlM (promote ord) ([], [], s₁) = .ok (promoted, failed, s₂) →
      AddReadyCall ord s s₂ u

theorem AddReadyCall.configInv {s₂ : PoolInner} (hs : PoolInv s) (h : AddReadyCall ord s s₂ u) :
    ∃ M, ConfigInv (s₂, u :: M) := by
  cases h with
  | add hm hc hready => exact ⟨[], configInv_incoming hs hm hc hready⟩
  | @prune ms imports done rest u pruned promoted failed s₁ s₂ hfold himp hdone =>
    obtain ⟨labels, L, s₁', heq, -, hphase⟩ := pruneMarker_spec ord ms s [] [] ⟨hs, loose_nil s⟩
    rw [hfold] at heq
    cases heq
    have hc₁ : ConfigInv (s₁, done ++ u :: rest) := by
      rw [← himp]
      exact hphase.keeps ⟨hs, loose_nil s⟩ ConfigInv.pruneStep
    obtain ⟨evs, s', promoted', failed', heq', hrun, -⟩ :=
      promote_spec ord (u :: rest) done s₁ [] [] hc₁
    rw [hdone] at heq'
    cases heq'
    exact ⟨rest, hc₁.absorb hrun.absorb⟩

/-- **Assertions.** No assertion of the pool fails in any run, and the branch for a cycle is never
taken. -/
theorem operations_never_panic {ops : List PoolOp} {s : PoolInner} (hrun : PoolRun ops s)
    (ord : HashOrder) :
    (∀ tx, NonceMarked tx → ∃ res s', s.addTransaction ord tx = .ok (res, s')) ∧
      (∀ ms, ∃ res s', s.pruneMarkers ord ms = .ok (res, s')) ∧
      (∀ s₁ u, AddReadyCall ord s s₁ u →
        ∃ res s', s₁.addReadyTransaction ord u = .ok (res, s') ∧
          res ≠ .error .cyclicTransaction) := by
  have hs := hrun.inv
  refine ⟨?_, ?_, ?_⟩
  · intro tx hm
    obtain ⟨res, s', heq, -⟩ := addTransaction_spec ord hs hm
    exact ⟨res, s', heq⟩
  · intro ms
    obtain ⟨labels, imports, s₁, evs, s', promoted, failed, heq, -⟩ := pruneMarkers_spec hs ms
    exact ⟨_, s', heq⟩
  · intro s₁ u hcall
    obtain ⟨M, hc⟩ := hcall.configInv hs
    rcases addReadyTransaction_cases ord hc with
      ⟨o, -, -, heq⟩ | ⟨evs, s', r, p, replaced, -, heq, -⟩
    · exact ⟨_, _, heq, by simp⟩
    · exact ⟨_, _, heq, by simp⟩

/-- Nonce 1 waited for nonce 0; both are ready. -/
theorem operations_never_panic_sample :
    ∃ s, PoolRun [.addTransaction (sampleTx 2 1 0 10), .addTransaction (sampleTx 1 0 0 10)] s ∧
      (∀ ms, ∃ res s', s.pruneMarkers ascendingOrder ms = .ok (res, s')) := by
  obtain ⟨s, hrun, -⟩ := run_of_execAll ascendingOrder 0
    [.addTransaction (sampleTx 2 1 0 10), .addTransaction (sampleTx 1 0 0 10)]
    (fun _ => true) (by decide +kernel) (by decide +kernel)
  exact ⟨s, hrun, (operations_never_panic hrun ascendingOrder).2.1⟩

end BaseAnvil.Pool

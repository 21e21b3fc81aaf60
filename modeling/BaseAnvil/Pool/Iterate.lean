import BaseAnvil.Pool.Account
import BaseAnvil.Pool.Adoption
import BaseAnvil.Pool.Walk

/-!
# BaseAnvil.Pool.Iterate

The order in which the ready transactions are handed out.

The abstract picture: a transaction is *available* once every ready transaction it
waits for has been handed out, and the next one is the greatest available one. The
iterator keeps the references of the available transactions in its ordered set
(`IterInv`). This rests on the counts of the ready half being right.
-/

namespace BaseAnvil.Pool

open Lib PoolInner PoolTransaction Walking

/-! ### What is available -/

/-- What the iterator relies on. -/
structure Walkable (r : ReadyTransactions) : Prop where
  wf : ReadyWf r
  indexed : Indexed r
  counts : CountsRight r
  /-- A link to a ready transaction leads to one that waits for its owner. -/
  links : ∀ h p, r.readyTx.lookup h = some p → ∀ x ∈ p.unlocks, ∀ t,
    r.readyTx.lookup x = some t → t.tx.Follows p.tx

/-- `t` may be handed out once `done` are. -/
structure Available (r : ReadyTransactions) (done : List PoolTransaction)
    (t : ReadyTransaction) : Prop where
  ready : r.readyTx.lookup t.tx.hash = some t
  fresh : t.tx ∉ done
  preceded : ∀ h p, r.readyTx.lookup h = some p → t.tx.Follows p.tx → p.tx ∈ done

structure IterInv (r : ReadyTransactions) (done : List PoolTransaction)
    (it : TransactionsIterator) : Prop extends Walking r it where
  independent : ∀ x, x ∈ it.independent ↔ ∃ t, Available r done t ∧ t.transaction = x
  nodup : done.Nodup
  ready : ∀ x ∈ done, ∃ t, r.readyTx.lookup x.hash = some t ∧ t.tx = x
  closed : ∀ x ∈ done, ∀ h p, r.readyTx.lookup h = some p → x.Follows p.tx → p.tx ∈ done

variable {r : ReadyTransactions}

namespace Walkable

/-- The first transactions are those of the independent set. -/
theorem iterInv_start (hw : Walkable r) : IterInv r [] r.getTransactions := by
  refine ⟨start hw.wf.toReadyCore hw.indexed, ?_, List.nodup_nil,
    fun x hx => absurd hx List.not_mem_nil, fun x hx => absurd hx List.not_mem_nil⟩
  intro x
  rw [show r.getTransactions.independent = r.independentTransactions from rfl, hw.indexed.mem]
  constructor
  · intro hex
    obtain ⟨h, t, ht, rfl, hoff⟩ := hex
    refine ⟨t, ⟨hw.wf.lookup_hash ht, List.not_mem_nil, ?_⟩, rfl⟩
    intro y p hp hfol
    have hnone := hw.counts h t ht hoff _ hfol
    rw [(hw.wf.provided _ y).mpr ⟨p, hp, rfl⟩] at hnone
    cases hnone
  · intro hex
    obtain ⟨t, hav, rfl⟩ := hex
    refine ⟨_, t, hav.ready, rfl, Nat.le_of_not_lt fun hlt => ?_⟩
    obtain ⟨y, p, hp, hfol, -⟩ := hw.wf.linked _ t hav.ready hlt
    exact absurd (hav.preceded y p hp hfol) List.not_mem_nil

end Walkable

/-! ### One call of `next` -/

/-- `t` is the greatest of those available. -/
structure Greatest (r : ReadyTransactions) (done : List PoolTransaction) (t : ReadyTransaction) :
    Prop extends Available r done t where
  greatest : ∀ t', Available r done t' → t' ≠ t →
    PoolTransactionRef.cmp t'.transaction t.transaction = .lt

variable {done : List PoolTransaction}

/-- What is available next: what was, and what waited for `t`. -/
theorem available_append (hw : Walkable r) {t x : ReadyTransaction}
    (hclosed : ∀ x ∈ done, ∀ h p, r.readyTx.lookup h = some p → x.Follows p.tx → p.tx ∈ done)
    (ht : Available r done t) :
    Available r (done ++ [t.tx]) x ↔
      (Available r done x ∧ x ≠ t) ∨ (r.readyTx.lookup x.tx.hash = some x ∧ x.tx.Follows t.tx) := by
  constructor
  · intro hx
    have hfresh := hx.fresh
    rw [List.mem_append, not_or, List.mem_singleton] at hfresh
    by_cases hfol : x.tx.Follows t.tx
    · exact Or.inr ⟨hx.ready, hfol⟩
    · refine Or.inl ⟨⟨hx.ready, hfresh.1, ?_⟩, fun heq => hfresh.2 (by rw [heq])⟩
      intro h p hp hf
      rcases List.mem_append.mp (hx.preceded h p hp hf) with hmem | hmem
      · exact hmem
      · rw [List.mem_singleton] at hmem
        rw [hmem] at hf
        exact absurd hf hfol
  · intro hor
    rcases hor with ⟨hx, hne⟩ | ⟨hx, hfol⟩
    · refine ⟨hx.ready, ?_, fun h p hp hf => List.mem_append_left _ (hx.preceded h p hp hf)⟩
      rw [List.mem_append, not_or, List.mem_singleton]
      refine ⟨hx.fresh, fun heq => hne ?_⟩
      have hxr := hx.ready
      rw [heq, ht.ready] at hxr
      exact (Option.some.inj hxr).symm
    · have hxm := hw.wf.marked _ x hx
      refine ⟨hx, ?_, ?_⟩
      · rw [List.mem_append, not_or, List.mem_singleton]
        refine ⟨fun hmem => ht.fresh (hclosed x.tx hmem _ t ht.ready hfol), fun heq => ?_⟩
        rw [heq] at hfol
        exact (hw.wf.marked _ t ht.ready).not_follows_self hfol
      · -- the only transaction it waits for is `t`
        intro h p hp hf
        obtain ⟨-, rfl⟩ := hw.wf.slot_inj hp ht.ready (hxm.eq_of_mem_requires hfol hf)
        exact List.mem_append_right _ List.mem_cons_self

theorem IterInv.next (hw : Walkable r) {it : TransactionsIterator} (hi : IterInv r done it) :
    (it.next = none ∧ ∀ t, ¬ Available r done t) ∨
      ∃ t it', it.next = some (t.tx, it') ∧ Greatest r done t ∧ IterInv r (done ++ [t.tx]) it' := by
  rcases hi.toWalking.next hw.wf.toReadyCore hw.indexed with
    ⟨hnext, hempty⟩ | ⟨t, it', hnext, hw', htr, hmem, hlt, hind⟩
  · exact Or.inl ⟨hnext, fun t ht => hempty _ ((hi.independent _).mpr ⟨t, ht, rfl⟩)⟩
  · have href : ∀ {t'}, r.readyTx.lookup t'.tx.hash = some t' → t'.transaction = t.transaction →
        t' = t := by
      intro t' ht' heq
      refine hw.indexed.ref_inj ht' htr ?_
      rw [heq]
      exact Std.ReflCmp.compare_self
    have ht : Available r done t := by
      obtain ⟨t', ht', heq⟩ := (hi.independent _).mp hmem
      rwa [href ht'.ready heq] at ht'
    refine Or.inr ⟨t, it', hnext, ⟨ht, fun t' ht' hne => ?_⟩, ⟨hw', fun x => ?_, ?_, ?_, ?_⟩⟩
    · exact hlt _ ((hi.independent _).mpr ⟨t', ht', rfl⟩) fun heq => hne (href ht'.ready heq)
    · rw [hind, hi.independent]
      simp only [available_append hw hi.closed ht]
      constructor
      · intro hor
        rcases hor with ⟨⟨t', ht', rfl⟩, hne⟩ | ⟨h, hh, t', ht', rfl⟩
        · exact ⟨t', Or.inl ⟨ht', fun heq => hne (by rw [heq])⟩, rfl⟩
        · exact ⟨t', Or.inr ⟨hw.wf.lookup_hash ht', hw.links _ t htr h hh t' ht'⟩, rfl⟩
      · intro hex
        obtain ⟨t', ⟨ht', hne⟩ | ⟨ht', hfol⟩, rfl⟩ := hex
        · exact Or.inl ⟨⟨t', ht', rfl⟩, fun heq => hne (href ht'.ready heq)⟩
        · exact Or.inr ⟨_, hw.counts.listed hw.wf ht' htr hfol, t', ht', rfl⟩
    · refine List.nodup_append.mpr ⟨hi.nodup, List.nodup_singleton _, ?_⟩
      intro a ha b hb hab
      rw [List.mem_singleton] at hb
      subst hb hab
      exact ht.fresh ha
    · intro x hx
      rcases List.mem_append.mp hx with hx | hx
      · exact hi.ready x hx
      · rw [List.mem_singleton] at hx
        subst hx
        exact ⟨t, htr, rfl⟩
    · intro x hx h p hp hfol
      rcases List.mem_append.mp hx with hx | hx
      · exact List.mem_append_left _ (hi.closed x hx h p hp hfol)
      · rw [List.mem_singleton] at hx
        subst hx
        exact List.mem_append_left _ (ht.preceded h p hp hfol)

/-! ### The whole iteration -/

/-- `l` continues `done` with the greatest available transaction each time, until
none is left. -/
inductive Handed (r : ReadyTransactions) : List PoolTransaction → List PoolTransaction → Prop where
  | nil {done : List PoolTransaction} : (∀ t, ¬ Available r done t) → Handed r done []
  | cons {done l : List PoolTransaction} {t : ReadyTransaction} :
      Greatest r done t → Handed r (done ++ [t.tx]) l → Handed r done (t.tx :: l)

theorem IterInv.length_le {it : TransactionsIterator} (hi : IterInv r done it) :
    done.length ≤ r.readyTx.keys.card := by
  have hnodup : (done.map (·.hash)).Nodup := by
    refine List.Nodup.map_on ?_ hi.nodup
    intro x hx y hy heq
    obtain ⟨t, ht, rfl⟩ := hi.ready x hx
    obtain ⟨t', ht', rfl⟩ := hi.ready y hy
    rw [heq, ht'] at ht
    cases ht
    rfl
  have hsub : (done.map (·.hash)).toFinset ⊆ r.readyTx.keys := by
    intro h hh
    obtain ⟨x, hx, rfl⟩ := List.mem_map.mp (List.mem_toFinset.mp hh)
    obtain ⟨t, ht, -⟩ := hi.ready x hx
    exact Finmap.mem_keys.mpr (Finmap.mem_iff.mpr ⟨t, ht⟩)
  have hle := Finset.card_le_card hsub
  rwa [List.toFinset_card_of_nodup hnodup, List.length_map] at hle

/-- One call per transaction left, and one more to see that none is. -/
theorem IterInv.collect (hw : Walkable r) (n : Nat) :
    ∀ {done : List PoolTransaction} {it : TransactionsIterator}, IterInv r done it →
      r.readyTx.keys.card ≤ done.length + n →
      ∃ l, (∀ fuel, n < fuel → it.collect fuel = some l) ∧ Handed r done l := by
  induction n with
  | zero =>
    intro done it hi hle
    rcases hi.next hw with ⟨hnext, hnone⟩ | ⟨t, it', -, -, hi'⟩
    · exact ⟨[], collect_nil hnext 0, .nil hnone⟩
    · have hlen := hi'.length_le
      rw [List.length_append, List.length_singleton] at hlen
      omega
  | succ n ih =>
    intro done it hi hle
    rcases hi.next hw with ⟨hnext, hnone⟩ | ⟨t, it', hnext, hg, hi'⟩
    · exact ⟨[], collect_nil hnext _, .nil hnone⟩
    · obtain ⟨l, hl, hhand⟩ := ih hi' (by
        rw [List.length_append, List.length_singleton]
        omega)
      exact ⟨t.tx :: l, collect_cons hnext hl, .cons hg hhand⟩

namespace Handed

variable {l : List PoolTransaction} (h : Handed r done l)
include h

theorem greatest {pre post : List PoolTransaction} {x : PoolTransaction}
    (heq : l = pre ++ x :: post) : ∃ t, Greatest r (done ++ pre) t ∧ t.tx = x := by
  induction h generalizing pre with
  | nil _ =>
    cases pre <;> cases heq
  | @cons done l t hg _ ih =>
    cases pre with
    | nil =>
      cases heq
      refine ⟨t, ?_, rfl⟩
      rwa [List.append_nil]
    | cons y pre =>
      rw [List.cons_append] at heq
      cases heq
      obtain ⟨t', hg', hx⟩ := ih rfl
      refine ⟨t', ?_, hx⟩
      rwa [List.append_assoc, List.singleton_append] at hg'

theorem nodup : l.Nodup ∧ ∀ x ∈ l, x ∉ done := by
  induction h with
  | nil _ => exact ⟨List.nodup_nil, fun x hx => absurd hx List.not_mem_nil⟩
  | @cons done l t hg _ ih =>
    obtain ⟨hnodup, hfresh⟩ := ih
    refine ⟨List.nodup_cons.mpr ⟨fun hmem => hfresh _ hmem (by simp), hnodup⟩, ?_⟩
    intro x hx
    rcases List.mem_cons.mp hx with rfl | hx
    · exact hg.fresh
    · exact fun hmem => hfresh x hx (List.mem_append_left _ hmem)

/-- Nothing is left when nothing is available: a missing transaction of least
nonce would be. -/
theorem complete (hr : ReadyCore r) {t : ReadyTransaction}
    (ht : r.readyTx.lookup t.tx.hash = some t) : t.tx ∈ done ++ l := by
  induction h with
  | @nil done hnone =>
    rw [List.append_nil]
    induction hn : t.tx.nonce.toNat using Nat.strong_induction_on generalizing t with
    | _ n ih =>
      by_contra hmem
      refine hnone t ⟨ht, hmem, fun h p hp hfol => ?_⟩
      have hlt := ((hr.marked _ t ht).nonce_of_follows hfol).2
      exact ih _ (by omega) (hr.lookup_hash hp) rfl
  | cons _ _ ih =>
    rwa [List.append_assoc, List.singleton_append] at ih

end Handed

/-- A slot has one ready transaction. -/
theorem hasReady_slot_inj {s : PoolInner} (hr : ReadyCore s.readyTransactions)
    {x y : PoolTransaction} (hx : s.HasReady x) (hy : s.HasReady y) (hslot : x.slot = y.slot) :
    x = y := by
  obtain ⟨t, ht, rfl⟩ := hx
  obtain ⟨t', ht', rfl⟩ := hy
  rw [(hr.slot_inj ht ht' hslot).2]

/-- Of the ready transactions of `a`, each but the lowest waits for another ready
one. -/
def PoolInner.Chained (s : PoolInner) (a : Address) : Prop :=
  ∀ x y, s.HasReady x → s.HasReady y → x.sender = a → y.sender = a → y.nonce < x.nonce →
    ∃ p, s.HasReady p ∧ x.Follows p

/-- What running the iterator to the end gives: every ready transaction once, in an order that
respects predecessors, nonces and priorities. -/
structure HandsOut (s : PoolInner) (l : List PoolTransaction) : Prop where
  nodup : l.Nodup
  complete : ∀ x, x ∈ l ↔ s.HasReady x
  /-- Predecessors come first. -/
  preceded : ∀ pre x post, l = pre ++ x :: post → ∀ p, s.HasReady p → x.Follows p → p ∈ pre
  increasing : ∀ a, s.Chained a → ∀ pre x post, l = pre ++ x :: post → x.sender = a →
    ∀ y ∈ post, y.sender = a → x.nonce < y.nonce
  /-- Each is the greatest of those whose predecessors are out. -/
  greatest : ∀ pre x post, l = pre ++ x :: post →
    ∃ t, Greatest s.readyTransactions pre t ∧ t.tx = x

theorem HandsOut.of_handed {s : PoolInner} {l : List PoolTransaction}
    (hr : ReadyCore s.readyTransactions) (h : Handed s.readyTransactions [] l) : HandsOut s l := by
  have hcomplete : ∀ x, x ∈ l ↔ s.HasReady x := by
    intro x
    constructor
    · intro hx
      obtain ⟨pre, post, heq⟩ := List.append_of_mem hx
      obtain ⟨t, hg, rfl⟩ := h.greatest heq
      exact ⟨t, hg.ready, rfl⟩
    · intro hx
      obtain ⟨t, ht, rfl⟩ := hx
      exact h.complete hr ht
  have hgreatest : ∀ pre x post, l = pre ++ x :: post →
      ∃ t, Greatest s.readyTransactions pre t ∧ t.tx = x :=
    fun pre x post heq => h.greatest heq
  have hpreceded : ∀ pre x post, l = pre ++ x :: post → ∀ p, s.HasReady p → x.Follows p →
      p ∈ pre := by
    intro pre x post heq p hp hfol
    obtain ⟨t, hg, rfl⟩ := hgreatest pre x post heq
    obtain ⟨t', ht', rfl⟩ := hp
    exact hg.preceded _ t' ht' hfol
  -- down the chain from `x` every lower nonce of the sender is met
  have hlower : ∀ n a, s.Chained a → ∀ pre x post, x.nonce.toNat = n → l = pre ++ x :: post →
      x.sender = a → ∀ y, s.HasReady y → y.sender = a → y.nonce < x.nonce → y ∈ pre := by
    intro n a hch
    induction n using Nat.strong_induction_on with
    | _ n ih =>
      intro pre x post hn heq hxa y hy hya hlt
      have hx : s.HasReady x := (hcomplete x).mp (by rw [heq]; simp)
      obtain ⟨p, hp, hfol⟩ := hch x y hx hy hxa hya hlt
      have hmem := hpreceded pre x post heq p hp hfol
      obtain ⟨pre', post', rfl⟩ := List.append_of_mem hmem
      obtain ⟨hsend, hnonce⟩ := (hx.marked hr).nonce_of_follows hfol
      rw [UInt64.lt_iff_toNat_lt] at hlt
      by_cases hyp : y.nonce = p.nonce
      · have hslot : y.slot = p.slot := by
          rw [slot, slot, hyp, hya, ← hxa, hsend]
        rw [hasReady_slot_inj hr hy hp hslot]
        exact hmem
      · have hne : y.nonce.toNat ≠ p.nonce.toNat := fun h => hyp (UInt64.toNat_inj.mp h)
        refine List.mem_append_left _ (ih p.nonce.toNat (by omega) pre' p (post' ++ x :: post) rfl
          (by rw [heq]; simp) (hsend ▸ hxa) y hy hya ?_)
        rw [UInt64.lt_iff_toNat_lt]
        omega
  refine ⟨h.nodup.1, hcomplete, hpreceded, ?_, hgreatest⟩
  intro a hch pre x post heq hxa y hy hya
  have hnodup := h.nodup.1
  rw [heq, List.nodup_append, List.nodup_cons] at hnodup
  obtain ⟨-, ⟨hxpost, -⟩, hdisj⟩ := hnodup
  have hyr : s.HasReady y := (hcomplete y).mp (by rw [heq]; simp [hy])
  by_contra hge
  by_cases hyx : y.nonce < x.nonce
  · exact hdisj y (hlower _ a hch pre x post rfl heq hxa y hyr hya hyx) y
      (List.mem_cons_of_mem _ hy) rfl
  · have hxr : s.HasReady x := (hcomplete x).mp (by rw [heq]; simp)
    have hnonce : y.nonce = x.nonce := by
      rw [UInt64.lt_iff_toNat_lt] at hge hyx
      exact UInt64.toNat_inj.mp (by omega)
    have heqxy := hasReady_slot_inj hr hyr hxr (by
      rw [slot, slot, hnonce, hya, hxa])
    rw [heqxy] at hy
    exact hxpost hy

/-- **The order of the ready transactions.** As long as no step lets a ready transaction adopt an
orphan, the iterator ends and hands out every ready transaction once, predecessors and greater ones
first. -/
theorem handsOut_of_keepsOrphans {ops : List PoolOp} {s : PoolInner}
    (hrun : Run (Guarded KeepsOrphans PoolStep) PoolInner.empty ops s)
    (hT : DistinctHashes (submitted ops)) (hlen : (submitted ops).length ≤ 2 ^ 64) :
    ∃ l, (∀ fuel, s.readyTransactions.readyTx.keys.card < fuel →
      s.readyTransactions.getTransactions.collect fuel = some l) ∧ HandsOut s l := by
  have hinv := PoolRun.inv hrun.unguard
  obtain ⟨n, hn, -⟩ := PoolRun.counted hrun.unguard hlen
  have hw : Walkable s.readyTransactions := by
    refine ⟨hinv.ready, hn.indexed, countsRight_of_keepsOrphans hrun hT, ?_⟩
    intro h p hp x hx t ht
    exact (PoolRun.traced hrun.unguard).follows_of_listed hT hinv.ready.toReadyCore hp hx ht
  obtain ⟨l, hl, hhand⟩ := hw.iterInv_start.collect hw s.readyTransactions.readyTx.keys.card
    (Nat.le_add_left _ _)
  exact ⟨l, hl, HandsOut.of_handed hinv.ready.toReadyCore hhand⟩

/-- Nonce 0, which requires nothing, and nonce 1 behind it. -/
theorem handsOut_of_keepsOrphans_pair :
    ∃ s, Run (Guarded KeepsOrphans PoolStep) PoolInner.empty pairOps s ∧
      DistinctHashes (submitted pairOps) ∧ (submitted pairOps).length ≤ 2 ^ 64 ∧
      ∃ l, (∀ fuel, s.readyTransactions.readyTx.keys.card < fuel →
        s.readyTransactions.getTransactions.collect fuel = some l) ∧ HandsOut s l := by
  obtain ⟨s, hrun, hT, hlen⟩ := pair_keepsOrphans
  exact ⟨s, hrun, hT, hlen, handsOut_of_keepsOrphans hrun hT hlen⟩

/-- The orphan of `adoptionOps` comes out before the transaction it requires. -/
theorem adoption_breaks_order :
    ∃ s l, PoolRun adoptionOps s ∧ DistinctHashes (submitted adoptionOps) ∧
      s.readyTransactions.getTransactions.collect 3 = some l ∧
      l = [sampleTx 1 1 0 10, sampleTx 3 0 0 5] ∧
      (sampleTx 1 1 0 10).Follows (sampleTx 3 0 0 5) ∧ ¬ HandsOut s l := by
  obtain ⟨s, hrun, hP⟩ := run_of_execAll ascendingOrder 0 adoptionOps
    (fun s => s.readyTransactions.getTransactions.collect 3 =
      some [sampleTx 1 1 0 10, sampleTx 3 0 0 5])
    (by decide +kernel) (by decide +kernel)
  have hfol : (sampleTx 1 1 0 10).Follows (sampleTx 3 0 0 5) := by
    show _ ∈ _
    decide +kernel
  refine ⟨s, _, hrun, ?_, hP, rfl, hfol, fun hout => ?_⟩
  · show List.Nodup _
    decide +kernel
  · have hready := (hout.complete (sampleTx 3 0 0 5)).mp (by simp)
    exact absurd (hout.preceded [] _ _ rfl _ hready hfol) List.not_mem_nil

end BaseAnvil.Pool

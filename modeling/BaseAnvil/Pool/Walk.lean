import Mathlib.Algebra.Order.BigOperators.Group.Finset
import BaseAnvil.Pool.ReadyOrder

/-!
# BaseAnvil.Pool.Walk

One call of the iterator over the ready transactions, in any pool.

The iterator hands out the greatest reference of its ordered set and adds the
references of the ready transactions among its `unlocks`. Its map of awaiting
transactions stays empty: nobody waits for more than one marker.
-/

namespace BaseAnvil.Pool

open Lib TransactionsIterator BTreeSet

variable {t : ReadyTransaction}

/-- References tell ready transactions apart. -/
theorem Indexed.ref_inj {r : ReadyTransactions} (hi : Indexed r) {t' : ReadyTransaction}
    (ht : r.readyTx.lookup t.tx.hash = some t) (ht' : r.readyTx.lookup t'.tx.hash = some t')
    (hcmp : PoolTransactionRef.cmp t.transaction t'.transaction = .eq) : t = t' := by
  have heq := hi.distinct _ _ t t' ht ht' hcmp
  rw [heq, ht'] at ht
  exact (Option.some.inj ht).symm

/-- `it` walks over the ready transactions of `r`. -/
structure Walking (r : ReadyTransactions) (it : TransactionsIterator) : Prop where
  all : it.all = r.readyTx
  awaiting : it.awaiting = ∅
  refs : ∀ x ∈ it.independent, ∃ t, r.readyTx.lookup t.tx.hash = some t ∧ t.transaction = x

variable {r : ReadyTransactions} {it : TransactionsIterator}

namespace Walking

theorem start (hr : ReadyCore r) (hi : Indexed r) : Walking r r.getTransactions := by
  refine ⟨rfl, rfl, fun x hx => ?_⟩
  obtain ⟨h, t, ht, rfl, -⟩ := (hi.mem x).mp hx
  exact ⟨t, hr.lookup_hash ht, rfl⟩

/-- Inserting the reference of a ready transaction: an equal reference already in
the set is this very reference. -/
theorem mem_insert (hi : Indexed r) (hw : Walking r it) (ht : r.readyTx.lookup t.tx.hash = some t)
    (x : PoolTransactionRef) :
    x ∈ it.independent.insert t.transaction ↔ x ∈ it.independent ∨ x = t.transaction := by
  rw [BTreeSet.mem_insert]
  constructor
  · intro hor
    exact hor.imp_right fun hand => hand.1
  · intro hor
    rcases hor with hx | rfl
    · exact Or.inl hx
    · by_cases hfree : ∀ b ∈ it.independent, PoolTransactionRef.cmp b t.transaction ≠ .eq
      · exact Or.inr ⟨rfl, hfree⟩
      · simp only [not_forall, not_not] at hfree
        obtain ⟨b, hb, hcmp⟩ := hfree
        obtain ⟨t', ht', rfl⟩ := hw.refs b hb
        have heq := hi.ref_inj ht' ht hcmp
        subst heq
        exact Or.inl hb

theorem unlock (hr : ReadyCore r) (hi : Indexed r) (hw : Walking r it) (h : TxHash) :
    Walking r (it.unlock h) ∧ ∀ x, x ∈ (it.unlock h).independent ↔
      x ∈ it.independent ∨ ∃ t, r.readyTx.lookup h = some t ∧ t.transaction = x := by
  cases ht : r.readyTx.lookup h with
  | none =>
    have hone : it.unlock h = it := by
      simp [TransactionsIterator.unlock, hw.awaiting, hw.all, ht]
    rw [hone]
    exact ⟨hw, fun x => by simp⟩
  | some t =>
    have hself := hr.lookup_hash ht
    have hge : t.requiresOffset + 1 ≥ t.transaction.transaction.requires.length := by
      show _ ≥ t.tx.requires.length
      rcases (hr.marked h t ht).requires with hreq | ⟨-, hreq⟩ <;> simp [hreq]
    have hone : it.unlock h = { it with independent := it.independent.insert t.transaction } := by
      simp [TransactionsIterator.unlock, hw.awaiting, hw.all, ht,
        independentOrAwaiting, hge]
    rw [hone]
    refine ⟨⟨hw.all, hw.awaiting, fun x hx => ?_⟩, fun x => ?_⟩
    · rcases (hw.mem_insert hi hself x).mp hx with hx | rfl
      · exact hw.refs x hx
      · exact ⟨t, hself, rfl⟩
    · show x ∈ it.independent.insert t.transaction ↔ _
      rw [hw.mem_insert hi hself]
      simp [eq_comm]

theorem foldl_unlock (hr : ReadyCore r) (hi : Indexed r) (hw : Walking r it) (l : List TxHash) :
    Walking r (l.foldl TransactionsIterator.unlock it) ∧
      ∀ x, x ∈ (l.foldl TransactionsIterator.unlock it).independent ↔
        x ∈ it.independent ∨ ∃ h ∈ l, ∃ t, r.readyTx.lookup h = some t ∧ t.transaction = x := by
  induction l generalizing it with
  | nil => exact ⟨hw, fun x => by simp⟩
  | cons h rest ih =>
    obtain ⟨hw₁, hmem₁⟩ := hw.unlock hr hi h
    obtain ⟨hw₂, hmem₂⟩ := ih hw₁
    refine ⟨hw₂, fun x => ?_⟩
    rw [List.foldl_cons, hmem₂, hmem₁, or_assoc]
    simp

theorem next_none (hlast : it.independent.last? = none) : it.next = none := by
  rw [next]
  split
  · rfl
  · rename_i best heq
    rw [hlast] at heq
    cases heq

theorem next_some {best : PoolTransactionRef} (hlast : it.independent.last? = some best)
    (hall : it.all.lookup best.transaction.hash = some t) :
    it.next = some (best.transaction,
      t.unlocks.foldl TransactionsIterator.unlock
        { it with independent := it.independent.remove best }) := by
  rw [next]
  split
  · rename_i heq
    rw [hlast] at heq
    cases heq
  · rename_i best' heq
    rw [hlast] at heq
    cases heq
    simp only [hall]

/-- One call: the set is empty, or its greatest reference goes and the ready
transactions it unlocks come in. -/
theorem next (hr : ReadyCore r) (hi : Indexed r) (hw : Walking r it) :
    (it.next = none ∧ ∀ x, x ∉ it.independent) ∨
      ∃ t it', it.next = some (t.tx, it') ∧ Walking r it' ∧
        r.readyTx.lookup t.tx.hash = some t ∧ t.transaction ∈ it.independent ∧
        (∀ x ∈ it.independent, x ≠ t.transaction →
          PoolTransactionRef.cmp x t.transaction = .lt) ∧
        ∀ x, x ∈ it'.independent ↔ (x ∈ it.independent ∧ x ≠ t.transaction) ∨
          ∃ h ∈ t.unlocks, ∃ t', r.readyTx.lookup h = some t' ∧ t'.transaction = x := by
  cases hlast : it.independent.last? with
  | none => exact Or.inl ⟨next_none hlast, last?_eq_none.mp hlast⟩
  | some best =>
    have hbest := mem_of_last? hlast
    obtain ⟨t, ht, rfl⟩ := hw.refs best hbest
    have hall : it.all.lookup t.transaction.transaction.hash = some t := by
      rw [hw.all]
      exact ht
    have hrest : ∀ x, x ∈ it.independent.remove t.transaction ↔
        x ∈ it.independent ∧ x ≠ t.transaction := by
      intro x
      rw [mem_remove]
      refine and_congr_right fun hx => not_congr ⟨fun hcmp => ?_, fun heq => ?_⟩
      · obtain ⟨t', ht', rfl⟩ := hw.refs x hx
        rw [hi.ref_inj ht' ht hcmp]
      · rw [heq]
        exact Std.ReflCmp.compare_self
    have hw₁ : Walking r { it with independent := it.independent.remove t.transaction } :=
      ⟨hw.all, hw.awaiting, fun x hx => hw.refs x ((hrest x).mp hx).1⟩
    obtain ⟨hw₂, hmem⟩ := hw₁.foldl_unlock hr hi t.unlocks
    refine Or.inr ⟨t, _, next_some hlast hall, hw₂, ht, hbest, fun x hx hne => ?_, fun x => ?_⟩
    · exact lt_of_last? hlast hx hne
    · rw [hmem]
      exact or_congr_left (hrest x)

theorem collect_nil (hnext : it.next = none) (n : Nat) :
    ∀ fuel, n < fuel → it.collect fuel = some [] := by
  intro fuel hfuel
  cases fuel with
  | zero => omega
  | succ fuel => rw [collect, hnext]

theorem collect_cons {it' : TransactionsIterator} {tx : PoolTransaction} {l : List PoolTransaction}
    {n : Nat} (hnext : it.next = some (tx, it'))
    (hrest : ∀ fuel, n < fuel → it'.collect fuel = some l) :
    ∀ fuel, n + 1 < fuel → it.collect fuel = some (tx :: l) := by
  intro fuel hfuel
  cases fuel with
  | zero => omega
  | succ fuel =>
    rw [collect, hnext]
    simp [hrest fuel (by omega)]

end Walking

/-! ### The walk ends -/

/-- The links lead one nonce up, at the same sender. -/
def Ascending (r : ReadyTransactions) : Prop :=
  ∀ h p, r.readyTx.lookup h = some p → ∀ x ∈ p.unlocks, ∀ t, r.readyTx.lookup x = some t →
    t.tx.sender = p.tx.sender ∧ t.tx.nonce.toNat = p.tx.nonce.toNat + 1

/-- How many nonces a reference has above it. -/
def PoolTransactionRef.headroom (x : PoolTransactionRef) : Nat :=
  2 ^ 64 - x.transaction.nonce.toNat

/-- What the walk has left, at most. -/
def TransactionsIterator.headroom (it : TransactionsIterator) : Nat :=
  ∑ x ∈ it.independent.toList.toFinset, x.headroom

theorem sum_insert_le {α : Type} [DecidableEq α] (S : Finset α) (a : α) (f : α → Nat) :
    ∑ x ∈ insert a S, f x ≤ f a + ∑ x ∈ S, f x := by
  by_cases ha : a ∈ S
  · rw [Finset.insert_eq_of_mem ha]
    exact Nat.le_add_left _ _
  · exact Nat.le_of_eq (Finset.sum_insert ha)

namespace Walking

variable {it' : TransactionsIterator}

/-- A transaction is exchanged for at most one with less headroom. -/
theorem headroom_lt (hr : ReadyCore r) (ha : Ascending r)
    (ht : r.readyTx.lookup t.tx.hash = some t) (hmem : t.transaction ∈ it.independent)
    (hind : ∀ x, x ∈ it'.independent ↔ (x ∈ it.independent ∧ x ≠ t.transaction) ∨
      ∃ h ∈ t.unlocks, ∃ t', r.readyTx.lookup h = some t' ∧ t'.transaction = x) :
    it'.headroom < it.headroom := by
  have hpos : t.tx.nonce.toNat < 2 ^ 64 := t.tx.nonce.toNat_lt
  have hsplit := Finset.add_sum_erase it.independent.toList.toFinset PoolTransactionRef.headroom
    (List.mem_toFinset.mpr hmem)
  have hroom : t.transaction.headroom = 2 ^ 64 - t.tx.nonce.toNat := rfl
  unfold headroom
  by_cases hnext : ∃ h ∈ t.unlocks, ∃ t', r.readyTx.lookup h = some t'
  · obtain ⟨h, hh, t₁, ht₁⟩ := hnext
    obtain ⟨hsend, hnonce⟩ := ha _ t ht h hh t₁ ht₁
    have hsub : it'.independent.toList.toFinset ⊆
        insert t₁.transaction (it.independent.toList.toFinset.erase t.transaction) := by
      intro x hx
      rw [Finset.mem_insert, Finset.mem_erase]
      rcases (hind x).mp (List.mem_toFinset.mp hx) with ⟨hx, hne⟩ | ⟨y, hy, t₂, ht₂, rfl⟩
      · exact Or.inr ⟨hne, List.mem_toFinset.mpr hx⟩
      · -- the two provide the same marker
        obtain ⟨hsend', hnonce'⟩ := ha _ t ht y hy t₂ ht₂
        have hslot : t₂.tx.slot = t₁.tx.slot := by
          rw [PoolTransaction.slot, PoolTransaction.slot, hsend', hsend,
            UInt64.toNat_inj.mp (hnonce'.trans hnonce.symm)]
        rw [(hr.slot_inj ht₂ ht₁ hslot).2]
        exact Or.inl rfl
    have hle := Finset.sum_le_sum_of_subset (f := PoolTransactionRef.headroom) hsub
    have hins := sum_insert_le (it.independent.toList.toFinset.erase t.transaction) t₁.transaction
      PoolTransactionRef.headroom
    have hroom₁ : t₁.transaction.headroom = 2 ^ 64 - t₁.tx.nonce.toNat := rfl
    omega
  · have hsub : it'.independent.toList.toFinset ⊆
        it.independent.toList.toFinset.erase t.transaction := by
      intro x hx
      rw [Finset.mem_erase]
      rcases (hind x).mp (List.mem_toFinset.mp hx) with ⟨hx, hne⟩ | ⟨h, hh, t', ht', -⟩
      · exact ⟨hne, List.mem_toFinset.mpr hx⟩
      · exact absurd ⟨h, hh, t', ht'⟩ hnext
    have hle := Finset.sum_le_sum_of_subset (f := PoolTransactionRef.headroom) hsub
    omega

/-- `l` has what is in the set of `it`, and with a transaction all those it unlocks. -/
structure Covers (r : ReadyTransactions) (it : TransactionsIterator) (l : List PoolTransaction) :
    Prop where
  ready : ∀ x ∈ l, ∃ t, r.readyTx.lookup x.hash = some t ∧ t.tx = x
  start : ∀ t, r.readyTx.lookup t.tx.hash = some t → t.transaction ∈ it.independent → t.tx ∈ l
  closed : ∀ h p, r.readyTx.lookup h = some p → p.tx ∈ l → ∀ y ∈ p.unlocks, ∀ t,
    r.readyTx.lookup y = some t → t.tx ∈ l

theorem collect (hr : ReadyCore r) (hi : Indexed r) (ha : Ascending r) (n : Nat) :
    ∀ {it : TransactionsIterator}, Walking r it → it.headroom ≤ n →
      ∃ l, (∀ fuel, n < fuel → it.collect fuel = some l) ∧ Covers r it l := by
  have hnil : ∀ {it : TransactionsIterator}, (∀ x, x ∉ it.independent) → Covers r it [] :=
    fun hempty => ⟨fun x hx => absurd hx List.not_mem_nil, fun t _ hmem => absurd hmem (hempty _),
      fun h p _ hmem => absurd hmem List.not_mem_nil⟩
  induction n with
  | zero =>
    intro it hw hle
    rcases hw.next hr hi with ⟨hnext, hempty⟩ | ⟨t, it', -, -, ht, hmem, -, hind⟩
    · exact ⟨[], collect_nil hnext 0, hnil hempty⟩
    · have hlt := headroom_lt hr ha ht hmem hind
      omega
  | succ n ih =>
    intro it hw hle
    rcases hw.next hr hi with ⟨hnext, hempty⟩ | ⟨t, it', hnext, hw', ht, hmem, -, hind⟩
    · exact ⟨[], collect_nil hnext _, hnil hempty⟩
    · have hlt := headroom_lt hr ha ht hmem hind
      obtain ⟨l, hl, hcov⟩ := ih hw' (by omega)
      refine ⟨t.tx :: l, collect_cons hnext hl, fun x hx => ?_, fun t' ht' hmem' => ?_, ?_⟩
      · rcases List.mem_cons.mp hx with rfl | hx
        · exact ⟨t, ht, rfl⟩
        · exact hcov.ready x hx
      · by_cases heq : t'.transaction = t.transaction
        · rw [show t'.tx = t.tx from congrArg PoolTransactionRef.transaction heq]
          exact List.mem_cons_self
        · exact List.mem_cons_of_mem _ (hcov.start t' ht' ((hind _).mpr (Or.inl ⟨hmem', heq⟩)))
      · intro h p hp hpl y hy t' ht'
        refine List.mem_cons_of_mem _ ?_
        rcases List.mem_cons.mp hpl with heq | hpl
        · have hpt : p = t := by
            rw [← hr.hash h p hp, heq, ht] at hp
            exact (Option.some.inj hp).symm
          subst hpt
          exact hcov.start t' (hr.lookup_hash ht') ((hind _).mpr (Or.inr ⟨y, hy, t', ht', rfl⟩))
        · exact hcov.closed h p hp hpl y hy t' ht'

end Walking

/-- Whatever the links, as long as they lead upwards, the walk meets every ready
transaction. -/
theorem collect_complete (hr : ReadyWf r) (hi : Indexed r) (ha : Ascending r) :
    ∃ n l, (∀ fuel, n < fuel → r.getTransactions.collect fuel = some l) ∧
      ∀ x, x ∈ l ↔ ∃ t, r.readyTx.lookup x.hash = some t ∧ t.tx = x := by
  have hw := Walking.start hr.toReadyCore hi
  obtain ⟨l, hl, hcov⟩ := Walking.collect hr.toReadyCore hi ha _ hw (Nat.le_refl _)
  -- by the nonce: a transaction outside the independent set is linked from below
  have hall : ∀ n t, t.tx.nonce.toNat = n → r.readyTx.lookup t.tx.hash = some t → t.tx ∈ l := by
    intro n
    induction n using Nat.strong_induction_on with
    | _ n ih =>
      intro t hn ht
      by_cases hoff : t.tx.requires.length ≤ t.requiresOffset
      · exact hcov.start t ht ((hi.mem _).mpr ⟨_, t, ht, rfl, hoff⟩)
      · obtain ⟨h, p, hp, hfol, hmem⟩ := hr.linked _ t ht (Nat.lt_of_not_le hoff)
        have hnonce := ((hr.marked _ t ht).nonce_of_follows hfol).2
        have hpl := ih p.tx.nonce.toNat (by omega) p rfl (hr.lookup_hash hp)
        exact hcov.closed h p hp hpl _ hmem t ht
  refine ⟨_, l, hl, fun x => ⟨hcov.ready x, fun hx => ?_⟩⟩
  obtain ⟨t, ht, rfl⟩ := hx
  exact hall _ t rfl ht

end BaseAnvil.Pool

import BaseAnvil.Pool.ReadyAdd
import BaseAnvil.Pool.ReadyPrune

/-!
# BaseAnvil.Pool.ReadyOrder

The ordered set of independent transactions. It is keyed by priority and id, and
the ids are handed out by a counter of 64 bits, so as long as that has not wrapped
around no two ready transactions are the same to it (`Indexed.distinct`) and the
set holds exactly those that do not count on a provider (`Indexed.mem`).
-/

namespace BaseAnvil.Pool

open Lib PoolTransactionRef HashMap ReadyTransaction BTreeSet

/-- The set `I` holds the references of the entries of `R` that count on nobody. -/
structure IndexedBy (R : HashMap TxHash ReadyTransaction)
    (I : BTreeSet PoolTransactionRef PoolTransactionRef.cmp) : Prop where
  distinct : ∀ h h' t t', R.lookup h = some t → R.lookup h' = some t' →
    PoolTransactionRef.cmp t.transaction t'.transaction = .eq → h = h'
  mem : ∀ x, x ∈ I ↔ ∃ h t, R.lookup h = some t ∧ t.transaction = x ∧
    t.tx.requires.length ≤ t.requiresOffset

abbrev Indexed (r : ReadyTransactions) : Prop := IndexedBy r.readyTx r.independentTransactions

/-- What the ordered set sees of an entry. -/
def ReadyTransaction.view (t : ReadyTransaction) : PoolTransactionRef × Nat :=
  (t.transaction, t.requiresOffset)

namespace IndexedBy

variable {R R' : HashMap TxHash ReadyTransaction}
  {I I' : BTreeSet PoolTransactionRef PoolTransactionRef.cmp}

/-- Only the view of the entries matters, and entries of equal references may go
together with the references. -/
theorem of_removed {S : TxHash → Prop} [DecidablePred S] (hi : IndexedBy R I)
    (hview : ∀ h, (R'.lookup h).map (·.view) = if S h then none else (R.lookup h).map (·.view))
    (hset : ∀ x, x ∈ I' ↔ x ∈ I ∧ ∀ h t, R.lookup h = some t → S h →
      cmp x t.transaction ≠ .eq) : IndexedBy R' I' := by
  have hback : ∀ h t', R'.lookup h = some t' → ¬ S h ∧ ∃ t, R.lookup h = some t ∧
      t.transaction = t'.transaction ∧ t.requiresOffset = t'.requiresOffset := by
    intro h t' ht'
    have heq := hview h
    rw [ht', Option.map_some] at heq
    split at heq
    · cases heq
    · obtain ⟨t, ht, hv⟩ := Option.map_eq_some_iff.mp heq.symm
      exact ⟨‹_›, t, ht, congrArg Prod.fst hv, congrArg Prod.snd hv⟩
  have hforth : ∀ h t, ¬ S h → R.lookup h = some t → ∃ t', R'.lookup h = some t' ∧
      t'.transaction = t.transaction ∧ t'.requiresOffset = t.requiresOffset := by
    intro h t hS ht
    have heq := hview h
    rw [if_neg hS, ht, Option.map_some] at heq
    obtain ⟨t', ht', hv⟩ := Option.map_eq_some_iff.mp heq
    exact ⟨t', ht', congrArg Prod.fst hv, congrArg Prod.snd hv⟩
  refine ⟨?_, ?_⟩
  · intro h h' t t' ht ht' hcmp
    obtain ⟨-, t₀, ht₀, htx, -⟩ := hback h t ht
    obtain ⟨-, t₀', ht₀', htx', -⟩ := hback h' t' ht'
    rw [← htx, ← htx'] at hcmp
    exact hi.distinct h h' t₀ t₀' ht₀ ht₀' hcmp
  · intro x
    rw [hset, hi.mem]
    constructor
    · intro hand
      obtain ⟨⟨h, t, ht, rfl, hoff⟩, hnot⟩ := hand
      have hS : ¬ S h := fun hS => hnot h t ht hS Std.ReflCmp.compare_self
      obtain ⟨t', ht', htx, hreq⟩ := hforth h t hS ht
      refine ⟨h, t', ht', htx, ?_⟩
      rw [ReadyTransaction.tx, htx, hreq]
      exact hoff
    · intro hex
      obtain ⟨h, t', ht', rfl, hoff⟩ := hex
      obtain ⟨hS, t, ht, htx, hreq⟩ := hback h t' ht'
      rw [ReadyTransaction.tx, ← htx, ← hreq] at hoff
      rw [← htx]
      refine ⟨⟨h, t, ht, rfl, hoff⟩, ?_⟩
      intro y ty hy hSy hcmp
      have heq := hi.distinct h y t ty ht hy hcmp
      subst heq
      exact hS hSy

variable {h : TxHash} {t : ReadyTransaction}

theorem remove (hi : IndexedBy R I) (ht : R.lookup h = some t)
    (hview : ∀ y, (R'.lookup y).map (·.view) = if y = h then none else (R.lookup y).map (·.view)) :
    IndexedBy R' (I.remove t.transaction) := by
  refine hi.of_removed (S := (· = h)) hview fun x => ?_
  rw [mem_remove]
  refine and_congr_right fun _ => ⟨?_, fun hall => hall h t ht rfl⟩
  intro hne y ty hy hyh
  subst hyh
  rw [ht] at hy
  cases hy
  exact hne

/-- An entry whose reference differs from all others is added. -/
theorem add (hi : IndexedBy (R.erase h) I) (ht : R.lookup h = some t)
    (hfresh : ∀ y ty, y ≠ h → R.lookup y = some ty →
      cmp ty.transaction t.transaction ≠ .eq)
    (hset : (∀ b ∈ I, cmp b t.transaction ≠ .eq) → ∀ x, x ∈ I' ↔
      x ∈ I ∨ (x = t.transaction ∧ t.tx.requires.length ≤ t.requiresOffset)) : IndexedBy R I' := by
  have hcases : ∀ y ty, R.lookup y = some ty ↔
      (y = h ∧ ty = t) ∨ (R.erase h).lookup y = some ty := by
    intro y ty
    rw [lookup_erase_ite]
    by_cases hy : y = h
    · rw [hy, ht]
      simp [eq_comm]
    · simp [hy]
  have hother : ∀ y ty, (R.erase h).lookup y = some ty →
      cmp ty.transaction t.transaction ≠ .eq := by
    intro y ty hty
    obtain ⟨hne, hty⟩ := lookup_erase_eq_some.mp hty
    exact hfresh y ty hne hty
  refine ⟨?_, fun x => ?_⟩
  · intro y y' ty ty' hty hty' hcmp
    rcases (hcases y ty).mp hty with ⟨rfl, rfl⟩ | hy
    · rcases (hcases y' ty').mp hty' with ⟨rfl, -⟩ | hy'
      · rfl
      · exact absurd (Std.OrientedCmp.eq_symm hcmp) (hother y' ty' hy')
    · rcases (hcases y' ty').mp hty' with ⟨rfl, rfl⟩ | hy'
      · exact absurd hcmp (hother y ty hy)
      · exact hi.distinct y y' ty ty' hy hy' hcmp
  · have hnone : ∀ b ∈ I, cmp b t.transaction ≠ .eq := by
      intro b hb
      obtain ⟨y, ty, hty, rfl, -⟩ := (hi.mem b).mp hb
      exact hother y ty hty
    rw [hset hnone, hi.mem]
    constructor
    · rintro (⟨y, ty, hty, hx⟩ | ⟨rfl, hoff⟩)
      · exact ⟨y, ty, (hcases y ty).mpr (Or.inr hty), hx⟩
      · exact ⟨h, t, ht, rfl, hoff⟩
    · rintro ⟨y, ty, hty, rfl, hoff⟩
      rcases (hcases y ty).mp hty with ⟨rfl, rfl⟩ | hty
      · exact Or.inr ⟨rfl, hoff⟩
      · exact Or.inl ⟨y, ty, hty, rfl, hoff⟩

/-- A reference of the set that is equal to that of an entry is that of the entry. -/
theorem eq_of_cmp (hi : IndexedBy R I) (ht : R.lookup h = some t) {x : PoolTransactionRef}
    (hx : x ∈ I) (hcmp : cmp x t.transaction = .eq) :
    x = t.transaction ∧ t.tx.requires.length ≤ t.requiresOffset := by
  obtain ⟨y, ty, hty, rfl, hoff⟩ := (hi.mem x).mp hx
  have heq := hi.distinct y h ty t hty ht hcmp
  subst heq
  rw [ht] at hty
  cases hty
  exact ⟨rfl, hoff⟩

theorem satisfy (hi : IndexedBy R I) (h : TxHash) :
    IndexedBy (ReadyTransactions.satisfy (R, I) h).1 (ReadyTransactions.satisfy (R, I) h).2 := by
  unfold ReadyTransactions.satisfy
  cases ht : R.lookup h with
  | none => exact hi
  | some t =>
    show IndexedBy (R.insert h { t with requiresOffset := t.requiresOffset + 1 })
      (if t.requiresOffset + 1 = t.tx.requires.length then I.insert t.transaction else I)
    refine add (hi.remove ht fun y => ?_) (Finmap.lookup_insert _) ?_ fun _ x => ?_
    · rw [lookup_erase_ite, lookup_insert_ite]
      split <;> rfl
    · intro y ty hy hty hcmp
      rw [lookup_insert_ite, if_neg hy] at hty
      exact hy (hi.distinct y h ty t hty ht hcmp)
    · show _ ↔ _ ∨ (x = t.transaction ∧ t.tx.requires.length ≤ t.requiresOffset + 1)
      rw [mem_remove]
      by_cases hlen : t.requiresOffset + 1 = t.tx.requires.length
      · -- the last marker: the reference is not in the set yet
        have hnone : ∀ b ∈ I, cmp b t.transaction ≠ .eq := by
          intro b hb hcmp
          have hle := (hi.eq_of_cmp ht hb hcmp).2
          omega
        rw [if_pos hlen, mem_insert]
        exact or_congr (iff_self_and.mpr (hnone x))
          (and_congr_right fun _ => iff_of_true hnone (Nat.le_of_eq hlen.symm))
      · rw [if_neg hlen]
        constructor
        · intro hx
          by_cases hcmp : cmp x t.transaction = .eq
          · obtain ⟨rfl, hoff⟩ := hi.eq_of_cmp ht hx hcmp
            exact Or.inr ⟨rfl, Nat.le_succ_of_le hoff⟩
          · exact Or.inl ⟨hx, hcmp⟩
        · rintro (⟨hx, -⟩ | ⟨rfl, hoff⟩)
          · exact hx
          · exact (hi.mem _).mpr ⟨h, t, ht, rfl, by omega⟩

theorem foldl_satisfy (l : List TxHash) (hi : IndexedBy R I) :
    IndexedBy (l.foldl ReadyTransactions.satisfy (R, I)).1
      (l.foldl ReadyTransactions.satisfy (R, I)).2 := by
  induction l generalizing R I with
  | nil => exact hi
  | cons h rest ih => exact ih (hi.satisfy h)

end IndexedBy

theorem indexed_of_empty {r : ReadyTransactions} (hready : r.readyTx = ∅)
    (hind : r.independentTransactions = .empty) : Indexed r := by
  refine ⟨?_, ?_⟩
  · intro h h' t t' ht
    simp [hready] at ht
  · intro x
    simp [hready, hind]

/-! ### The operations -/

theorem Indexed.prunedOne {r r' : ReadyTransactions} {h : TxHash} {t : ReadyTransaction}
    (hi : Indexed r) (ht : r.readyTx.lookup h = some t) (hp : PrunedOne r h t r') : Indexed r' := by
  obtain ⟨R, hR, hfold⟩ := hp.independent
  have hend := (hi.remove ht hR).foldl_satisfy t.unlocks
  rw [hfold] at hend
  exact hend

theorem Indexed.pruneRun {r r' : ReadyTransactions} {ms : List TxMarker}
    {txs : List PoolTransaction} (hi : Indexed r) (hr : ReadyWf r) (hrun : PruneRun r ms txs r') :
    Indexed r' :=
  hrun.invariant (J := Indexed) (fun _ _ _ _ hi ht hone => hi.prunedOne ht hone) hr hi

open Classical in
theorem Indexed.cleared {r r' : ReadyTransactions} {L : List TxHash} {txs : List PoolTransaction}
    (hi : Indexed r) (hc : Cleared r L txs r') : Indexed r' := by
  refine hi.of_removed (S := UnlockReach r.readyTx L) ?_ hc.independent
  intro h
  split
  · rw [hc.gone h ‹_›, Option.map_none]
  · cases ht : r.readyTx.lookup h with
    | none => rw [hc.fresh h ht, Option.map_none]
    | some t =>
      obtain ⟨t', ht', hown⟩ := hc.kept h t ht ‹_›
      rw [ht', Option.map_some, Option.map_some, view, hown.transaction,
        hown.requiresOffset]
      rfl

/-- At most `n` ids were handed out, and none twice. -/
structure Issued (n : Nat) (r : ReadyTransactions) : Prop where
  indexed : Indexed r
  below : ∀ h t, r.readyTx.lookup h = some t → t.transaction.id.toNat < n
  next : n < 2 ^ 64 → r.id.toNat = n

open Classical in
theorem Issued.inserted {n : Nat} {r r' : ReadyTransactions} {tx : PoolTransaction}
    (hn : n < 2 ^ 64) (hs : Issued n r) (hr : ReadyCore r) (hnew : r.readyTx.lookup tx.hash = none)
    (hi : Inserted r tx r') : Issued (n + 1) r' := by
  have hid := hs.next hn
  have hbelow : ∀ h t', h ≠ tx.hash → r'.readyTx.lookup h = some t' →
      t'.transaction.id.toNat < n := by
    intro h t' hne ht'
    rcases hi.of_some ht' with ⟨heq, -⟩ | ⟨t, t₁, ht, -, hown, rfl⟩
    · exact absurd heq hne
    · rw [linkTo_transaction, hown.transaction]
      exact hs.below h t ht
  obtain ⟨I, hI, hset⟩ := hi.independent
  -- the entry that is replaced goes first
  have hbase : IndexedBy (r'.readyTx.erase tx.hash) I := by
    refine hs.indexed.of_removed (S := fun h => ∃ t, r.readyTx.lookup h = some t ∧
      t.tx.slot = tx.slot) (fun h => ?_) fun x => ?_
    · rw [lookup_erase_ite]
      cases ht : r.readyTx.lookup h with
      | none =>
        by_cases hh : h = tx.hash
        · simp [hh]
        · simp [hi.fresh h hh ht]
      | some t =>
        have hh : h ≠ tx.hash := by
          rintro rfl
          cases hnew.symm.trans ht
        by_cases hslot : t.tx.slot = tx.slot
        · simp [hi.gone h t ht hslot, hslot]
        · obtain ⟨t₁, ht₁, hown⟩ := hi.kept h t ht hslot
          simp [hh, ht₁, hslot, view, hown.transaction, hown.requiresOffset]
    · rw [hI]
      refine and_congr_right fun _ => ⟨?_, fun hall o ho => ?_⟩
      · rintro hall h t ht ⟨t', ht', hslot⟩
        rw [ht] at ht'
        cases ht'
        exact hall t (hr.provider_eq_some.mpr ⟨hr.lookup_hash ht, hslot⟩)
      · obtain ⟨hlook, hslot⟩ := hr.provider_eq_some.mp ho
        exact hall _ o hlook ⟨o, hlook, hslot⟩
  refine ⟨hbase.add hi.new ?_ fun hnone x => ?_, ?_, ?_⟩
  · -- the new reference differs from all others by its id
    intro h t hne ht hcmp
    have hlt := hbelow h t hne ht
    rw [(cmp_eq_eq.mp hcmp).2] at hlt
    exact Nat.lt_irrefl _ (hid ▸ hlt)
  · rw [hset]
    show _ ↔ x ∈ I ∨ (x = ⟨tx, r.id⟩ ∧ tx.requires.length ≤ r.inherentCount tx)
    by_cases hcount : r.inherentCount tx = tx.requires.length
    · rw [if_pos hcount, mem_insert]
      exact or_congr_right
        (and_congr_right fun _ => iff_of_true hnone (Nat.le_of_eq hcount.symm))
    · have hle : r.inherentCount tx ≤ tx.requires.length := List.countP_le_length
      rw [if_neg hcount]
      exact (or_iff_left fun hx => hcount (Nat.le_antisymm hle hx.2)).symm
  · intro h t' ht'
    by_cases hh : h = tx.hash
    · rw [hh, hi.new] at ht'
      cases ht'
      have heq : (r.newEntry tx).transaction.id.toNat = n := hid
      omega
    · exact Nat.lt_succ_of_lt (hbelow h t' hh ht')
  · intro hlt
    rw [hi.id, UInt64.toNat_add, hid]
    exact Nat.mod_eq_of_lt hlt

end BaseAnvil.Pool

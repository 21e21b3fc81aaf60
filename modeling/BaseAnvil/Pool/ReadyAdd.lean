import BaseAnvil.Pool.ReadyInv

/-!
# BaseAnvil.Pool.ReadyAdd

What `ReadyTransactions::add_transaction` does. Either the marker of the new
transaction is provided by a ready one that pays at least as much, and nothing
changes, or the new transaction takes that marker over (`Inserted`).
-/

namespace BaseAnvil.Pool

open Lib ReadyTransactions PoolTransaction ReadyTransaction HashMap Finmap

/-- `t` after `tx` was linked to it, which happens if `tx` waits for it. -/
def ReadyTransaction.linkTo (t : ReadyTransaction) (tx : PoolTransaction) : ReadyTransaction :=
  if t.tx.slot ∈ tx.requires then { t with unlocks := t.unlocks ++ [tx.hash] } else t

variable {t : ReadyTransaction} (tx : PoolTransaction)

@[simp] theorem linkTo_transaction : (t.linkTo tx).transaction = t.transaction := by
  unfold linkTo
  split <;> rfl

@[simp] theorem linkTo_tx : (t.linkTo tx).tx = t.tx := by
  rw [ReadyTransaction.tx, linkTo_transaction, ReadyTransaction.tx]

@[simp] theorem linkTo_requiresOffset : (t.linkTo tx).requiresOffset = t.requiresOffset := by
  unfold linkTo
  split <;> rfl

variable {tx} {r : ReadyTransactions} {o : ReadyTransaction}

theorem mem_linkTo_unlocks {t : ReadyTransaction} {h : TxHash} :
    h ∈ (t.linkTo tx).unlocks ↔ h ∈ t.unlocks ∨ (tx.Follows t.tx ∧ h = tx.hash) := by
  unfold linkTo Follows
  split <;> simp [*]

namespace ReadyTransactions

/-- Number of markers of `tx` that no ready transaction provides. -/
def inherentCount (r : ReadyTransactions) (tx : PoolTransaction) : Nat :=
  tx.requires.countP fun m => m ∉ r.providedMarkers

/-- What the provider of the marker of `tx` unlocks. -/
def inherited (r : ReadyTransactions) (tx : PoolTransaction) : List TxHash :=
  ((r.provider tx.slot).map (·.unlocks)).getD []

/-- The entry `tx` gets in the ready map. -/
def newEntry (r : ReadyTransactions) (tx : PoolTransaction) : ReadyTransaction where
  transaction := { transaction := tx, id := r.id }
  unlocks := r.inherited tx
  requiresOffset := r.inherentCount tx

theorem mem_newEntry_unlocks {h : TxHash} : h ∈ (r.newEntry tx).unlocks ↔
    ∃ o, r.provider tx.slot = some o ∧ h ∈ o.unlocks := by
  cases ho : r.provider tx.slot <;> simp [newEntry, inherited, ho]

end ReadyTransactions

/-! ### Making room -/

/-- The ready half without the transaction `tx` replaces, its marker left behind. -/
structure Vacated (r : ReadyTransactions) (tx : PoolTransaction) (r₁ : ReadyTransactions) :
    Prop where
  id : r₁.id = r.id
  provided : r₁.providedMarkers = r.providedMarkers
  kept : ∀ h t, r.readyTx.lookup h = some t → t.tx.slot ≠ tx.slot →
    ∃ t₁, r₁.readyTx.lookup h = some t₁ ∧ OwnCleaned h t t₁
  gone : ∀ h t, r.readyTx.lookup h = some t → t.tx.slot = tx.slot → r₁.readyTx.lookup h = none
  fresh : ∀ h, r.readyTx.lookup h = none → r₁.readyTx.lookup h = none
  independent : ∀ x, x ∈ r₁.independentTransactions ↔ x ∈ r.independentTransactions ∧
    ∀ o, r.provider tx.slot = some o → PoolTransactionRef.cmp x o.transaction ≠ .eq

section

variable (hm : NonceMarked tx)
include hm

theorem removeHashes_eq :
    (tx.provides.filterMap fun mark => r.providedMarkers.lookup mark).toFinset =
      (r.providedMarkers.lookup tx.slot).toFinset := by
  rw [hm.provides, ← slot]
  cases h : r.providedMarkers.lookup tx.slot with
  | none => simp [h]
  | some x => simp [h]

theorem invalidated_own {o : PoolTransaction} (ho : NonceMarked o) (hslot : o.slot = tx.slot) :
    invalidated (some tx.provides.toFinset) o = [] := by
  rw [slot, slot] at hslot
  simp [invalidated, ho.provides, hm.provides, hslot]

variable (hr : ReadyCore r)
include hr

theorem replacedTransactions_none (hprov : r.provider tx.slot = none) :
    r.replacedTransactions ord tx = (.ok ([], []), r) ∧ Vacated r tx r := by
  have hnone := hr.provider_eq_none.mp hprov
  refine ⟨?_, rfl, rfl, ?_, ?_, ?_, ?_⟩
  · unfold replacedTransactions
    rw [removeHashes_eq hm, hnone]
    rfl
  · intro h t ht _
    exact ⟨t, ht, .refl h t⟩
  · intro h t ht hslot
    have := (hr.provided _ h).mpr ⟨t, ht, hslot⟩
    rw [hnone] at this
    cases this
  · intro h hh
    exact hh
  · intro x
    simp [hprov]

theorem checkReplaced_singleton (ho : r.provider tx.slot = some o) :
    checkReplaced r tx [o.tx.hash] [] =
      if tx.maxFeePerGas ≤ o.tx.maxFeePerGas then .error (.replacementUnderpriced tx)
      else .ok o.unlocks := by
  obtain ⟨hlook, hslot⟩ := hr.provider_eq_some.mp ho
  have hprov : o.provides = tx.provides := by
    rw [ReadyTransaction.provides, (hr.marked _ _ hlook).provides, hm.provides]
    rw [slot, slot] at hslot
    rw [hslot]
  simp [checkReplaced, hlook, hprov, ReadyTransaction.maxFeePerGas]

theorem vacated_removeReady (ho : r.provider tx.slot = some o) :
    Vacated r tx (removeReady (some tx.provides.toFinset) r o.tx.hash o) := by
  obtain ⟨hlook, hslot⟩ := hr.provider_eq_some.mp ho
  have hclean := removeReady_cleaned (some tx.provides.toFinset) r o.tx.hash o
  refine ⟨rfl, ?_, ?_, ?_, ?_, ?_⟩
  · simp [removeReady, invalidated_own hm (hr.marked _ _ hlook) hslot]
  · intro h t ht hne
    refine hclean.some_erase (ne_of_lookup ht hlook ?_) ht
    rintro rfl
    exact hne hslot
  · intro h t ht hs
    have heq := (hr.slot_inj ht hlook (hs.trans hslot.symm)).1
    exact hclean.none (by rw [lookup_erase_ite, if_pos heq])
  · intro h hh
    exact hclean.none (by rw [lookup_erase_ite, hh, ite_self])
  · intro x
    simp [removeReady, BTreeSet.mem_remove, ho]

theorem replacedTransactions_some (ord : HashOrder) (ho : r.provider tx.slot = some o) :
    r.replacedTransactions ord tx =
      if tx.maxFeePerGas ≤ o.tx.maxFeePerGas then (.error (.replacementUnderpriced tx), r)
      else (.ok ([o.tx], o.unlocks), removeReady (some tx.provides.toFinset) r o.tx.hash o) := by
  obtain ⟨hlook, hslot⟩ := hr.provider_eq_some.mp ho
  have hprov := (hr.provided _ _).mpr ⟨o, hlook, hslot⟩
  have hinv := invalidated_own hm (hr.marked _ _ hlook) hslot
  unfold replacedTransactions
  rw [removeHashes_eq hm, hprov, Option.toFinset_some]
  simp only [Finset.singleton_ne_empty, if_false, IterOrder.toList_singleton,
    checkReplaced_singleton hm hr ho]
  by_cases hle : tx.maxFeePerGas ≤ o.tx.maxFeePerGas
  · simp only [if_pos hle]
  · simp only [if_neg hle]
    rw [removeWithMarkers, List.reverse_singleton, removeLoop]
    split
    · rename_i hnone
      rw [hlook] at hnone
      cases hnone
    · rename_i t ht
      rw [hlook] at ht
      cases ht
      simp [successors, hinv, removeLoop]

end

/-! ### Taking the marker over -/

/-- What `ReadyTransactions::add_transaction` does when it accepts. -/
structure Inserted (r : ReadyTransactions) (tx : PoolTransaction) (r' : ReadyTransactions) :
    Prop where
  id : r'.id = r.id + 1
  provided : ∀ m, r'.providedMarkers.lookup m =
    if m = tx.slot then some tx.hash else r.providedMarkers.lookup m
  new : r'.readyTx.lookup tx.hash = some (r.newEntry tx)
  kept : ∀ h t, r.readyTx.lookup h = some t → t.tx.slot ≠ tx.slot →
    ∃ t₁, r'.readyTx.lookup h = some (t₁.linkTo tx) ∧ OwnCleaned h t t₁
  gone : ∀ h t, r.readyTx.lookup h = some t → t.tx.slot = tx.slot → r'.readyTx.lookup h = none
  fresh : ∀ h, h ≠ tx.hash → r.readyTx.lookup h = none → r'.readyTx.lookup h = none
  independent : ∃ I : BTreeSet PoolTransactionRef PoolTransactionRef.cmp,
    (∀ x, x ∈ I ↔ x ∈ r.independentTransactions ∧
      ∀ o, r.provider tx.slot = some o → PoolTransactionRef.cmp x o.transaction ≠ .eq) ∧
    r'.independentTransactions =
      if r.inherentCount tx = tx.requires.length then I.insert ⟨tx, r.id⟩ else I

/-- The loop that links `tx` to the provider of what it requires. -/
theorem foldlM_link {r₁ : ReadyTransactions} (hr : ReadyCore r) (hm : NonceMarked tx)
    (hv : Vacated r tx r₁) :
    ∃ R, tx.requires.foldlM (link r₁.providedMarkers tx.hash) (r₁.readyTx, true, 0) =
        .ok (R, decide (r.inherentCount tx = tx.requires.length), r.inherentCount tx) ∧
      ∀ h, R.lookup h = (r₁.readyTx.lookup h).map (·.linkTo tx) := by
  have hback : ∀ h t₁, r₁.readyTx.lookup h = some t₁ →
      ∃ t, r.readyTx.lookup h = some t ∧ t.tx.slot ≠ tx.slot ∧ t₁.tx = t.tx := by
    intro h t₁ ht₁
    cases ht : r.readyTx.lookup h with
    | none =>
      rw [hv.fresh h ht] at ht₁
      cases ht₁
    | some t =>
      by_cases hslot : t.tx.slot = tx.slot
      · rw [hv.gone h t ht hslot] at ht₁
        cases ht₁
      · obtain ⟨t₂, ht₂, hc⟩ := hv.kept h t ht hslot
        rw [ht₂] at ht₁
        cases ht₁
        exact ⟨t, rfl, hslot, hc.tx_eq⟩
  -- entries other than the provider's are left alone
  have hsame : ∀ m, tx.requires = [m] → ∀ h t₁, r₁.readyTx.lookup h = some t₁ →
      r.providedMarkers.lookup m ≠ some h → t₁.linkTo tx = t₁ := by
    intro m hreq h t₁ ht₁ hne
    obtain ⟨t, ht, -, htx⟩ := hback h t₁ ht₁
    refine if_neg fun hmem => hne ?_
    rw [hreq, List.mem_singleton, htx] at hmem
    exact (hr.provided m h).mpr ⟨t, ht, hmem⟩
  rcases hm.requires with hreq | ⟨-, hreq⟩
  · refine ⟨r₁.readyTx, by simp [hreq, inherentCount]; rfl, ?_⟩
    intro h
    cases hh : r₁.readyTx.lookup h with
    | none => rfl
    | some t₁ => simp [linkTo, hreq]
  rw [hv.provided]
  have hself := hm.not_follows_self
  rw [Follows, hreq, List.mem_singleton] at hself
  generalize toMarker (tx.nonce - 1) tx.sender = m at hreq hself
  cases hprov : r.providedMarkers.lookup m with
  | none =>
    have hmem : m ∉ r.providedMarkers := lookup_eq_none.mp hprov
    refine ⟨r₁.readyTx, by simp [hreq, inherentCount, link, hprov, hmem], ?_⟩
    intro h
    cases hh : r₁.readyTx.lookup h with
    | none => rfl
    | some t₁ =>
      rw [Option.map_some, hsame m hreq h t₁ hh (by rw [hprov]; exact fun hc => by cases hc)]
  | some x =>
    have hmem : m ∈ r.providedMarkers := mem_iff.mpr ⟨x, hprov⟩
    obtain ⟨t, ht, hslot⟩ := (hr.provided m x).mp hprov
    obtain ⟨t₁, ht₁, hc⟩ := hv.kept x t ht (by rw [hslot]; exact fun hc => hself hc.symm)
    refine ⟨r₁.readyTx.insert x { t₁ with unlocks := t₁.unlocks ++ [tx.hash] }, ?_, ?_⟩
    · simp [hreq, inherentCount, link, hprov, hmem, ht₁]
    · intro h
      rw [lookup_insert_ite]
      by_cases hhx : h = x
      · subst hhx
        rw [if_pos rfl, ht₁, Option.map_some, linkTo, hc.tx_eq, hslot, hreq,
          if_pos List.mem_cons_self]
      · rw [if_neg hhx]
        cases hh : r₁.readyTx.lookup h with
        | none => rfl
        | some t₂ =>
          rw [Option.map_some, hsame m hreq h t₂ hh]
          rw [hprov]
          exact fun hc => hhx (Option.some.inj hc).symm

/-- `add_transaction` of the ready half: refused without a change, or inserted. -/
theorem ready_addTransaction_cases (hr : ReadyCore r)
    {tx : PendingPoolTransaction} (hready : tx.isReady = true) (hm : NonceMarked tx.transaction)
    (hnew : r.readyTx.lookup tx.transaction.hash = none) :
    (∃ o, r.provider tx.transaction.slot = some o ∧
      tx.transaction.maxFeePerGas ≤ o.tx.maxFeePerGas ∧
      r.addTransaction ord tx = .ok (.error (.replacementUnderpriced tx.transaction), r)) ∨
    (∃ r', (∀ o, r.provider tx.transaction.slot = some o →
        o.tx.maxFeePerGas < tx.transaction.maxFeePerGas) ∧
      r.addTransaction ord tx =
        .ok (.ok ((r.provider tx.transaction.slot).toList.map (·.tx)), r') ∧
      Inserted r tx.transaction r') := by
  have hmem : tx.transaction.hash ∉ r.readyTx := lookup_eq_none.mp hnew
  have hne : ∀ {h t}, r.readyTx.lookup h = some t → h ≠ tx.transaction.hash := by
    intro h t ht heq
    rw [heq, hnew] at ht
    cases ht
  -- the insertion proper, whether or not something made room for it
  have hinsert : ∀ {r₁ replaced}, Vacated r tx.transaction r₁ →
      r.replacedTransactions ord tx.transaction = (.ok (replaced, r.inherited tx.transaction), r₁) →
      ∃ r', r.addTransaction ord tx = .ok (.ok replaced, r') ∧ Inserted r tx.transaction r' := by
    intro r₁ replaced hv hrep
    obtain ⟨R, hfold, hR⟩ := foldlM_link hr hm hv
    refine ⟨{ id := r₁.id + 1
              providedMarkers := r₁.providedMarkers.insert tx.transaction.slot tx.transaction.hash
              readyTx := R.insert tx.transaction.hash (r.newEntry tx.transaction)
              independentTransactions :=
                if r.inherentCount tx.transaction = tx.transaction.requires.length then
                  r₁.independentTransactions.insert ⟨tx.transaction, r₁.id⟩
                else r₁.independentTransactions }, ?_, ?_, ?_, ?_, ?_, ?_, ?_, ?_⟩
    · simp only [addTransaction, hready, hmem, hrep, hfold, hm.provides, List.foldl_cons,
        List.foldl_nil, slot, newEntry, hv.id, not_true_eq_false, if_false,
        decide_eq_true_eq]
    · rw [hv.id]
    · intro m
      rw [lookup_insert_ite, hv.provided]
    · rw [lookup_insert]
    · intro h t ht hslot
      obtain ⟨t₁, ht₁, hc⟩ := hv.kept h t ht hslot
      exact ⟨t₁, by rw [lookup_insert_of_ne _ (hne ht), hR, ht₁, Option.map_some], hc⟩
    · intro h t ht hslot
      rw [lookup_insert_of_ne _ (hne ht), hR, hv.gone h t ht hslot, Option.map_none]
    · intro h hne hh
      rw [lookup_insert_of_ne _ hne, hR, hv.fresh h hh, Option.map_none]
    · exact ⟨r₁.independentTransactions, hv.independent, by rw [hv.id]⟩
  cases hprov : r.provider tx.transaction.slot with
  | none =>
    obtain ⟨hrep, hv⟩ := replacedTransactions_none hm hr hprov
    obtain ⟨r', hadd, hins⟩ := hinsert hv (by rw [hrep, inherited, hprov]; rfl)
    exact Or.inr ⟨r', fun o ho => (by cases ho), hadd, hins⟩
  | some o =>
    have hrep := replacedTransactions_some hm hr ord hprov
    by_cases hle : tx.transaction.maxFeePerGas ≤ o.tx.maxFeePerGas
    · rw [if_pos hle] at hrep
      refine Or.inl ⟨o, rfl, hle, ?_⟩
      simp [addTransaction, hready, hmem, hrep]
    · rw [if_neg hle] at hrep
      obtain ⟨r', hadd, hins⟩ := hinsert (vacated_removeReady hm hr hprov)
        (by rw [hrep, inherited, hprov]; rfl)
      refine Or.inr ⟨r', fun o' ho' => ?_, hadd, hins⟩
      cases ho'
      exact Nat.lt_of_not_le hle

namespace Inserted

variable {r' : ReadyTransactions} (hi : Inserted r tx r')
include hi

/-- The entries after an insertion are the new one and, relinked, those it did
not replace. -/
theorem of_some {h : TxHash} {t' : ReadyTransaction} (ht' : r'.readyTx.lookup h = some t') :
    (h = tx.hash ∧ t' = r.newEntry tx) ∨
      ∃ t t₁, r.readyTx.lookup h = some t ∧ t.tx.slot ≠ tx.slot ∧ OwnCleaned h t t₁ ∧
        t' = t₁.linkTo tx := by
  by_cases hh : h = tx.hash
  · subst hh
    rw [hi.new] at ht'
    cases ht'
    exact Or.inl ⟨rfl, rfl⟩
  cases ht : r.readyTx.lookup h with
  | none =>
    rw [hi.fresh h hh ht] at ht'
    cases ht'
  | some t =>
    by_cases hslot : t.tx.slot = tx.slot
    · rw [hi.gone h t ht hslot] at ht'
      cases ht'
    · obtain ⟨t₁, ht₁, hc⟩ := hi.kept h t ht hslot
      rw [ht₁] at ht'
      cases ht'
      exact Or.inr ⟨t, t₁, rfl, hslot, hc, rfl⟩

theorem core (hr : ReadyCore r) (hm : NonceMarked tx) : ReadyCore r' := by
  refine ⟨?_, ?_, ?_⟩
  · intro h t' ht'
    rcases hi.of_some ht' with ⟨hh, rfl⟩ | ⟨t, t₁, ht, -, hc, rfl⟩
    · exact hh.symm
    · rw [linkTo_tx, hc.tx_eq]
      exact hr.hash h t ht
  · intro h t' ht'
    rcases hi.of_some ht' with ⟨-, rfl⟩ | ⟨t, t₁, ht, -, hc, rfl⟩
    · exact hm
    · rw [linkTo_tx, hc.tx_eq]
      exact hr.marked h t ht
  · intro m h
    rw [hi.provided]
    by_cases hslot : m = tx.slot
    · rw [if_pos hslot]
      constructor
      · intro heq
        cases heq
        exact ⟨_, hi.new, hslot.symm⟩
      · intro hex
        obtain ⟨t', ht', hs⟩ := hex
        rcases hi.of_some ht' with ⟨hh, -⟩ | ⟨t, t₁, -, hne, hc, rfl⟩
        · rw [hh]
        · rw [linkTo_tx, hc.tx_eq] at hs
          exact absurd (hs.trans hslot) hne
    · rw [if_neg hslot]
      constructor
      · intro hh
        obtain ⟨t, ht, hs⟩ := (hr.provided m h).mp hh
        obtain ⟨t₁, ht₁, hc⟩ := hi.kept h t ht (by rw [hs]; exact hslot)
        exact ⟨_, ht₁, by rw [linkTo_tx, hc.tx_eq]; exact hs⟩
      · intro hex
        obtain ⟨t', ht', hs⟩ := hex
        rcases hi.of_some ht' with ⟨-, rfl⟩ | ⟨t, t₁, ht, -, hc, rfl⟩
        · exact absurd hs.symm hslot
        · rw [linkTo_tx, hc.tx_eq] at hs
          exact (hr.provided m h).mpr ⟨t, ht, hs⟩

theorem wf (hr : ReadyWf r) (hm : NonceMarked tx) : ReadyWf r' := by
  refine ⟨hi.core hr.toReadyCore hm, ?_⟩
  intro h t' ht' hoff
  rcases hi.of_some ht' with ⟨hh, rfl⟩ | ⟨t, t₁, ht, hslot, hc, rfl⟩
  · -- the new transaction counts on a provider, which it was just linked to
    have hlt : r.inherentCount tx < tx.requires.length := hoff
    obtain ⟨m, hmem, hprov⟩ : ∃ m ∈ tx.requires, m ∈ r.providedMarkers := by
      by_contra hall
      simp only [not_exists, not_and] at hall
      refine absurd hlt (Nat.not_lt.mpr (Nat.le_of_eq ?_))
      exact (List.countP_eq_length.mpr fun m hm' => by simpa using hall m hm').symm
    obtain ⟨x, hx⟩ := mem_iff.mp hprov
    obtain ⟨p, hp, hps⟩ := (hr.provided m x).mp hx
    have hfol : tx.Follows p.tx := by
      rw [Follows, hps]
      exact hmem
    have hne : p.tx.slot ≠ tx.slot := by
      intro heq
      rw [Follows, heq] at hfol
      exact hm.not_follows_self hfol
    obtain ⟨p₁, hp₁, hcp⟩ := hi.kept x p hp hne
    refine ⟨x, _, hp₁, ?_, mem_linkTo_unlocks.mpr (Or.inr ⟨?_, hh⟩)⟩
    · rw [linkTo_tx, hcp.tx_eq]
      exact hfol
    · rw [hcp.tx_eq]
      exact hfol
  · rw [linkTo_requiresOffset, linkTo_tx, hc.requiresOffset, hc.tx_eq] at hoff
    obtain ⟨x, p, hp, hfol, hmem⟩ := hr.linked h t ht hoff
    rw [linkTo_tx, hc.tx_eq]
    by_cases hps : p.tx.slot = tx.slot
    · -- the provider was replaced; its links went to the new transaction
      have hprov : r.provider tx.slot = some p :=
        hr.provider_eq_some.mpr ⟨hr.lookup_hash hp, hps⟩
      refine ⟨tx.hash, _, hi.new, ?_, ?_⟩
      · rw [Follows, hps] at hfol
        exact hfol
      · rw [newEntry, inherited, hprov]
        exact hmem
    · obtain ⟨p₁, hp₁, hcp⟩ := hi.kept x p hp hps
      have hne : h ≠ x := ne_of_lookup ht hp <| by
        rintro rfl
        exact (hr.marked h t ht).not_follows_self hfol
      refine ⟨x, _, hp₁, ?_, mem_linkTo_unlocks.mpr (Or.inl ((hcp.mem h hne).mpr hmem))⟩
      rw [linkTo_tx, hcp.tx_eq]
      exact hfol

end Inserted

end BaseAnvil.Pool

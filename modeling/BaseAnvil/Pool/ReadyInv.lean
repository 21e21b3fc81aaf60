import BaseAnvil.Pool.Ready

/-!
# BaseAnvil.Pool.ReadyInv

What holds of the ready half of the pool at any time, and what each of its
operations does to it.

`ReadyWf` is the part of the representation invariant that no operation breaks.
It promises a link from the provider only to transactions that count on one
(`requiresOffset` below the number of required markers); that the links are
neither stale nor missing is not part of it.

The removal loop rewrites the provider of a removed transaction in an odd way: it
takes the provider's *own* hash out of the provider's `unlocks`. `OwnCleaned` is
the relation between an entry before and after any number of such rewrites.
-/

namespace BaseAnvil.Pool

open Lib HashMap ReadyTransactions

/-- The ready transaction that provides `m`. -/
def ReadyTransactions.provider (r : ReadyTransactions) (m : TxMarker) : Option ReadyTransaction :=
  (r.providedMarkers.lookup m).bind fun h => r.readyTx.lookup h

/-- The ready map and the index of what it provides agree. -/
structure ReadyCore (r : ReadyTransactions) : Prop where
  hash : ∀ h t, r.readyTx.lookup h = some t → t.tx.hash = h
  marked : ∀ h t, r.readyTx.lookup h = some t → NonceMarked t.tx
  provided : ∀ m h, r.providedMarkers.lookup m = some h ↔
    ∃ t, r.readyTx.lookup h = some t ∧ t.tx.slot = m

/-- A transaction that counts on a provider is linked from it. -/
def Linked (r : ReadyTransactions) (h : TxHash) (t : ReadyTransaction) : Prop :=
  t.requiresOffset < t.tx.requires.length →
    ∃ h' p, r.readyTx.lookup h' = some p ∧ t.tx.Follows p.tx ∧ h ∈ p.unlocks

structure ReadyWf (r : ReadyTransactions) : Prop extends ReadyCore r where
  linked : ∀ h t, r.readyTx.lookup h = some t → Linked r h t

variable {r : ReadyTransactions} {L : List TxHash} {R : HashMap TxHash ReadyTransaction}
  {h : TxHash} {t : ReadyTransaction}

theorem readyWf_of_empty (hready : r.readyTx = ∅) (hprov : r.providedMarkers = ∅) : ReadyWf r := by
  refine ⟨⟨?_, ?_, ?_⟩, ?_⟩ <;> intro a b <;> simp [hready, hprov]

variable {t' : ReadyTransaction}

namespace ReadyCore

variable (hr : ReadyCore r)
include hr

theorem lookup_hash (ht : r.readyTx.lookup h = some t) : r.readyTx.lookup t.tx.hash = some t := by
  rw [hr.hash h t ht]
  exact ht

theorem provider_eq_some {m : TxMarker} :
    r.provider m = some t ↔ r.readyTx.lookup t.tx.hash = some t ∧ t.tx.slot = m := by
  unfold provider
  rw [Option.bind_eq_some_iff]
  constructor
  · intro hex
    obtain ⟨h, hh, ht⟩ := hex
    obtain ⟨t', ht', hslot⟩ := (hr.provided m h).mp hh
    rw [ht] at ht'
    cases ht'
    exact ⟨hr.lookup_hash ht, hslot⟩
  · intro hand
    exact ⟨t.tx.hash, (hr.provided m _).mpr ⟨t, hand.1, hand.2⟩, hand.1⟩

theorem mem_provider {m : TxMarker} {x : PoolTransaction} :
    x ∈ (r.provider m).toList.map (·.tx) ↔
      (∃ t, r.readyTx.lookup x.hash = some t ∧ t.tx = x) ∧ x.slot = m := by
  rw [List.mem_map]
  constructor
  · rintro ⟨o, ho, rfl⟩
    obtain ⟨hlook, hslot⟩ := hr.provider_eq_some.mp (Option.mem_toList.mp ho)
    exact ⟨⟨o, hlook, rfl⟩, hslot⟩
  · rintro ⟨⟨t, ht, rfl⟩, hslot⟩
    exact ⟨t, Option.mem_toList.mpr (hr.provider_eq_some.mpr ⟨ht, hslot⟩), rfl⟩

theorem provider_eq_none {m : TxMarker} :
    r.provider m = none ↔ r.providedMarkers.lookup m = none := by
  cases h : r.providedMarkers.lookup m with
  | none => simp [provider, h]
  | some x =>
    obtain ⟨t, ht, -⟩ := (hr.provided m x).mp h
    simp [provider, h, ht]

/-- At most one ready transaction provides a marker. -/
theorem slot_inj {h' : TxHash} (ht : r.readyTx.lookup h = some t)
    (ht' : r.readyTx.lookup h' = some t') (hslot : t.tx.slot = t'.tx.slot) :
    h = h' ∧ t = t' := by
  have h₁ := (hr.provided t.tx.slot h).mpr ⟨t, ht, rfl⟩
  rw [(hr.provided t.tx.slot h').mpr ⟨t', ht', hslot.symm⟩] at h₁
  cases h₁
  rw [ht] at ht'
  exact ⟨rfl, Option.some.inj ht'⟩

end ReadyCore

/-! ### Entries up to their own hash -/

/-- `t'` is the entry `t` of `h`, up to occurrences of `h` in its own `unlocks`. -/
structure OwnCleaned (h : TxHash) (t t' : ReadyTransaction) : Prop where
  transaction : t'.transaction = t.transaction
  requiresOffset : t'.requiresOffset = t.requiresOffset
  mem : ∀ x, x ≠ h → (x ∈ t'.unlocks ↔ x ∈ t.unlocks)
  subset : ∀ x, x ∈ t'.unlocks → x ∈ t.unlocks
  eq : h ∉ t.unlocks → t' = t

namespace OwnCleaned

variable {t'' : ReadyTransaction}

theorem refl (h : TxHash) (t : ReadyTransaction) : OwnCleaned h t t :=
  ⟨rfl, rfl, fun _ _ => Iff.rfl, fun _ hx => hx, fun _ => rfl⟩

theorem trans (h₁ : OwnCleaned h t t') (h₂ : OwnCleaned h t' t'') : OwnCleaned h t t'' where
  transaction := h₂.transaction.trans h₁.transaction
  requiresOffset := h₂.requiresOffset.trans h₁.requiresOffset
  mem x hx := (h₂.mem x hx).trans (h₁.mem x hx)
  subset x hx := h₁.subset x (h₂.subset x hx)
  eq hnot := by
    have heq := h₁.eq hnot
    subst heq
    exact h₂.eq hnot

theorem swapRemove (h : TxHash) (t : ReadyTransaction) :
    OwnCleaned h t { t with unlocks := swapRemoveItem t.unlocks h } where
  transaction := rfl
  requiresOffset := rfl
  mem _ hx := mem_swapRemoveItem_of_ne hx
  subset _ hx := mem_of_mem_swapRemoveItem hx
  eq hnot := by rw [swapRemoveItem_of_notMem hnot]

theorem tx_eq (hc : OwnCleaned h t t') : t'.tx = t.tx := by
  rw [ReadyTransaction.tx, ReadyTransaction.tx, hc.transaction]

end OwnCleaned

/-- The second map holds the entries of the first, up to their own hashes. -/
def MapCleaned (R R' : HashMap TxHash ReadyTransaction) : Prop :=
  ∀ h, match R.lookup h with
    | none => R'.lookup h = none
    | some t => ∃ t', R'.lookup h = some t' ∧ OwnCleaned h t t'

namespace MapCleaned

variable {R' R'' : HashMap TxHash ReadyTransaction}

theorem refl (R : HashMap TxHash ReadyTransaction) : MapCleaned R R := by
  intro h
  cases hh : R.lookup h with
  | none => rfl
  | some t => exact ⟨t, rfl, .refl h t⟩

theorem none (hm : MapCleaned R R') (hh : R.lookup h = none) : R'.lookup h = none := by
  have := hm h
  rw [hh] at this
  exact this

theorem some (hm : MapCleaned R R') (hh : R.lookup h = some t) :
    ∃ t', R'.lookup h = .some t' ∧ OwnCleaned h t t' := by
  have := hm h
  rw [hh] at this
  exact this

theorem of_some (hm : MapCleaned R R') (hh : R'.lookup h = .some t') :
    ∃ t, R.lookup h = .some t ∧ OwnCleaned h t t' := by
  cases ht : R.lookup h with
  | none =>
    rw [hm.none ht] at hh
    cases hh
  | some t =>
    obtain ⟨t₁, ht₁, hc⟩ := hm.some ht
    rw [ht₁] at hh
    cases hh
    exact ⟨t, rfl, hc⟩

theorem trans (h₁ : MapCleaned R R') (h₂ : MapCleaned R' R'') : MapCleaned R R'' := by
  intro h
  cases hh : R.lookup h with
  | none => exact h₂.none (h₁.none hh)
  | some t =>
    obtain ⟨t₁, ht₁, hc₁⟩ := h₁.some hh
    obtain ⟨t₂, ht₂, hc₂⟩ := h₂.some ht₁
    exact ⟨t₂, ht₂, hc₁.trans hc₂⟩

theorem some_erase {y : TxHash} (hm : MapCleaned (R.erase h) R') (hne : y ≠ h)
    (hy : R.lookup y = .some t) : ∃ t', R'.lookup y = .some t' ∧ OwnCleaned y t t' :=
  hm.some (by rw [Finmap.lookup_erase_ne hne]; exact hy)

theorem of_some_erase {y : TxHash} (hm : MapCleaned (R.erase h) R') (hy : R'.lookup y = .some t') :
    y ≠ h ∧ ∃ t, R.lookup y = .some t ∧ OwnCleaned y t t' := by
  obtain ⟨t, ht, hc⟩ := hm.of_some hy
  obtain ⟨hne, ht⟩ := lookup_erase_eq_some.mp ht
  exact ⟨hne, t, ht, hc⟩

theorem unlinkOwn (P : HashMap TxMarker TxHash) (R : HashMap TxHash ReadyTransaction)
    (mark : TxMarker) : MapCleaned R (ReadyTransactions.unlinkOwn P R mark) := by
  unfold ReadyTransactions.unlinkOwn
  cases P.lookup mark with
  | none => exact .refl R
  | some x =>
    dsimp only
    cases hx : R.lookup x with
    | none => exact .refl R
    | some t =>
      intro h
      rw [lookup_insert_ite]
      by_cases hh : h = x
      · subst hh
        rw [hx, if_pos rfl]
        exact ⟨_, rfl, .swapRemove h t⟩
      · rw [if_neg hh]
        exact MapCleaned.refl R h

theorem foldl_unlinkOwn (P : HashMap TxMarker TxHash) (marks : List TxMarker)
    (R : HashMap TxHash ReadyTransaction) :
    MapCleaned R (marks.foldl (ReadyTransactions.unlinkOwn P) R) := by
  induction marks generalizing R with
  | nil => exact .refl R
  | cons mark rest ih => exact (MapCleaned.unlinkOwn P R mark).trans (ih _)

end MapCleaned

/-! ### Removal with successors -/

/-- The ready hashes reached from those in `L` along `unlocks`. -/
inductive UnlockReach (R : HashMap TxHash ReadyTransaction) (L : List TxHash) : TxHash → Prop
  | start {h : TxHash} {t : ReadyTransaction} :
      h ∈ L → R.lookup h = some t → UnlockReach R L h
  | step {h h' : TxHash} {t t' : ReadyTransaction} :
      UnlockReach R L h → R.lookup h = some t → h' ∈ t.unlocks → R.lookup h' = some t' →
      UnlockReach R L h'

theorem UnlockReach.congr {L' : List TxHash} (hsub : ∀ h t, R.lookup h = some t → h ∈ L → h ∈ L')
    (hr : UnlockReach R L h) : UnlockReach R L' h := by
  induction hr with
  | start hmem ht => exact .start (hsub _ _ ht hmem) ht
  | step _ ht hmem ht' ih => exact .step ih ht hmem ht'

variable {R' : HashMap TxHash ReadyTransaction}

/-- One round of the removal loop, seen from what is reached. -/
theorem unlockReach_cons (rest : List TxHash) (ht : R.lookup h = some t)
    (hclean : MapCleaned (R.erase h) R') (x : TxHash) :
    UnlockReach R (h :: rest) x ↔ x = h ∨ UnlockReach R' (t.unlocks.reverse ++ rest) x := by
  constructor
  · intro hr
    induction hr with
    | @start y ty hmem hy =>
      by_cases hyh : y = h
      · exact Or.inl hyh
      obtain ⟨ty', hy', -⟩ := hclean.some_erase hyh hy
      rcases List.mem_cons.mp hmem with hmem | hmem
      · exact Or.inl hmem
      · exact Or.inr (.start (List.mem_append_right _ hmem) hy')
    | @step y z ty tz hr hy hmem hz ih =>
      by_cases hzh : z = h
      · exact Or.inl hzh
      obtain ⟨tz', hz', -⟩ := hclean.some_erase hzh hz
      by_cases hyh : y = h
      · subst hyh
        rw [ht] at hy
        cases hy
        exact Or.inr (.start (List.mem_append_left _ (List.mem_reverse.mpr hmem)) hz')
      have ih := ih.resolve_left hyh
      by_cases hzy : z = y
      · exact Or.inr (hzy ▸ ih)
      obtain ⟨ty', hy', hc⟩ := hclean.some_erase hyh hy
      exact Or.inr (.step ih hy' ((hc.mem z hzy).mpr hmem) hz')
  · intro hr
    rcases hr with hx | hr
    · exact .start (by rw [hx]; exact List.mem_cons_self) (by rw [hx]; exact ht)
    · induction hr with
      | @start y ty hmem hy =>
        obtain ⟨-, ty', hy', -⟩ := hclean.of_some_erase hy
        rcases List.mem_append.mp hmem with hmem | hmem
        · exact .step (.start List.mem_cons_self ht) ht (List.mem_reverse.mp hmem) hy'
        · exact .start (List.mem_cons_of_mem _ hmem) hy'
      | @step y z ty tz hr hy hmem hz ih =>
        obtain ⟨-, ty', hy', hc⟩ := hclean.of_some_erase hy
        obtain ⟨-, tz', hz', -⟩ := hclean.of_some_erase hz
        exact .step ih hy' (hc.subset z hmem) hz'

theorem not_unlockReach_nil : ¬ UnlockReach R [] h := by
  intro hr
  induction hr with
  | start hmem _ => cases hmem
  | step _ _ _ _ ih => exact ih

/-- What a removal without a filter does to the ready half. -/
structure Cleared (r : ReadyTransactions) (L : List TxHash) (txs : List PoolTransaction)
    (r' : ReadyTransactions) : Prop where
  id : r'.id = r.id
  kept : ∀ h t, r.readyTx.lookup h = some t → ¬ UnlockReach r.readyTx L h →
    ∃ t', r'.readyTx.lookup h = some t' ∧ OwnCleaned h t t'
  gone : ∀ h, UnlockReach r.readyTx L h → r'.readyTx.lookup h = none
  fresh : ∀ h, r.readyTx.lookup h = none → r'.readyTx.lookup h = none
  removed : ∀ tx, tx ∈ txs ↔
    ∃ t, r.readyTx.lookup tx.hash = some t ∧ t.tx = tx ∧ UnlockReach r.readyTx L tx.hash
  nodup : (txs.map (·.hash)).Nodup
  independent : ∀ x, x ∈ r'.independentTransactions ↔ x ∈ r.independentTransactions ∧
    ∀ h t, r.readyTx.lookup h = some t → UnlockReach r.readyTx L h →
      PoolTransactionRef.cmp x t.transaction ≠ .eq

namespace Cleared

variable {r' : ReadyTransactions} {txs : List PoolTransaction}

/-- An entry that is still there was not reached, and was there before. -/
theorem of_some (hc : Cleared r L txs r') (ht' : r'.readyTx.lookup h = some t') :
    ¬ UnlockReach r.readyTx L h ∧ ∃ t, r.readyTx.lookup h = some t ∧ OwnCleaned h t t' := by
  have hnot : ¬ UnlockReach r.readyTx L h := by
    intro hr
    rw [hc.gone h hr] at ht'
    cases ht'
  refine ⟨hnot, ?_⟩
  cases ht : r.readyTx.lookup h with
  | none =>
    rw [hc.fresh h ht] at ht'
    cases ht'
  | some t =>
    obtain ⟨t₁, ht₁, hown⟩ := hc.kept h t ht hnot
    rw [ht₁] at ht'
    cases ht'
    exact ⟨t, rfl, hown⟩

end Cleared

theorem invalidated_none {tx : PoolTransaction} (hm : NonceMarked tx) :
    invalidated none tx = [tx.slot] := by
  simp [invalidated, hm.provides, PoolTransaction.slot]

theorem successors_none (hm : NonceMarked t.tx) : successors none t = t.unlocks := by
  simp [successors, invalidated_none hm]

theorem removeReady_none_provided (hm : NonceMarked t.tx) :
    (removeReady none r h t).providedMarkers = r.providedMarkers.erase t.tx.slot := by
  simp [removeReady, invalidated_none hm]

theorem removeReady_cleaned (filter : Option (Finset TxMarker)) (r : ReadyTransactions) (h : TxHash)
    (t : ReadyTransaction) : MapCleaned (r.readyTx.erase h) (removeReady filter r h t).readyTx :=
  MapCleaned.foldl_unlinkOwn _ _ _

/-- The transactions that are left when the one under `h` is taken out. -/
def WithoutEntry (R : HashMap TxHash ReadyTransaction) (h : TxHash)
    (R' : HashMap TxHash ReadyTransaction) : Prop :=
  ∀ y, (R'.lookup y).map (·.tx) = if y = h then none else (R.lookup y).map (·.tx)

theorem MapCleaned.withoutEntry (hclean : MapCleaned (R.erase h) R') : WithoutEntry R h R' := by
  intro y
  by_cases hyh : y = h
  · rw [if_pos hyh, hclean.none (by rw [lookup_erase_ite, if_pos hyh]), Option.map_none]
  · rw [if_neg hyh]
    cases hy : R.lookup y with
    | none =>
      rw [hclean.none (by rw [lookup_erase_ite, hy, ite_self]), Option.map_none]
    | some t =>
      obtain ⟨t', ht', hc⟩ := hclean.some_erase hyh hy
      rw [ht', Option.map_some, Option.map_some, hc.tx_eq]

variable {r' : ReadyTransactions}

/-- Taking out one transaction and its marker keeps map and index in agreement. -/
theorem ReadyCore.of_withoutEntry (hr : ReadyCore r) (ht : r.readyTx.lookup h = some t)
    (hwithout : WithoutEntry r.readyTx h r'.readyTx)
    (hprov : r'.providedMarkers = r.providedMarkers.erase t.tx.slot) : ReadyCore r' := by
  have hback : ∀ y ty', r'.readyTx.lookup y = some ty' →
      y ≠ h ∧ ∃ ty, r.readyTx.lookup y = some ty ∧ ty.tx = ty'.tx := by
    intro y ty' hy
    have heq := hwithout y
    rw [hy, Option.map_some] at heq
    by_cases hyh : y = h
    · rw [if_pos hyh] at heq
      cases heq
    · rw [if_neg hyh] at heq
      exact ⟨hyh, Option.map_eq_some_iff.mp heq.symm⟩
  refine ⟨?_, ?_, ?_⟩
  · intro y ty' hy
    obtain ⟨-, ty, hy', htx⟩ := hback y ty' hy
    rw [← htx]
    exact hr.hash y ty hy'
  · intro y ty' hy
    obtain ⟨-, ty, hy', htx⟩ := hback y ty' hy
    rw [← htx]
    exact hr.marked y ty hy'
  · intro m y
    rw [hprov, lookup_erase_ite]
    constructor
    · intro hy
      split at hy
      · cases hy
      rename_i hne
      obtain ⟨ty, hty, hslot⟩ := (hr.provided m y).mp hy
      have hyh : y ≠ h := ne_of_lookup hty ht <| by
        rintro rfl
        exact hne hslot.symm
      have heq := hwithout y
      rw [if_neg hyh, hty, Option.map_some] at heq
      obtain ⟨ty', hty', htx⟩ := Option.map_eq_some_iff.mp heq
      exact ⟨ty', hty', by rw [htx]; exact hslot⟩
    · intro hex
      obtain ⟨ty', hty', hslot⟩ := hex
      obtain ⟨hyh, ty, hty, htx⟩ := hback y ty' hty'
      rw [← htx] at hslot
      have hne : m ≠ t.tx.slot := fun heq => hyh (hr.slot_inj hty ht (hslot.trans heq)).1
      rw [if_neg hne]
      exact (hr.provided m y).mpr ⟨ty, hty, hslot⟩

/-- Links hold of everything but the hashes still to be removed. -/
def LinkedUpTo (r : ReadyTransactions) (L : List TxHash) : Prop :=
  ∀ h t, r.readyTx.lookup h = some t → Linked r h t ∨ h ∈ L

theorem LinkedUpTo.removeReady (hr : ReadyCore r) {rest : List TxHash}
    (ht : r.readyTx.lookup h = some t) (hlink : LinkedUpTo r (h :: rest)) :
    LinkedUpTo (removeReady none r h t) (t.unlocks.reverse ++ rest) := by
  have hclean := removeReady_cleaned none r h t
  intro y ty' hy'
  obtain ⟨hyh, ty, hy, hc⟩ := hclean.of_some_erase hy'
  rcases hlink y ty hy with hl | hmem
  · by_cases hun : y ∈ t.unlocks
    · exact Or.inr (List.mem_append_left _ (List.mem_reverse.mpr hun))
    refine Or.inl fun hoff => ?_
    rw [hc.requiresOffset, hc.tx_eq] at hoff
    obtain ⟨x, p, hx, hfol, hmem⟩ := hl hoff
    have hxh : x ≠ h := ne_of_lookup hx ht <| by
      rintro rfl
      exact hun hmem
    have hyx : y ≠ x := ne_of_lookup hy hx <| by
      rintro rfl
      exact (hr.marked y ty hy).not_follows_self hfol
    obtain ⟨p', hp', hcp⟩ := hclean.some_erase hxh hx
    refine ⟨x, p', hp', ?_, (hcp.mem y hyx).mpr hmem⟩
    rw [hc.tx_eq, hcp.tx_eq]
    exact hfol
  · exact Or.inr (List.mem_append_right _ (List.mem_of_ne_of_mem hyh hmem))

theorem cleared_nil (r : ReadyTransactions) : Cleared r [] [] r where
  id := rfl
  kept h t ht _ := ⟨t, ht, .refl h t⟩
  gone _ hr := absurd hr not_unlockReach_nil
  fresh _ h := h
  removed tx := by simp [not_unlockReach_nil]
  nodup := List.nodup_nil
  independent x := by simp [not_unlockReach_nil]

variable {txs : List PoolTransaction}

theorem Cleared.congr {L' : List TxHash} (hc : Cleared r L txs r')
    (hiff : ∀ h, UnlockReach r.readyTx L' h ↔ UnlockReach r.readyTx L h) : Cleared r L' txs r' := by
  obtain ⟨hid, hkept, hgone, hfresh, hrem, hnodup, hind⟩ := hc
  refine ⟨hid, ?_, ?_, hfresh, ?_, hnodup, ?_⟩
  all_goals simpa only [hiff]

/-- One round of the loop followed by the rest of it. -/
theorem Cleared.cons (hr : ReadyCore r) {rest : List TxHash} (ht : r.readyTx.lookup h = some t)
    (hc : Cleared (removeReady none r h t) (t.unlocks.reverse ++ rest) txs r') :
    Cleared r (h :: rest) (t.tx :: txs) r' := by
  have hclean := removeReady_cleaned none r h t
  have hreach := unlockReach_cons rest ht hclean
  have hgone : (removeReady none r h t).readyTx.lookup h = none :=
    hclean.none (by rw [Finmap.lookup_erase])
  refine ⟨hc.id, ?_, ?_, ?_, ?_, ?_, ?_⟩
  · intro y ty hy hnot
    rw [hreach, not_or] at hnot
    obtain ⟨ty₁, hy₁, hc₁⟩ := hclean.some_erase hnot.1 hy
    obtain ⟨ty₂, hy₂, hc₂⟩ := hc.kept y ty₁ hy₁ hnot.2
    exact ⟨ty₂, hy₂, hc₁.trans hc₂⟩
  · intro y hy
    rcases (hreach y).mp hy with heq | hy
    · rw [heq]
      exact hc.fresh h hgone
    · exact hc.gone y hy
  · intro y hy
    exact hc.fresh y (hclean.none (by rw [lookup_erase_ite, hy, ite_self]))
  · intro tx
    rw [List.mem_cons, hc.removed]
    constructor
    · intro hor
      rcases hor with heq | hex
      · subst heq
        rw [hr.hash h t ht]
        exact ⟨t, ht, rfl, (hreach h).mpr (Or.inl rfl)⟩
      · obtain ⟨t₁, ht₁, htx, hy⟩ := hex
        obtain ⟨-, t₀, ht₀, hown⟩ := hclean.of_some_erase ht₁
        exact ⟨t₀, ht₀, by rw [← hown.tx_eq]; exact htx, (hreach _).mpr (Or.inr hy)⟩
    · intro hex
      obtain ⟨t₀, ht₀, htx, hy⟩ := hex
      by_cases heq : tx.hash = h
      · rw [heq, ht] at ht₀
        cases ht₀
        exact Or.inl htx.symm
      · obtain ⟨t₁, ht₁, hown⟩ := hclean.some_erase heq ht₀
        exact Or.inr ⟨t₁, ht₁, by rw [hown.tx_eq]; exact htx, ((hreach _).mp hy).resolve_left heq⟩
  · rw [List.map_cons, List.nodup_cons]
    refine ⟨?_, hc.nodup⟩
    intro hmem
    obtain ⟨tx, htx, heq⟩ := List.mem_map.mp hmem
    obtain ⟨t₁, ht₁, -⟩ := (hc.removed tx).mp htx
    rw [heq, hr.hash h t ht, hgone] at ht₁
    cases ht₁
  · intro x
    rw [hc.independent]
    simp only [removeReady, BTreeSet.mem_remove]
    constructor
    · intro hand
      refine ⟨hand.1.1, ?_⟩
      intro y ty hy hreachy
      by_cases hyh : y = h
      · subst hyh
        rw [ht] at hy
        cases hy
        exact hand.1.2
      · obtain ⟨ty₁, hy₁, hown⟩ := hclean.some_erase hyh hy
        rw [← hown.transaction]
        exact hand.2 y ty₁ hy₁ (((hreach y).mp hreachy).resolve_left hyh)
    · intro hand
      refine ⟨⟨hand.1, hand.2 h t ht ((hreach h).mpr (Or.inl rfl))⟩, ?_⟩
      intro y ty₁ hy₁ hreachy
      obtain ⟨-, ty, hy, hown⟩ := hclean.of_some_erase hy₁
      rw [hown.transaction]
      exact hand.2 y ty hy ((hreach y).mpr (Or.inr hreachy))

theorem removeLoop_spec (acc : List PoolTransaction) (hr : ReadyCore r) (hlink : LinkedUpTo r L) :
    ∃ txs r', removeLoop none r L acc = (acc ++ txs, r') ∧ Cleared r L txs r' ∧ ReadyWf r' := by
  fun_induction removeLoop none r L acc with
  | case1 r acc =>
    refine ⟨[], r, by rw [List.append_nil], cleared_nil r, hr, ?_⟩
    intro h t ht
    exact (hlink h t ht).resolve_right List.not_mem_nil
  | case2 r acc h rest hnone ih =>
    have hlink' : LinkedUpTo r rest := by
      intro y ty hy
      refine (hlink y ty hy).imp_right fun hmem => ?_
      refine List.mem_of_ne_of_mem ?_ hmem
      intro heq
      rw [heq, hnone] at hy
      cases hy
    obtain ⟨txs, r', heq, hc, hwf⟩ := ih hr hlink'
    refine ⟨txs, r', heq, hc.congr fun y => ⟨?_, ?_⟩, hwf⟩
    · refine UnlockReach.congr fun z tz hz hmem => List.mem_of_ne_of_mem ?_ hmem
      intro hzh
      rw [hzh, hnone] at hz
      cases hz
    · exact UnlockReach.congr fun z tz hz hmem => List.mem_cons_of_mem _ hmem
  | case3 r acc h rest t ht ih =>
    have hm := hr.marked h t ht
    rw [successors_none hm] at ih ⊢
    obtain ⟨txs, r', heq, hc, hwf⟩ := ih
      (hr.of_withoutEntry ht (removeReady_cleaned none r h t).withoutEntry
        (removeReady_none_provided hm))
      (hlink.removeReady hr ht)
    exact ⟨t.tx :: txs, r', by rw [heq]; simp, hc.cons hr ht, hwf⟩

/-- `clear_transactions` takes out what is reached along `unlocks`, and only that. -/
theorem removeWithMarkers_none_spec (hr : ReadyWf r) (L : List TxHash) :
    Cleared r L (r.removeWithMarkers L none).1 (r.removeWithMarkers L none).2 ∧
      ReadyWf (r.removeWithMarkers L none).2 := by
  obtain ⟨txs, r', heq, hc, hwf⟩ := removeLoop_spec [] hr.toReadyCore
    fun h t ht => Or.inl (hr.linked h t ht)
  rw [removeWithMarkers, heq, List.nil_append]
  refine ⟨hc.congr fun y => ⟨?_, ?_⟩, hwf⟩
  · exact UnlockReach.congr fun z tz hz hmem => List.mem_reverse.mpr hmem
  · exact UnlockReach.congr fun z tz hz hmem => List.mem_reverse.mp hmem

end BaseAnvil.Pool

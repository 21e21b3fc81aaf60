import BaseAnvil.Pool.Outcome
import BaseAnvil.Pool.ReadyOrder

/-!
# BaseAnvil.Pool.History

What a state of the pool owes to the transactions submitted so far: everything in
it was submitted, every link was made for a submitted transaction (`Traced`), and
no more ids were handed out than transactions were submitted (`Counted`).

A link may outlive the transaction it was made for. If no hash is submitted twice,
a link to a transaction that is still ready is nevertheless right
(`Traced.follows_of_listed`).
-/

namespace BaseAnvil.Pool

open Lib ReadyTransactions Finmap

structure Traced (T : List PoolTransaction) (c : Config) : Prop where
  ready : ∀ h t, c.1.readyTransactions.readyTx.lookup h = some t → t.tx ∈ T
  queued : ∀ h w, c.1.pendingTransactions.waitingQueue.lookup h = some w → w.transaction ∈ T
  loose : ∀ u ∈ c.2, u.transaction ∈ T
  links : ∀ h p, c.1.readyTransactions.readyTx.lookup h = some p → ∀ x ∈ p.unlocks,
    ∃ t ∈ T, t.hash = x ∧ t.Follows p.tx

/-- No two of the transactions have the same hash. -/
def DistinctHashes (T : List PoolTransaction) : Prop := (T.map (·.hash)).Nodup

variable {T : List PoolTransaction}

theorem DistinctHashes.eq (hT : DistinctHashes T) {a b : PoolTransaction} (ha : a ∈ T) (hb : b ∈ T)
    (h : a.hash = b.hash) : a = b :=
  List.inj_on_of_nodup_map hT ha hb h

variable {ord : HashOrder} {c c' : Config} {l : TxMarker × List PoolTransaction} {e : Event}

namespace Traced

/-- A link to a ready transaction is one to a transaction that waits for its owner. -/
theorem follows_of_listed (ht : Traced T c) (hT : DistinctHashes T)
    (hr : ReadyCore c.1.readyTransactions) {h x : TxHash} {p t : ReadyTransaction}
    (hp : c.1.readyTransactions.readyTx.lookup h = some p) (hx : x ∈ p.unlocks)
    (hxt : c.1.readyTransactions.readyTx.lookup x = some t) : t.tx.Follows p.tx := by
  obtain ⟨t', ht', hhash, hfol⟩ := ht.links h p hp x hx
  have heq := hT.eq (ht.ready x t hxt) ht' ((hr.hash x t hxt).trans hhash.symm)
  rw [heq]
  exact hfol

theorem mono {T' : List PoolTransaction} (ht : Traced T c) (hsub : ∀ t ∈ T, t ∈ T') :
    Traced T' c where
  ready h t hh := hsub _ (ht.ready h t hh)
  queued h w hh := hsub _ (ht.queued h w hh)
  loose u hu := hsub _ (ht.loose u hu)
  links h p hp x hx := by
    obtain ⟨t, htT, hand⟩ := ht.links h p hp x hx
    exact ⟨t, hsub t htT, hand⟩

variable {L : List PendingPoolTransaction} {r : ReadyTransactions} {p : PendingTransactions}
  {s : PoolInner}

/-- Taking entries away, and links. -/
theorem shrink
    (ht : Traced T (s, L))
    (hr : ∀ h t', r.readyTx.lookup h = some t' →
      ∃ t, s.readyTransactions.readyTx.lookup h = some t ∧
      t'.tx = t.tx ∧ ∀ x ∈ t'.unlocks, x ∈ t.unlocks) :
    Traced T (⟨r, s.pendingTransactions⟩, L) := by
  refine ⟨?_, ht.queued, ht.loose, ?_⟩
  · intro h t' ht'
    obtain ⟨t, hh, htx, -⟩ := hr h t' ht'
    rw [htx]
    exact ht.ready h t hh
  · intro h p' hp' x hx
    obtain ⟨p, hp, htx, hsub⟩ := hr h p' hp'
    rw [htx]
    exact ht.links h p hp x (hsub x hx)

variable {r' : ReadyTransactions}

theorem prunedOne {h : TxHash} {t : ReadyTransaction} (ht : Traced T (⟨r, p⟩, L))
    (hone : PrunedOne r h t r') : Traced T (⟨r', p⟩, L) := by
  refine ht.shrink fun y x' hx' => ?_
  obtain ⟨-, x, hx, rfl⟩ := hone.of_some hx'
  exact ⟨x, hx, rfl, fun z hz => mem_of_mem_afterPrune hz⟩

theorem unlocked (ord : HashOrder) {m : TxMarker} (ht : Traced T (s, L))
    (hs : PendingWf s.pendingTransactions) (hu : Unlocked s.pendingTransactions m p) :
    Traced T (⟨s.readyTransactions, p⟩, L ++ s.pendingTransactions.unlockedBy ord m) := by
  refine ⟨ht.ready, fun h w hw => ht.queued h w (hu.of_queue hw), ?_, ht.links⟩
  intro x hx
  rcases List.mem_append.mp hx with hx | hx
  · exact ht.loose x hx
  · obtain ⟨w, hw, -, rfl⟩ := (mem_unlockedBy hs).mp hx
    exact ht.queued _ w hw

theorem inserted {u : PendingPoolTransaction} (hr : ReadyCore r) (ht : Traced T (⟨r, p⟩, u :: L))
    (hi : Inserted r u.transaction r') : Traced T (⟨r', p⟩, L) := by
  have hu := ht.loose u List.mem_cons_self
  refine ⟨?_, ht.queued, fun x hx => ht.loose x (List.mem_cons_of_mem _ hx), ?_⟩
  · intro h t' ht'
    rcases hi.of_some ht' with ⟨-, rfl⟩ | ⟨t, t₁, hh, -, hown, rfl⟩
    · exact hu
    · rw [linkTo_tx, hown.tx_eq]
      exact ht.ready h t hh
  · intro h p' hp' x hx
    rcases hi.of_some hp' with ⟨-, rfl⟩ | ⟨q, q₁, hq, -, hown, rfl⟩
    · obtain ⟨o, ho, hx⟩ := mem_newEntry_unlocks.mp hx
      obtain ⟨hlook, hslot⟩ := hr.provider_eq_some.mp ho
      obtain ⟨t, htT, hhash, hfol⟩ := ht.links _ o hlook x hx
      rw [PoolTransaction.Follows, hslot] at hfol
      exact ⟨t, htT, hhash, hfol⟩
    · rw [linkTo_tx, hown.tx_eq]
      rcases mem_linkTo_unlocks.mp hx with hx | ⟨hfol, rfl⟩
      · exact ht.links h q hq x (hown.subset x hx)
      · rw [hown.tx_eq] at hfol
        exact ⟨u.transaction, hu, rfl, hfol⟩

theorem perm {L' : List PendingPoolTransaction} (ht : Traced T (s, L)) (hp : L.Perm L') :
    Traced T (s, L') :=
  ⟨ht.ready, ht.queued, fun u hu => ht.loose u (hp.mem_iff.mpr hu), ht.links⟩

theorem step (hinv : ConfigInv c) (ht : Traced T c) (hs : AbsorbStep ord c e c') : Traced T c' := by
  cases hs with
  | @enter s L L' rest u r p hperm _ hins hunl hperm' =>
    have hunlocked : Traced T (⟨s.readyTransactions, p⟩,
        (u :: rest) ++ s.pendingTransactions.unlockedBy ord u.transaction.slot) :=
      (ht.perm hperm).unlocked ord hinv.pool.pending hunl
    exact (hunlocked.inserted hinv.pool.ready.toReadyCore hins).perm hperm'.symm
  | @refuse s L L' rest u o hperm _ _ hperm' =>
    refine ⟨ht.ready, ht.queued, fun x hx => ?_, ht.links⟩
    exact ht.loose x (hperm.mem_iff.mpr (List.mem_cons_of_mem _ (hperm'.mem_iff.mp hx)))

theorem pruneStep (hinv : ConfigInv c) (ht : Traced T c) (hs : PruneStep ord c l c') :
    Traced T c' := by
  cases hs with
  | mk hunl hrun _ =>
    have hunlocked := ht.unlocked ord hinv.pool.pending hunl
    exact hrun.invariant (J := fun r => Traced T (⟨r, _⟩, _))
      (fun _ _ _ _ ht _ hone => ht.prunedOne hone) hinv.pool.ready hunlocked

end Traced

/-! ### Ids -/

/-- Ids handed out, transactions in flight, and what they add up to. -/
def Counted (N : Nat) (c : Config) : Prop :=
  ∃ n, Issued n c.1.readyTransactions ∧
    n + c.1.pendingTransactions.waitingQueue.keys.card + c.2.length ≤ N

variable {N : Nat}

/-- Entries may go; ids are not handed out again. -/
theorem Issued.shrunk {n : Nat} {r r' : ReadyTransactions} (hn : Issued n r) (hidx : Indexed r')
    (hs : Shrunk r r') : Issued n r' := by
  refine ⟨hidx, fun h t' ht' => ?_, fun hlt => ?_⟩
  · obtain ⟨t, ht, htx⟩ := hs.ready h t' ht'
    rw [← htx]
    exact hn.below h t ht
  · rw [hs.id]
    exact hn.next hlt

namespace Counted

theorem step (hN : N ≤ 2 ^ 64) (hinv : ConfigInv c) (hc : Counted N c)
    (hs : AbsorbStep ord c e c') : Counted N c' := by
  obtain ⟨n, hn, hle⟩ := hc
  cases hs with
  | @enter s L L' rest u r p hperm _ hins hunl hperm' =>
    have hlen : L.length = rest.length + 1 := hperm.length_eq
    have hlen' := hperm'.length_eq
    have hcard := hunl.card ord hinv.pool.pending
    rw [List.length_append] at hlen'
    have hlt : n < 2 ^ 64 := by
      simp only at hle
      omega
    refine ⟨n + 1, hn.inserted hlt hinv.pool.ready.toReadyCore ?_ hins, ?_⟩
    · exact hinv.loose.notReady u (hperm.mem_iff.mpr List.mem_cons_self)
    · simp only at hle ⊢
      omega
  | @refuse s L L' rest u o hperm _ _ hperm' =>
    have hlen : L.length = rest.length + 1 := hperm.length_eq
    have hlen' := hperm'.length_eq
    refine ⟨n, hn, ?_⟩
    simp only at hle ⊢
    omega

theorem pruneStep (hinv : ConfigInv c) (hc : Counted N c) (hs : PruneStep ord c l c') :
    Counted N c' := by
  obtain ⟨n, hn, hle⟩ := hc
  cases hs with
  | @mk s L m txs r p hunl hrun _ =>
    have hcard := hunl.card ord hinv.pool.pending
    refine ⟨n, hn.shrunk (hn.indexed.pruneRun hinv.pool.ready hrun)
      (hrun.shrunk hinv.pool.ready), ?_⟩
    simp only [List.length_append] at hle ⊢
    omega

end Counted

/-! ### Runs -/

theorem submitted_append (ops : List PoolOp) (op : PoolOp) :
    submitted (ops ++ [op]) = submitted ops ++ submitted [op] :=
  List.filterMap_append

variable {s s' : PoolInner} {op : PoolOp}

theorem Traced.outcome (hs : PoolInv s) (ht : Traced T (s, [])) (h : Outcome s op s') :
    Traced (T ++ submitted [op]) (s', []) := by
  have ht' : Traced (T ++ submitted [op]) (s, []) :=
    ht.mono fun t hmem => List.mem_append_left _ hmem
  cases h with
  | @add ord tx res s' hm hout =>
    have htx : tx ∈ T ++ submitted [.addTransaction tx] :=
      List.mem_append_right _ List.mem_cons_self
    cases hout with
    | contained _ => exact ht'
    | underpriced _ => exact ht'
    | @queued m p hc hreq hprov hunder hq =>
      refine ⟨ht'.ready, ?_, ht'.loose, ht'.links⟩
      intro h w hw
      have hw : p.waitingQueue.lookup h = some w := hw
      rw [hq.queue, HashMap.lookup_insert_ite] at hw
      split at hw
      · cases hw
        exact htx
      · exact ht'.queued h w hw
    | absorbed hc hreq hstep hrun =>
      have hcfg := configInv_incoming hs hm hc (isReady_incoming hreq)
      have hstart : Traced (T ++ submitted [.addTransaction tx]) (s, [s.incoming tx]) := by
        refine ⟨ht'.ready, ht'.queued, ?_, ht'.links⟩
        intro u hu
        rw [List.mem_singleton] at hu
        subst hu
        exact htx
      exact hcfg.absorb_keeps Traced.step hstart (.cons hstep hrun)
  | @prune ord ms labels imports s₁ evs s' hlabels hphase hrun =>
    have hmid := hphase.keeps
      (I := fun c => ConfigInv c ∧ Traced (T ++ submitted [.pruneMarkers ms]) c)
      ⟨⟨hs, loose_nil s⟩, ht'⟩ fun hi hs' => ⟨hi.1.pruneStep hs', hi.2.pruneStep hi.1 hs'⟩
    exact hmid.1.absorb_keeps Traced.step hmid.2 hrun
  | @remove _ L txs txs' r p _ hcl _ hp =>
    have hshrunk : Traced (T ++ submitted [op]) (⟨r, s.pendingTransactions⟩, []) := by
      refine ht'.shrink fun h t' hh => ?_
      obtain ⟨-, t, ht, hown⟩ := hcl.of_some hh
      exact ⟨t, ht, hown.tx_eq, hown.subset⟩
    rcases hp with rfl | hd
    · exact hshrunk
    · refine ⟨hshrunk.ready, ?_, hshrunk.loose, hshrunk.links⟩
      exact fun h w hw => ht'.queued h w (hd.of_queue hw)
  | clear =>
    refine ⟨?_, ?_, ht'.loose, ?_⟩ <;> intro h t hh <;> cases hh

variable {ops : List PoolOp}

theorem PoolRun.traced (h : PoolRun ops s) : Traced (submitted ops) (s, []) := by
  refine Run.invariant_of (I := fun _ s => PoolInv s)
    (J := fun ops s => Traced (submitted ops) (s, [])) (fun _ _ hrun => PoolRun.inv hrun) ?_ ?_ h
  · refine ⟨?_, ?_, fun u hu => absurd hu List.not_mem_nil, ?_⟩ <;> intro h t ht <;> cases ht
  · intro ops s op s' hinv ht hs
    rw [submitted_append]
    exact ht.outcome hinv (hs.outcome hinv)

theorem Counted.mono {N' : Nat} (hc : Counted N c) (hle : N ≤ N') : Counted N' c := by
  obtain ⟨n, hn, hsum⟩ := hc
  exact ⟨n, hn, hsum.trans hle⟩

/-- Queued transactions may go as well. -/
theorem Counted.of_removed (hc : Counted N (s, [])) (hidx : Indexed s'.readyTransactions)
    (hsh : Shrunk s.readyTransactions s'.readyTransactions)
    (hqueue : s'.pendingTransactions.waitingQueue.keys ⊆ s.pendingTransactions.waitingQueue.keys) :
    Counted N (s', []) := by
  obtain ⟨n, hn, hsum⟩ := hc
  have hcard := Finset.card_le_card hqueue
  refine ⟨n, hn.shrunk hidx hsh, ?_⟩
  simp only at hsum ⊢
  omega

theorem Counted.outcome (hs : PoolInv s) (hN : N + (submitted [op]).length ≤ 2 ^ 64)
    (hc : Counted N (s, [])) (h : Outcome s op s') :
    Counted (N + (submitted [op]).length) (s', []) := by
  have hc' : Counted (N + (submitted [op]).length) (s, []) := hc.mono (Nat.le_add_right _ _)
  cases h with
  | @add ord tx res s' hm hout =>
    cases hout with
    | contained _ => exact hc'
    | underpriced _ => exact hc'
    | @queued m p hcon hreq hprov hunder hq =>
      obtain ⟨n, hn, hsum⟩ := hc
      refine ⟨n, hn, ?_⟩
      have hnew : tx.hash ∉ s.pendingTransactions.waitingQueue.keys :=
        fun hmem => lookup_eq_none.mp (not_contains hcon).2 (mem_keys.mp hmem)
      have hcard : p.waitingQueue.keys.card = s.pendingTransactions.waitingQueue.keys.card + 1 := by
        rw [← Finset.card_insert_of_notMem hnew]
        congr 1
        ext h
        rw [hq.queue, Finset.mem_insert, mem_keys, mem_keys, mem_insert]
        rfl
      have hone : (submitted [.addTransaction tx]).length = 1 := rfl
      simp only [hone, List.length_nil] at hsum ⊢
      omega
    | absorbed hcon hreq hstep hrun =>
      have hcfg := configInv_incoming hs hm hcon (isReady_incoming hreq)
      have hstart : Counted (N + (submitted [.addTransaction tx]).length) (s, [s.incoming tx]) := by
        obtain ⟨n, hn, hsum⟩ := hc
        exact ⟨n, hn, Nat.add_le_add_right hsum 1⟩
      exact hcfg.absorb_keeps (Counted.step hN) hstart (.cons hstep hrun)
  | @prune ord ms labels imports s₁ evs s' hlabels hphase hrun =>
    have hmid := hphase.keeps
      (I := fun c => ConfigInv c ∧ Counted (N + (submitted [.pruneMarkers ms]).length) c)
      ⟨⟨hs, loose_nil s⟩, hc'⟩ fun hi hs' => ⟨hi.1.pruneStep hs', hi.2.pruneStep hi.1 hs'⟩
    exact hmid.1.absorb_keeps (Counted.step hN) hmid.2 hrun
  | @remove _ L txs txs' r p _ hcl hwf hp =>
    obtain ⟨n, hn, -⟩ := hc
    refine hc'.of_removed (hn.indexed.cleared hcl) (hcl.shrunk hs.ready hwf) ?_
    rcases hp with rfl | hd
    · exact Finset.Subset.refl _
    · intro h hh
      obtain ⟨w, hw⟩ := mem_iff.mp (mem_keys.mp hh)
      exact mem_keys.mpr (mem_iff.mpr ⟨w, hd.of_queue hw⟩)
  | clear =>
    refine hc'.of_removed (indexed_of_empty rfl rfl) ⟨rfl, ?_, ?_⟩ fun h hh => by cases hh
    all_goals
      intro h x hx
      cases hx

/-- The ids of the ready transactions are distinct until 2^64 submissions. -/
theorem PoolRun.counted (h : PoolRun ops s) (hlen : (submitted ops).length ≤ 2 ^ 64) :
    Counted (submitted ops).length (s, []) := by
  refine Run.invariant_of (I := fun _ s => PoolInv s)
    (J := fun ops s => (submitted ops).length ≤ 2 ^ 64 → Counted (submitted ops).length (s, []))
    (fun _ _ hrun => PoolRun.inv hrun) ?_ ?_ h hlen
  · intro _
    refine ⟨0, ⟨indexed_of_empty rfl rfl, ?_, fun _ => rfl⟩, Nat.le_refl _⟩
    intro h t ht
    cases ht
  · intro ops s op s' hinv hc hs hle
    rw [submitted_append, List.length_append] at hle ⊢
    exact (hc (by omega)).outcome hinv hle (hs.outcome hinv)

end BaseAnvil.Pool

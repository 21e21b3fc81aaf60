import BaseAnvil.Pool.Inv

/-!
# BaseAnvil.Pool.Cascade

The loops of `pool/mod.rs` as runs: `add_ready_transaction` and the promotions of
`prune_markers` are `Absorb` runs, the first loop of `prune_markers` is a run of
`PruneStep`. Each function gets one lemma that says so; that none of them panics
and that the cyclic branch is never taken is part of it.
-/

namespace BaseAnvil.Pool

open Lib PoolInner AddedReady PendingTransactions

/-! ### What the events of a run report -/

/-- The transactions that went in. -/
def enteredHashes (evs : List Event) : List TxHash :=
  evs.filterMap fun
    | .entered tx _ => some tx.hash
    | .refused _ => none

/-- The transactions that did not. -/
def refusedHashes (evs : List Event) : List TxHash :=
  evs.filterMap fun
    | .entered _ _ => none
    | .refused tx => some tx.hash

/-- The transactions that had to make room. -/
def replacedTxs (evs : List Event) : List PoolTransaction :=
  evs.flatMap fun
    | .entered _ replaced => replaced
    | .refused _ => []

variable (evs : List Event)

@[simp] theorem enteredHashes_entered :
    enteredHashes (.entered tx l :: evs) = tx.hash :: enteredHashes evs := rfl

@[simp] theorem refusedHashes_entered :
    refusedHashes (.entered tx l :: evs) = refusedHashes evs := rfl

@[simp] theorem enteredHashes_append :
    enteredHashes (evs ++ evs') = enteredHashes evs ++ enteredHashes evs' :=
  List.filterMap_append

@[simp] theorem refusedHashes_append :
    refusedHashes (evs ++ evs') = refusedHashes evs ++ refusedHashes evs' :=
  List.filterMap_append

@[simp] theorem replacedTxs_append :
    replacedTxs (evs ++ evs') = replacedTxs evs ++ replacedTxs evs' :=
  List.flatMap_append

/-- The report of a cascade, extended by further events. -/
def AddedReady.record (ready : AddedReady) (evs : List Event) : AddedReady where
  hash := ready.hash
  promoted := ready.promoted ++ enteredHashes evs
  discarded := ready.discarded ++ refusedHashes evs
  removed := ready.removed ++ replacedTxs evs

variable (ready : AddedReady)

@[simp] theorem record_nil : ready.record [] = ready := by
  simp [record, enteredHashes, refusedHashes, replacedTxs]

theorem record_entered (evs : List Event) :
    ready.record (.entered tx l :: evs) =
      { ready with
        promoted := ready.promoted ++ [tx.hash]
        removed := ready.removed ++ l : AddedReady }.record evs := by
  simp [record, enteredHashes, refusedHashes, replacedTxs]

theorem record_refused (evs : List Event) :
    ready.record (.refused tx :: evs) =
      { ready with discarded := ready.discarded ++ [tx.hash] : AddedReady }.record evs := by
  simp [record, enteredHashes, refusedHashes, replacedTxs]

/-! ### The cascade -/

variable {ord : HashOrder} {s : PoolInner} {u : PendingPoolTransaction} {c : Config}
  {replaced : List PoolTransaction} {evs : List Event}

variable {p : PendingTransactions}

theorem markAndUnlock_of_none {m : TxMarker} (h : p.requiredMarkers.lookup m = none) :
    p.markAndUnlock ord [m] = .ok ([], p) := by
  simp [markAndUnlock, markOne, h]

/-- One attempt, as the loop makes it. -/
theorem attempt_cases (ord : HashOrder) {rest : List PendingPoolTransaction}
    (hc : ConfigInv (s, u :: rest)) :
    (∃ o, s.readyTransactions.provider u.transaction.slot = some o ∧
      u.transaction.maxFeePerGas ≤ o.tx.maxFeePerGas ∧
      s.pendingTransactions.markAndUnlock ord u.transaction.provides =
        .ok ([], s.pendingTransactions) ∧
      s.readyTransactions.addTransaction ord u =
        .ok (.error (.replacementUnderpriced u.transaction), s.readyTransactions)) ∨
    (∃ r p, (∀ o, s.readyTransactions.provider u.transaction.slot = some o →
        o.tx.maxFeePerGas < u.transaction.maxFeePerGas) ∧
      s.pendingTransactions.markAndUnlock ord u.transaction.provides =
        .ok (s.pendingTransactions.unlockedBy ord u.transaction.slot, p) ∧
      Unlocked s.pendingTransactions u.transaction.slot p ∧
      s.readyTransactions.addTransaction ord u =
        .ok (.ok ((s.readyTransactions.provider u.transaction.slot).toList.map (·.tx)), r) ∧
      Inserted s.readyTransactions u.transaction r) := by
  have hm := hc.loose.marked u List.mem_cons_self
  have hprov : u.transaction.provides = [u.transaction.slot] := hm.provides
  rcases ready_addTransaction_cases hc.pool.ready.toReadyCore
      (hc.loose.isReady u List.mem_cons_self) hm (hc.loose.notReady u List.mem_cons_self) with
    ⟨o, ho, hfee, hadd⟩ | ⟨r, hfee, hadd, hins⟩
  · refine Or.inl ⟨o, ho, hfee, ?_, hadd⟩
    obtain ⟨hlook, hslot⟩ := hc.pool.ready.provider_eq_some.mp ho
    rw [hprov]
    exact markAndUnlock_of_none
      (hc.pool.apart _ _ ((hc.pool.ready.provided _ _).mpr ⟨o, hlook, hslot⟩))
  · obtain ⟨p, hmark, hunl⟩ := markAndUnlock_spec ord hc.pool.pending u.transaction.slot
    exact Or.inr ⟨r, p, hfee, by rw [hprov]; exact hmark, hunl, hadd, hins⟩

/-- The loop of `add_ready_transaction` once its own transaction is in. `M` stands
by: loose transactions the caller holds. -/
theorem addReadyLoop_spec (ord : HashOrder) (M : List PendingPoolTransaction) (s : PoolInner)
    (L : List PendingPoolTransaction) (ready : AddedReady) (hc : ConfigInv (s, L ++ M)) :
    ∃ evs s', s.addReadyLoop ord L false ready = .ok (.ok (ready.record evs), s') ∧
      Cascade ord (s, L ++ M) evs (s', M) := by
  generalize hb : false = b
  fun_induction addReadyLoop ord s L b ready with
  | case1 s b ready => exact ⟨[], s, by rw [record_nil], .nil⟩
  | case2 s b ready u rest e herr =>
    rcases attempt_cases ord hc with ⟨o, -, -, hmark, -⟩ | ⟨r, p, -, hmark, -⟩
    all_goals
      rw [hmark] at herr
      cases herr
  | case3 s b ready u rest unl p hmark e herr =>
    rcases attempt_cases ord hc with ⟨o, -, -, -, hadd⟩ | ⟨r, p, -, -, -, hadd, -⟩
    all_goals
      rw [hadd] at herr
      cases herr
  | case4 s b ready u rest unl p hmark hash rep r hadd ih =>
    subst hb
    rcases attempt_cases ord hc with ⟨o, -, -, -, hadd'⟩ | ⟨r', p', hfee, hmark', hunl, hadd', hins⟩
    · rw [hadd'] at hadd
      cases hadd
    rw [hadd'] at hadd
    rw [hmark'] at hmark
    cases hadd
    cases hmark
    have hstep : CascadeStep ord (s, u :: (rest ++ M)) _ (⟨r, p⟩,
        (rest ++ s.pendingTransactions.unlockedBy ord u.transaction.slot) ++ M) :=
      .enter hfee hins hunl
    obtain ⟨evs, s', heq, hrun⟩ := ih (hc.step hstep.absorb) rfl
    exact ⟨_ :: evs, s', by rw [record_entered]; exact heq, .cons hstep hrun⟩
  | case5 => cases hb
  | case6 s b ready u rest unl p hmark hash err r hadd hnew ih =>
    rcases attempt_cases ord hc with ⟨o, ho, hfee, hmark', hadd'⟩ | ⟨r', p', -, -, -, hadd', -⟩
    · rw [hadd'] at hadd
      rw [hmark'] at hmark
      cases hadd
      cases hmark
      have hstep : CascadeStep ord (s, u :: (rest ++ M)) (.refused u.transaction)
          (s, (rest ++ []) ++ M) := by
        rw [List.append_nil]
        exact .refuse ho hfee
      obtain ⟨evs, s', heq, hrun⟩ := ih (hc.step hstep.absorb) rfl
      exact ⟨_ :: evs, s', by rw [record_refused]; exact heq, .cons hstep hrun⟩
    · rw [hadd'] at hadd
      cases hadd

/-! ### The cyclic branch is dead -/

/-- `x` comes later than `b` in the order of one sender's nonces. -/
def Above (b x : PoolTransaction) : Prop := x.sender = b.sender ∧ b.nonce.toNat < x.nonce.toNat

theorem Above.slot_ne {b x : PoolTransaction} (h : Above b x) : x.slot ≠ b.slot := by
  intro heq
  have hn := (toMarker_inj.mp heq).1
  have hlt := h.2
  rw [hn] at hlt
  exact Nat.lt_irrefl _ hlt

theorem Above.of_follows {b x y : PoolTransaction} (h : Above b x) (hm : NonceMarked y)
    (hf : y.Follows x) : Above b y := by
  obtain ⟨hs, hn⟩ := hm.nonce_of_follows hf
  exact ⟨hs.trans h.1, by have := h.2; omega⟩

/-- A cascade of later nonces does not touch the entry `h` of the nonce `b`. -/
structure Untouched (b : PoolTransaction) (h : TxHash) (evs : List Event) (c : Config) : Prop where
  inv : ConfigInv c
  above : ∀ x ∈ c.2, Above b x.transaction
  entry : ∃ t, c.1.readyTransactions.readyTx.lookup h = some t ∧ t.tx.slot = b.slot
  notReplaced : ∀ y ∈ replacedTxs evs, y.hash ≠ h

theorem Untouched.step {b : PoolTransaction} {h : TxHash} {c' : Config} {e : Event}
    (hu : Untouched b h evs c) (hs : AbsorbStep ord c e c') : Untouched b h (evs ++ [e]) c' := by
  have hinv' := hu.inv.step hs
  obtain ⟨hinv, habove, ⟨t, ht, hslot⟩, hrep⟩ := hu
  cases hs with
  | @enter s L L' rest u r p hperm hfee hins hunl hperm' =>
    have hmem : ∀ x, x ∈ u :: rest → x ∈ L := fun x hx => hperm.mem_iff.mpr hx
    have hau := habove u (hmem u List.mem_cons_self)
    refine ⟨hinv', ?_, ?_, ?_⟩
    · intro x hx
      rcases List.mem_append.mp (hperm'.mem_iff.mp hx) with hx | hx
      · exact habove x (hmem x (List.mem_cons_of_mem _ hx))
      · obtain ⟨-, hm, hreq⟩ := isReady_of_mem_unlockedBy hinv.pool.pending hx
        exact hau.of_follows hm hreq
    · obtain ⟨t₁, ht₁, hc⟩ := hins.kept h t ht (by rw [hslot]; exact Ne.symm hau.slot_ne)
      exact ⟨_, ht₁, by rw [linkTo_tx, hc.tx_eq]; exact hslot⟩
    · intro y hy
      rw [replacedTxs_append, List.mem_append] at hy
      rcases hy with hy | hy
      · exact hrep y hy
      · rw [replacedTxs, List.flatMap_singleton] at hy
        obtain ⟨⟨o, hlook, rfl⟩, hos⟩ := hinv.pool.ready.mem_provider.mp hy
        intro heq
        rw [heq, ht] at hlook
        cases hlook
        exact hau.slot_ne (hos.symm.trans hslot)
  | @refuse s L L' rest u o hperm ho hfee hperm' =>
    refine ⟨hinv', ?_, ⟨t, ht, hslot⟩, ?_⟩
    · intro x hx
      exact habove x (hperm.mem_iff.mpr (List.mem_cons_of_mem _ (hperm'.mem_iff.mp hx)))
    · intro y hy
      rw [replacedTxs_append, List.mem_append] at hy
      rcases hy with hy | hy
      · exact hrep y hy
      · cases hy

theorem Untouched.of_enter (hc : ConfigInv (s, [u]))
    (hs : AbsorbStep ord (s, [u]) (.entered u.transaction replaced) c) :
    Untouched u.transaction u.transaction.hash [] c := by
  have hinv := hc.step hs
  generalize he : Event.entered u.transaction replaced = e at hs
  cases hs with
  | @enter s L L' rest v r p hperm _ hins hunl hperm' =>
    obtain ⟨rfl, rfl⟩ := List.cons_eq_cons.mp (List.singleton_perm.mp hperm)
    rw [List.nil_append] at hperm'
    refine ⟨hinv, ?_, ⟨_, hins.new, rfl⟩, fun y hy => by cases hy⟩
    intro x hx
    obtain ⟨-, hm, hreq⟩ := isReady_of_mem_unlockedBy hc.pool.pending (hperm'.mem_iff.mp hx)
    obtain ⟨hsender, hn⟩ := hm.nonce_of_follows hreq
    exact ⟨hsender, by omega⟩
  | refuse => cases he

/-- The first transaction of a cascade is not replaced by those it unlocks. -/
theorem not_replaced_of_enter {s' : PoolInner} (hc : ConfigInv (s, [u]))
    (hs : AbsorbStep ord (s, [u]) (.entered u.transaction replaced) c)
    (hrun : Absorb ord c evs (s', [])) : ∀ y ∈ replacedTxs evs, y.hash ≠ u.transaction.hash :=
  (hrun.invariant (I := Untouched u.transaction u.transaction.hash) (Untouched.of_enter hc hs)
    fun _ _ _ _ hi hstep => hi.step hstep).notReplaced

variable {ready : AddedReady}

/-- The first round of `add_ready_transaction`, if its transaction is refused. -/
theorem addReadyLoop_refused {err : PoolError}
    (hmark : s.pendingTransactions.markAndUnlock ord u.transaction.provides =
      .ok ([], s.pendingTransactions))
    (hadd : s.readyTransactions.addTransaction ord u = .ok (.error err, s.readyTransactions)) :
    s.addReadyLoop ord [u] true ready = .ok (.error err, s) := by
  rw [addReadyLoop]
  split
  · rename_i e herr
    rw [hmark] at herr
    cases herr
  · rename_i unl p heq
    rw [hmark] at heq
    cases heq
    simp only [hadd]
    rfl

/-- The first round of `add_ready_transaction`, if its transaction goes in. -/
theorem addReadyLoop_entered {unlocked : List PendingPoolTransaction} {r : ReadyTransactions}
    (hmark : s.pendingTransactions.markAndUnlock ord u.transaction.provides = .ok (unlocked, p))
    (hadd : s.readyTransactions.addTransaction ord u = .ok (.ok replaced, r)) :
    s.addReadyLoop ord [u] true ready =
      addReadyLoop ord ⟨r, p⟩ unlocked false
        { ready with removed := ready.removed ++ replaced } := by
  rw [addReadyLoop]
  split
  · rename_i e herr
    rw [hmark] at herr
    cases herr
  · rename_i unl p' heq
    rw [hmark] at heq
    cases heq
    simp [hadd]

/-- `add_ready_transaction`: refused without a change, or the transaction goes in
and takes along what it unlocks. -/
theorem addReadyTransaction_cases (ord : HashOrder) {M : List PendingPoolTransaction}
    (hc : ConfigInv (s, u :: M)) :
    (∃ o, s.readyTransactions.provider u.transaction.slot = some o ∧
      u.transaction.maxFeePerGas ≤ o.tx.maxFeePerGas ∧
      s.addReadyTransaction ord u = .ok (.error (.replacementUnderpriced u.transaction), s)) ∨
    (∃ evs s' r p replaced,
      replaced = (s.readyTransactions.provider u.transaction.slot).toList.map (·.tx) ∧
      s.addReadyTransaction ord u =
        .ok (.ok (.ready
          { hash := u.transaction.hash
            promoted := enteredHashes evs
            discarded := refusedHashes evs
            removed := replaced ++ replacedTxs evs }), s') ∧
      CascadeStep ord (s, u :: M) (.entered u.transaction replaced)
        (⟨r, p⟩, s.pendingTransactions.unlockedBy ord u.transaction.slot ++ M) ∧
      Cascade ord (⟨r, p⟩, s.pendingTransactions.unlockedBy ord u.transaction.slot ++ M) evs
        (s', M)) := by
  rcases attempt_cases ord hc with
    ⟨o, ho, hfee, hmark, hadd⟩ | ⟨r, p, hfee, hmark, hunl, hadd, hins⟩
  · refine Or.inl ⟨o, ho, hfee, ?_⟩
    simp only [addReadyTransaction, addReadyLoop_refused hmark hadd]
  · have hstep : ∀ N, CascadeStep ord (s, u :: N)
        (.entered u.transaction
          ((s.readyTransactions.provider u.transaction.slot).toList.map (·.tx)))
        (⟨r, p⟩, s.pendingTransactions.unlockedBy ord u.transaction.slot ++ N) := fun N =>
      .enter (L := []) hfee hins hunl
    -- the cascade once with what stands by, and once alone for the cycle check
    have hc₀ : ConfigInv (s, [u]) :=
      ⟨hc.pool, hc.loose.of_subperm (List.singleton_subperm_iff.mpr List.mem_cons_self)⟩
    obtain ⟨evs, s', hrest, hrun⟩ := addReadyLoop_spec ord M _ _
      { new u.transaction.hash with
        removed := (s.readyTransactions.provider u.transaction.slot).toList.map (·.tx) }
      (hc.step (hstep M).absorb)
    obtain ⟨evs₀, s₀, hrest₀, hrun₀⟩ := addReadyLoop_spec ord [] _ _
      { new u.transaction.hash with
        removed := (s.readyTransactions.provider u.transaction.slot).toList.map (·.tx) }
      (hc₀.step (hstep []).absorb)
    refine Or.inr ⟨evs, s', r, p, _, rfl, ?_, hstep M, hrun⟩
    rw [hrest] at hrest₀
    have hrec := congrArg removed (Except.ok.inj (congrArg Prod.fst (Except.ok.inj hrest₀)))
    simp only [record, List.append_cancel_left_eq] at hrec
    have hany : ((s.readyTransactions.provider u.transaction.slot).toList.map (·.tx) ++
        replacedTxs evs).any (fun tx => tx.hash = u.transaction.hash) = false := by
      rw [List.any_eq_false]
      intro y hy
      rw [decide_eq_true_eq]
      rcases List.mem_append.mp hy with hy | hy
      · obtain ⟨⟨o, hlook, -⟩, -⟩ := hc.pool.ready.mem_provider.mp hy
        intro heq
        rw [heq, hc.loose.notReady u List.mem_cons_self] at hlook
        cases hlook
      · exact not_replaced_of_enter hc₀ (hstep []).absorb hrun₀.absorb y (hrec ▸ hy)
    simp only [addReadyTransaction, addReadyLoop_entered hmark hadd, new,
      List.nil_append] at hrest ⊢
    simp only [hrest, record, List.nil_append, hany]
    rfl

/-! ### Pruning -/

/-- One round of the first loop of `prune_markers`, labelled with the marker and
what was pruned for it. -/
inductive PruneStep (ord : HashOrder) : Config → TxMarker × List PoolTransaction → Config → Prop
  | mk {s : PoolInner} {L : List PendingPoolTransaction} {m : TxMarker}
      {txs : List PoolTransaction} {r : ReadyTransactions} {p : PendingTransactions} :
      Unlocked s.pendingTransactions m p → PruneRun s.readyTransactions [m] txs r → ReadyWf r →
      PruneStep ord (s, L) (m, txs)
        (⟨r, p⟩, L ++ s.pendingTransactions.unlockedBy ord m)

theorem ConfigInv.pruneStep {c' : Config} {l : TxMarker × List PoolTransaction} (hc : ConfigInv c)
    (hs : PruneStep ord c l c') : ConfigInv c' := by
  cases hs with
  | mk hunl hrun hwf => exact (hc.unlock hunl).shrink hwf (hrun.shrunk hc.pool.ready)

/-- The first loop of `prune_markers`. -/
theorem pruneMarker_spec (ord : HashOrder) :
    ∀ (ms : List TxMarker) (s : PoolInner) (L : List PendingPoolTransaction)
      (acc : List PoolTransaction), ConfigInv (s, L) →
      ∃ labels L' s', ms.foldlM (pruneMarker ord) (L, acc, s) =
          .ok (L', acc ++ labels.flatMap (·.2), s') ∧
        labels.map (·.1) = ms ∧ Run (PruneStep ord) (s, L) labels (s', L') := by
  intro ms
  induction ms with
  | nil =>
    intro s L acc _
    exact ⟨[], L, s, by rw [List.flatMap_nil, List.append_nil]; rfl, rfl, .nil⟩
  | cons m rest ih =>
    intro s L acc hc
    obtain ⟨p, hmark, hunl⟩ := markAndUnlock_spec ord hc.pool.pending m
    obtain ⟨txs, r, hprune, hrun, hwf⟩ := pruneTags_spec hc.pool.ready m
    have hstep : PruneStep ord (s, L) (m, txs)
        (⟨r, p⟩, L ++ s.pendingTransactions.unlockedBy ord m) := .mk hunl hrun hwf
    obtain ⟨labels, L', s', heq, hlabels, hrest⟩ := ih ⟨r, p⟩ _ (acc ++ txs) (hc.pruneStep hstep)
    refine ⟨(m, txs) :: labels, L', s', ?_, by rw [List.map_cons, hlabels], .cons hstep hrest⟩
    rw [List.foldlM_cons]
    have hone : pruneMarker ord (L, acc, s) m =
        .ok (L ++ s.pendingTransactions.unlockedBy ord m, acc ++ txs, ⟨r, p⟩) := by
      simp only [pruneMarker, hmark, hprune]
    rw [hone, List.flatMap_cons, ← List.append_assoc]
    exact heq

/-- How a list of promotion results and failures reports the events behind it. -/
structure Reported (evs : List Event) (promoted : List AddedTransaction) (failed : List TxHash) :
    Prop where
  entered : ∀ h, h ∈ enteredHashes evs ↔
    ∃ r, .ready r ∈ promoted ∧ (h = r.hash ∨ h ∈ r.promoted)
  refused : ∀ h, h ∈ refusedHashes evs ↔ h ∈ failed ∨ ∃ r, .ready r ∈ promoted ∧ h ∈ r.discarded
  replaced : ∀ tx, tx ∈ replacedTxs evs ↔ ∃ r, .ready r ∈ promoted ∧ tx ∈ r.removed

theorem reported_nil : Reported [] [] [] := by
  refine ⟨?_, ?_, ?_⟩ <;> intro x <;> simp [enteredHashes, refusedHashes, replacedTxs]

variable {promoted : List AddedTransaction}

theorem Reported.failed {failed : List TxHash} (hr : Reported evs promoted failed)
    (tx : PoolTransaction) : Reported (.refused tx :: evs) promoted (tx.hash :: failed) := by
  refine ⟨hr.entered, ?_, hr.replaced⟩
  intro h
  have hsplit : h ∈ refusedHashes (.refused tx :: evs) ↔ h = tx.hash ∨ h ∈ refusedHashes evs := by
    simp [refusedHashes]
  rw [hsplit, hr.refused, List.mem_cons, or_assoc]

theorem Reported.added {evs' : List Event} {failed : List TxHash}
    (hr : Reported evs promoted failed) (tx : PoolTransaction) (replaced : List PoolTransaction) :
    Reported (.entered tx replaced :: evs' ++ evs)
      (.ready
        { hash := tx.hash
          promoted := enteredHashes evs'
          discarded := refusedHashes evs'
          removed := replaced ++ replacedTxs evs' } :: promoted) failed := by
  refine ⟨?_, ?_, ?_⟩
  · intro h
    have hsplit : h ∈ enteredHashes (.entered tx replaced :: evs' ++ evs) ↔
        (h = tx.hash ∨ h ∈ enteredHashes evs') ∨ h ∈ enteredHashes evs := by
      simp [enteredHashes, List.filterMap_append, or_assoc]
    rw [hsplit, hr.entered]
    simp
  · intro h
    have hsplit : h ∈ refusedHashes (.entered tx replaced :: evs' ++ evs) ↔
        h ∈ refusedHashes evs' ∨ h ∈ refusedHashes evs := by
      simp [refusedHashes, List.filterMap_append]
    rw [hsplit, hr.refused]
    simp [or_left_comm]
  · intro x
    have hsplit : x ∈ replacedTxs (.entered tx replaced :: evs' ++ evs) ↔
        x ∈ replaced ++ replacedTxs evs' ∨ x ∈ replacedTxs evs := by
      simp [replacedTxs, List.flatMap_append, or_assoc]
    rw [hsplit, hr.replaced]
    simp

/-- The second loop of `prune_markers`, up to those in `M`. -/
theorem promote_spec (ord : HashOrder) (M : List PendingPoolTransaction) :
    ∀ (imports : List PendingPoolTransaction) (s : PoolInner) (acc : List AddedTransaction)
      (acc' : List TxHash), ConfigInv (s, imports ++ M) →
      ∃ evs s' promoted failed, imports.foldlM (promote ord) (acc, acc', s) =
          .ok (acc ++ promoted, acc' ++ failed, s') ∧
        Cascade ord (s, imports ++ M) evs (s', M) ∧ Reported evs promoted failed := by
  intro imports
  induction imports with
  | nil =>
    intro s acc acc' _
    exact ⟨[], s, [], [], by rw [List.append_nil, List.append_nil]; rfl, .nil, reported_nil⟩
  | cons u rest ih =>
    intro s acc acc' hc
    rcases addReadyTransaction_cases ord hc with
      ⟨o, ho, hfee, hadd⟩ | ⟨evs, s₁, r, p, replaced, -, hadd, hstep, hrun⟩
    · have hstep : CascadeStep ord (s, u :: (rest ++ M)) (.refused u.transaction) (s, rest ++ M) :=
        .refuse ho hfee
      obtain ⟨evs, s', promoted, failed, heq, hrun, hrep⟩ :=
        ih s acc (acc' ++ [u.transaction.hash]) (hc.step hstep.absorb)
      refine ⟨_ :: evs, s', promoted, u.transaction.hash :: failed, ?_, .cons hstep hrun,
        hrep.failed u.transaction⟩
      rw [List.append_assoc, List.singleton_append] at heq
      rw [List.foldlM_cons]
      simp only [promote, hadd]
      exact heq
    · have hc₁ : ConfigInv (s₁, rest ++ M) := (hc.step hstep.absorb).absorb hrun.absorb
      obtain ⟨evs', s', promoted, failed, heq, hrun', hrep⟩ := ih s₁
        (acc ++ [.ready
          { hash := u.transaction.hash
            promoted := enteredHashes evs
            discarded := refusedHashes evs
            removed := replaced ++ replacedTxs evs }]) acc' hc₁
      refine ⟨_, s', _ :: promoted, failed, ?_, (Run.cons hstep hrun).append hrun',
        hrep.added u.transaction replaced⟩
      rw [List.append_assoc, List.singleton_append] at heq
      rw [List.foldlM_cons]
      simp only [promote, hadd]
      exact heq

/-- `prune_markers`: the markers are pruned and checked off one after the other,
and then what was unlocked is promoted. -/
theorem pruneMarkers_spec (hs : PoolInv s) (ms : List TxMarker) :
    ∃ labels imports s₁ evs s' promoted failed,
      s.pruneMarkers ord ms = .ok ({ promoted, failed, pruned := labels.flatMap (·.2) }, s') ∧
      labels.map (·.1) = ms ∧ Run (PruneStep ord) (s, []) labels (s₁, imports) ∧
      Cascade ord (s₁, imports) evs (s', []) ∧ Reported evs promoted failed := by
  obtain ⟨labels, imports, s₁, hfold, hlabels, hphase⟩ :=
    pruneMarker_spec ord ms s [] [] ⟨hs, loose_nil s⟩
  have hc₁ : ConfigInv (s₁, imports) := hphase.keeps ⟨hs, loose_nil s⟩ ConfigInv.pruneStep
  obtain ⟨evs, s', promoted, failed, hprom, hrun, hrep⟩ := promote_spec ord [] imports s₁ [] []
    (by rw [List.append_nil]; exact hc₁)
  rw [List.append_nil] at hrun
  refine ⟨labels, imports, s₁, evs, s', promoted, failed, ?_, hlabels, hphase, hrun, hrep⟩
  simp only [List.nil_append] at hfold hprom
  simp only [pruneMarkers, hfold, hprom]

end BaseAnvil.Pool

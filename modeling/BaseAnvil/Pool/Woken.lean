import BaseAnvil.Pool.Outcome

/-!
# BaseAnvil.Pool.Woken

Which queued transactions a step can bring into the ready half: those that wait for
one of the markers it provides or prunes, those that wait for one of these, and so
on (`Woken`). A property of all of them, stated before the step, is what a
condition on the step can talk about; `Fed` carries it through the cascade.
-/

namespace BaseAnvil.Pool

/-- The queued transactions that the markers `ms` wake, directly or in turn. -/
inductive Woken (p : PendingTransactions) (ms : List TxMarker) : PoolTransaction → Prop
  | direct {h : TxHash} {w : PendingPoolTransaction} {m : TxMarker} :
      p.waitingQueue.lookup h = some w → m ∈ w.transaction.requires → m ∈ ms →
      Woken p ms w.transaction
  | chain {x : PoolTransaction} {h : TxHash} {w : PendingPoolTransaction} :
      Woken p ms x → p.waitingQueue.lookup h = some w → w.transaction.Follows x →
      Woken p ms w.transaction

variable {x : PoolTransaction} {p : PendingTransactions} {ms : List TxMarker}

theorem Woken.queued (hw : Woken p ms x) :
    ∃ h w, p.waitingQueue.lookup h = some w ∧ w.transaction = x := by
  cases hw with
  | direct hq _ _ => exact ⟨_, _, hq, rfl⟩
  | chain _ hq _ => exact ⟨_, _, hq, rfl⟩

theorem not_woken_empty : ¬ Woken PendingTransactions.empty ms x := by
  intro hw
  obtain ⟨h, w, hq, -⟩ := hw.queued
  cases hq

/-- What the marker of `tx` wakes has a later nonce of the same sender. -/
theorem Woken.above (hp : PendingWf p) {tx : PoolTransaction} (hw : Woken p [tx.slot] x) :
    Above tx x := by
  induction hw with
  | @direct h w m hq hreq hm =>
    rw [List.mem_singleton] at hm
    subst hm
    obtain ⟨hs, hn⟩ := (hp.marked h w hq).nonce_of_follows hreq
    exact ⟨hs, by omega⟩
  | @chain x h w _ hq hfol ih => exact ih.of_follows (hp.marked h w hq) hfol

/-- `U` contains whatever waits in `p` for a member of `U`. -/
def WakesWithin (p : PendingTransactions) (U : PoolTransaction → Prop) : Prop :=
  ∀ x h w, U x → p.waitingQueue.lookup h = some w → w.transaction.Follows x → U w.transaction

theorem wakesWithin_woken : WakesWithin p (Woken p ms) :=
  fun _ _ _ hx hw hfol => .chain hx hw hfol

/-- A new transaction, and what it wakes. -/
def Submits (p : PendingTransactions) (tx x : PoolTransaction) : Prop :=
  x = tx ∨ Woken p [tx.slot] x

theorem wakesWithin_submits (tx : PoolTransaction) : WakesWithin p (Submits p tx) := by
  intro x h w hx hw hfol
  rcases hx with rfl | hx
  · exact Or.inr (.direct hw hfol List.mem_cons_self)
  · exact Or.inr (.chain hx hw hfol)

/-- What is loose belongs to `U`, and the queue is what is left of that of `p₀`. -/
structure Fed (p₀ : PendingTransactions) (U : PoolTransaction → Prop) (c : Config) : Prop where
  inv : ConfigInv c
  loose : ∀ u ∈ c.2, U u.transaction
  queue : ∀ h w, c.1.pendingTransactions.waitingQueue.lookup h = some w →
    p₀.waitingQueue.lookup h = some w

namespace Fed

variable {ord : HashOrder} {p₀ : PendingTransactions} {U : PoolTransaction → Prop} {c c' : Config}

theorem step {e : Event} (hf : Fed p₀ U c) (hU : WakesWithin p₀ U) (hs : AbsorbStep ord c e c') :
    Fed p₀ U c' := by
  have hinv := hf.inv.step hs
  cases hs with
  | @enter s L L' rest u r p hperm _ _ hunl hperm' =>
    refine ⟨hinv, fun x hx => ?_, fun h w hw => hf.queue h w (hunl.of_queue hw)⟩
    rcases List.mem_append.mp (hperm'.mem_iff.mp hx) with hx | hx
    · exact hf.loose x (hperm.mem_iff.mpr (List.mem_cons_of_mem _ hx))
    · obtain ⟨w, hw, hmem, rfl⟩ := (mem_unlockedBy hf.inv.pool.pending).mp hx
      exact hU _ _ w (hf.loose u (hperm.mem_iff.mpr List.mem_cons_self)) (hf.queue _ w hw) hmem
  | @refuse s L L' rest u o hperm _ _ hperm' =>
    refine ⟨hinv, fun x hx => ?_, hf.queue⟩
    exact hf.loose x (hperm.mem_iff.mpr (List.mem_cons_of_mem _ (hperm'.mem_iff.mp hx)))

theorem pruneStep {l : TxMarker × List PoolTransaction} (hf : Fed p₀ U c)
    (hU : ∀ h w, p₀.waitingQueue.lookup h = some w → l.1 ∈ w.transaction.requires → U w.transaction)
    (hs : PruneStep ord c l c') : Fed p₀ U c' := by
  have hinv := hf.inv.pruneStep hs
  cases hs with
  | mk hunl _ _ =>
    refine ⟨hinv, fun x hx => ?_, fun h w hw => hf.queue h w (hunl.of_queue hw)⟩
    rcases List.mem_append.mp hx with hx | hx
    · exact hf.loose x hx
    · obtain ⟨w, hw, hmem, rfl⟩ := (mem_unlockedBy hf.inv.pool.pending).mp hx
      exact hU _ w (hf.queue _ w hw) hmem

end Fed

/-- The start of the cascade of a new transaction. -/
theorem fed_incoming {s : PoolInner} (hs : PoolInv s) {tx : PoolTransaction} (hm : NonceMarked tx)
    (hc : s.contains tx.hash = false)
    (hreq : ∀ m ∈ tx.requires, m ∈ s.readyTransactions.providedMarkers) :
    Fed s.pendingTransactions (Submits s.pendingTransactions tx) (s, [s.incoming tx]) := by
  refine ⟨configInv_incoming hs hm hc (isReady_incoming hreq), ?_, fun _ _ hw => hw⟩
  intro u hu
  rw [List.mem_singleton] at hu
  subst hu
  exact Or.inl rfl

/-- The start of a prune. -/
theorem fed_nil {s : PoolInner} (hs : PoolInv s) (U : PoolTransaction → Prop) :
    Fed s.pendingTransactions U (s, []) :=
  ⟨⟨hs, loose_nil s⟩, fun _ hu => absurd hu List.not_mem_nil, fun _ _ hw => hw⟩

end BaseAnvil.Pool

import BaseAnvil.Pool.Inner

/-!
# BaseAnvil.Pool.Exec

Operations of the pool run one after the other, as a function. With a concrete
order of the hash sets this computes, so a history can be evaluated and its last
state looked at; `execAll_sound` turns the result into a run.
-/

namespace BaseAnvil.Pool

open Lib PoolInner

instance (tx : PoolTransaction) : Decidable (NonceMarked tx) :=
  decidable_of_iff
    (tx.provides = [toMarker tx.nonce tx.sender] ∧
      (tx.requires = [] ∨ (tx.nonce ≠ 0 ∧ tx.requires = [toMarker (tx.nonce - 1) tx.sender])))
    ⟨fun h => ⟨h.1, h.2⟩, fun h => ⟨h.provides, h.requires⟩⟩

/-- What is submitted is built by the RPC layer. -/
def PoolOp.marked : PoolOp → Bool
  | .addTransaction tx => decide (NonceMarked tx)
  | _ => true

namespace PoolInner

/-- The pool after one operation, if it returns. -/
def exec (ord : HashOrder) (fuel : Nat) (s : PoolInner) : PoolOp → Option PoolInner
  | .addTransaction tx => (s.addTransaction ord tx).toOption.map (·.2)
  | .pruneMarkers markers => (s.pruneMarkers ord markers).toOption.map (·.2)
  | .removeInvalid txHashes => some (s.removeInvalid ord txHashes).2
  | .removeTransactionsByAddress sender =>
    (s.removeTransactionsByAddress ord fuel sender).map (·.2)
  | .dropTransaction tx => some (s.dropTransaction tx).2
  | .clear => some s.clear

/-- The pool after a sequence of operations. -/
def execAll (ord : HashOrder) (fuel : Nat) (s : PoolInner) (ops : List PoolOp) :
    Option PoolInner :=
  ops.foldlM (exec ord fuel) s

theorem ok_of_toOption {α : Type} {e : Except Panic α} {a : α} (h : e.toOption = some a) :
    e = .ok a := by
  cases e with
  | error _ => cases h
  | ok b =>
    cases h
    rfl

theorem exec_sound {ord : HashOrder} {fuel : Nat} {s s' : PoolInner} {op : PoolOp}
    (hm : op.marked = true) (h : s.exec ord fuel op = some s') : PoolStep s op s' := by
  cases op with
  | addTransaction tx =>
    obtain ⟨⟨res, s₁⟩, hok, rfl⟩ := Option.map_eq_some_iff.mp h
    exact .addTransaction (of_decide_eq_true hm) (ok_of_toOption hok)
  | pruneMarkers markers =>
    obtain ⟨⟨res, s₁⟩, hok, rfl⟩ := Option.map_eq_some_iff.mp h
    exact .pruneMarkers (ok_of_toOption hok)
  | removeInvalid txHashes =>
    cases h
    exact .removeInvalid
  | removeTransactionsByAddress sender =>
    obtain ⟨⟨removed, s₁⟩, hok, rfl⟩ := Option.map_eq_some_iff.mp h
    exact .removeTransactionsByAddress hok
  | dropTransaction tx =>
    cases h
    exact .dropTransaction
  | clear =>
    cases h
    exact .clear

theorem execAll_sound {ord : HashOrder} {fuel : Nat} {ops done : List PoolOp} {s s' : PoolInner}
    (hm : ops.all PoolOp.marked = true) (hrun : PoolRun done s)
    (h : s.execAll ord fuel ops = some s') : PoolRun (done ++ ops) s' := by
  induction ops generalizing done s with
  | nil =>
    cases h
    rw [List.append_nil]
    exact hrun
  | cons op rest ih =>
    rw [List.all_cons, Bool.and_eq_true] at hm
    rw [execAll, List.foldlM_cons] at h
    obtain ⟨s₁, hone, hrest⟩ := Option.bind_eq_some_iff.mp h
    rw [List.append_cons]
    exact ih hm.2 (.snoc hrun (exec_sound hm.1 hone)) hrest

/-- A history, executed from the empty pool, and a property of its last state. -/
theorem run_of_execAll (ord : HashOrder) (fuel : Nat) (ops : List PoolOp) (P : PoolInner → Prop)
    [∀ s, Decidable (P s)] (hm : ops.all PoolOp.marked = true)
    (h : ((empty.execAll ord fuel ops).map fun s => decide (P s)) = some true) :
    ∃ s, PoolRun ops s ∧ P s := by
  obtain ⟨s, hs, hP⟩ := exists_of_map_decide h
  exact ⟨s, execAll_sound hm .nil hs, hP⟩

end PoolInner

/-! ### A concrete order -/

/-- Hash sets walked by increasing hash and by increasing bytes of the marker. -/
def ascendingOrder : HashOrder where
  hashes := .sortedBy BitVec.toNat fun _ _ => BitVec.eq_of_toNat_eq
  markers := .sortedBy (List.map UInt8.toNat) map_toNat_injective

/-- A transaction of the account `1` as the RPC layer builds it, with `onChain`
the account's nonce at that time. -/
def sampleTx (hash : TxHash) (nonce onChain : UInt64) (fee : Nat) : PoolTransaction :=
  poolTransaction .fees onChain ⟨hash, 1, nonce, fee⟩

/-- Nonce 0 goes in, then nonce 1, which is linked to it. -/
def pairOps : List PoolOp :=
  [.addTransaction (sampleTx 1 0 0 10), .addTransaction (sampleTx 2 1 0 10)]

/-- The states of that history, as far as later examples look at them. -/
theorem pair_steps :
    ∃ s₁ s, PoolStep .empty (.addTransaction (sampleTx 1 0 0 10)) s₁ ∧
      PoolStep s₁ (.addTransaction (sampleTx 2 1 0 10)) s ∧
      s₁.pendingTransactions = .empty ∧
      s₁.readyTransactions.providedMarkers.lookup (sampleTx 2 1 0 10).slot = none ∧
      s₁.readyTransactions.readyTx = Finmap.singleton 1 ⟨⟨sampleTx 1 0 0 10, 0⟩, [], 0⟩ ∧
      (s.readyTransactions.readyTx.lookup 1).map (·.unlocks) = some [2] := by
  obtain ⟨s₁, hs₁, hP⟩ := Option.map_eq_some_iff.mp
    (show (empty.exec ascendingOrder 0 (.addTransaction (sampleTx 1 0 0 10))).map
      (fun s => decide (s.pendingTransactions = .empty ∧
        s.readyTransactions.providedMarkers.lookup (sampleTx 2 1 0 10).slot = none ∧
        s.readyTransactions.readyTx = Finmap.singleton 1 ⟨⟨sampleTx 1 0 0 10, 0⟩, [], 0⟩ ∧
        ((s.exec ascendingOrder 0 (.addTransaction (sampleTx 2 1 0 10))).map fun s' =>
          (s'.readyTransactions.readyTx.lookup 1).map (·.unlocks)) = some (some [2])))
      = some true by decide +kernel)
  obtain ⟨hpend, hslot, hready, hnext⟩ := of_decide_eq_true hP
  obtain ⟨s, hs, hlook⟩ := Option.map_eq_some_iff.mp hnext
  exact ⟨s₁, s, exec_sound (by decide +kernel) hs₁,
    exec_sound (by decide +kernel) hs, hpend, hslot, hready, hlook⟩

end BaseAnvil.Pool

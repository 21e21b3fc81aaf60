import BaseAnvil.Lib.Run
import BaseAnvil.Pool.Ready

/-!
# BaseAnvil.Pool.Inner

The pool (`eth/pool/mod.rs`): the two halves together, the operations on them,
and the transition system whose runs are sequences of operations.
-/

namespace BaseAnvil.Pool

open Lib PendingTransactions HashMap

/-- What became of a transaction that went into the ready queue
(`ReadyTransaction` of `pool/mod.rs`). -/
structure AddedReady where
  /-- The hash of the submitted transaction. -/
  hash : TxHash
  /-- Transactions promoted to the ready queue. -/
  promoted : List TxHash
  /-- Transactions that failed and became discarded. -/
  discarded : List TxHash
  /-- Transactions removed from the ready pool. -/
  removed : List PoolTransaction
  deriving Repr, DecidableEq

def AddedReady.new (hash : TxHash) : AddedReady := ⟨hash, [], [], []⟩

inductive AddedTransaction
  /-- Successfully added and being processed. -/
  | ready (r : AddedReady)
  /-- Successfully added but not yet queued for processing. -/
  | pending (hash : TxHash)
  deriving Repr, DecidableEq

/-- Represents the outcome of a prune. -/
structure PruneResult where
  /-- Added transactions that a pruned marker satisfied. -/
  promoted : List AddedTransaction
  /-- All transactions that failed to be promoted and now are discarded. -/
  failed : List TxHash
  /-- All transactions that were pruned from the ready pool. -/
  pruned : List PoolTransaction
  deriving Repr, DecidableEq

/-- Contains all transactions that are ready to be executed, and those waiting. -/
structure PoolInner where
  readyTransactions : ReadyTransactions
  pendingTransactions : PendingTransactions

namespace PoolInner

/-- `Default::default()`. -/
def empty : PoolInner := ⟨.empty, .empty⟩

def clear (s : PoolInner) : PoolInner :=
  ⟨s.readyTransactions.clear, s.pendingTransactions.clear⟩

/-- Does this pool already contain the transaction? -/
def contains (s : PoolInner) (txHash : TxHash) : Bool :=
  s.pendingTransactions.contains txHash || s.readyTransactions.contains txHash

/-! ### Insertion -/

section

variable {st st' : List PendingPoolTransaction × PendingTransactions}

theorem length_unlock_le {mark : TxMarker} {hash : TxHash}
    (h : unlock mark st hash = .ok st') :
    st'.1.length + sumBy (fun _ => 1) st'.2.waitingQueue ≤
      st.1.length + sumBy (fun _ => 1) st.2.waitingQueue := by
  unfold unlock at h
  split at h
  · cases h
  · rename_i tx hlook
    dsimp only at h
    split at h
    · cases h
      have := sumBy_erase (fun _ : PendingPoolTransaction => 1) hlook
      simp only [List.length_append, List.length_singleton]
      omega
    · cases h
      have := sumBy_insert (fun _ : PendingPoolTransaction => 1) (tx.mark mark) hlook
      dsimp only
      omega

theorem length_foldlM_unlock_le {mark : TxMarker} {hashes : List TxHash}
    (h : hashes.foldlM (unlock mark) st = .ok st') :
    st'.1.length + sumBy (fun _ => 1) st'.2.waitingQueue ≤
      st.1.length + sumBy (fun _ => 1) st.2.waitingQueue := by
  induction hashes generalizing st with
  | nil =>
    cases h
    exact Nat.le_refl _
  | cons hash rest ih =>
    rw [List.foldlM_cons] at h
    cases hone : unlock mark st hash with
    | error e =>
      rw [hone] at h
      cases h
    | ok st₁ =>
      rw [hone] at h
      exact Nat.le_trans (ih h) (length_unlock_le hone)

/-- A transaction that is unlocked has left the queue. -/
theorem length_markAndUnlock_le {ord : HashOrder} {markers : List TxMarker}
    (h : markers.foldlM (markOne ord) st = .ok st') :
    st'.1.length + sumBy (fun _ => 1) st'.2.waitingQueue ≤
      st.1.length + sumBy (fun _ => 1) st.2.waitingQueue := by
  induction markers generalizing st with
  | nil =>
    cases h
    exact Nat.le_refl _
  | cons mark rest ih =>
    rw [List.foldlM_cons] at h
    cases hone : markOne ord st mark with
    | error e =>
      rw [hone] at h
      cases h
    | ok st₁ =>
      rw [hone] at h
      refine Nat.le_trans (ih h) ?_
      unfold markOne at hone
      split at hone
      · cases hone
        exact Nat.le_refl _
      · have hle := length_foldlM_unlock_le hone
        exact hle

end

/-- The loop of `add_ready_transaction`: take the first transaction of the queue,
append what it unlocks, and try to add it to the ready pool. `isNewTx` holds in
the first round only. -/
def addReadyLoop (ord : HashOrder) (s : PoolInner) (txQueue : List PendingPoolTransaction)
    (isNewTx : Bool) (ready : AddedReady) :
    Except Panic (Except PoolError AddedReady × PoolInner) :=
  match txQueue with
  | [] => .ok (.ok ready, s)
  | currentTx :: rest =>
    -- also add the transactions that the current transaction unlocks
    match _h : s.pendingTransactions.markAndUnlock ord currentTx.transaction.provides with
    | .error e => .error e
    | .ok (unlocked, pending) =>
      let currentHash := currentTx.transaction.hash
      -- try to add the transaction to the ready pool
      match s.readyTransactions.addTransaction ord currentTx with
      | .error e => .error e
      | .ok (.ok replacedTransactions, r) =>
        addReadyLoop ord ⟨r, pending⟩ (rest ++ unlocked) false
          { ready with
            promoted := if isNewTx then ready.promoted else ready.promoted ++ [currentHash]
            removed := ready.removed ++ replacedTransactions }
      | .ok (.error err, r) =>
        -- failed to add transaction
        if isNewTx then .ok (.error err, ⟨r, pending⟩)
        else
          addReadyLoop ord ⟨r, pending⟩ (rest ++ unlocked) false
            { ready with discarded := ready.discarded ++ [currentHash] }
  termination_by txQueue.length + HashMap.sumBy (fun _ => 1) s.pendingTransactions.waitingQueue
  decreasing_by
    all_goals
      have hle := length_markAndUnlock_le _h
      simp only [List.length_append, List.length_cons, List.length_nil] at hle ⊢
      omega

/-- Adds the transaction to the ready queue. -/
def addReadyTransaction (ord : HashOrder) (s : PoolInner) (tx : PendingPoolTransaction) :
    Except Panic (Except PoolError AddedTransaction × PoolInner) :=
  let hash := tx.transaction.hash
  match s.addReadyLoop ord [tx] true (.new hash) with
  | .error e => .error e
  | .ok (.error err, s) => .ok (.error err, s)
  | .ok (.ok ready, s) =>
    -- check for a cycle where importing a transaction resulted in pending transactions to be
    -- added while removing current transaction
    if ready.removed.any (fun tx => tx.hash = hash) then
      .ok (.error .cyclicTransaction,
        { s with readyTransactions := (s.readyTransactions.clearTransactions ready.promoted).2 })
    else .ok (.ok (.ready ready), s)

/-- Adds a new transaction to the pool. -/
def addTransaction (ord : HashOrder) (s : PoolInner) (tx : PoolTransaction) :
    Except Panic (Except PoolError AddedTransaction × PoolInner) :=
  if s.contains tx.hash then .ok (.error (.alreadyImported tx), s)
  else
    let tx := PendingPoolTransaction.new tx s.readyTransactions.providedMarkers
    -- if all markers are not satisfied import to future
    if ¬ tx.isReady then
      match s.pendingTransactions.addTransaction ord tx with
      | .error e => .error e
      | .ok (.error err, pending) => .ok (.error err, { s with pendingTransactions := pending })
      | .ok (.ok (), pending) =>
        .ok (.ok (.pending tx.transaction.hash), { s with pendingTransactions := pending })
    else s.addReadyTransaction ord tx

/-! ### Pruning -/

/-- One round of the first loop of `prune_markers`: mark as satisfied and store
the transactions that got unlocked, then prune. -/
def pruneMarker (ord : HashOrder)
    (st : List PendingPoolTransaction × List PoolTransaction × PoolInner) (marker : TxMarker) :
    Except Panic (List PendingPoolTransaction × List PoolTransaction × PoolInner) :=
  match st.2.2.pendingTransactions.markAndUnlock ord [marker] with
  | .error e => .error e
  | .ok (unlocked, pending) =>
    match st.2.2.readyTransactions.pruneTags marker with
    | .error e => .error e
    | .ok (pruned, r) => .ok (st.1 ++ unlocked, st.2.1 ++ pruned, ⟨r, pending⟩)

/-- One round of the second loop of `prune_markers`: promote one transaction. -/
def promote (ord : HashOrder) (st : List AddedTransaction × List TxHash × PoolInner)
    (tx : PendingPoolTransaction) :
    Except Panic (List AddedTransaction × List TxHash × PoolInner) :=
  match st.2.2.addReadyTransaction ord tx with
  | .error e => .error e
  | .ok (.ok res, s) => .ok (st.1 ++ [res], st.2.1, s)
  | .ok (.error _, s) => .ok (st.1, st.2.1 ++ [tx.transaction.hash], s)

/-- Prunes the transactions that provide the given markers. Transactions from the
pending queue might get promoted if the markers unlock them. -/
def pruneMarkers (ord : HashOrder) (s : PoolInner) (markers : List TxMarker) :
    Except Panic (PruneResult × PoolInner) :=
  match markers.foldlM (pruneMarker ord) ([], [], s) with
  | .error e => .error e
  | .ok (imports, pruned, s) =>
    match imports.foldlM (promote ord) ([], [], s) with
    | .error e => .error e
    | .ok (promoted, failed, s) => .ok ({ promoted, failed, pruned }, s)

/-! ### Removal -/

/-- Remove the given transactions from the pool. -/
def removeInvalid (ord : HashOrder) (s : PoolInner) (txHashes : List TxHash) :
    List PoolTransaction × PoolInner :=
  -- early exit in case there are no invalid transactions
  if txHashes.isEmpty then ([], s)
  else
    let ready := s.readyTransactions.removeWithMarkers txHashes none
    let pending := s.pendingTransactions.remove ord txHashes
    (ready.1 ++ pending.1, ⟨ready.2, pending.2⟩)

/-- All transactions in the pool filtered by the sender; `fuel` bounds the walk
over the ready transactions. -/
def transactionsBySender (ord : HashOrder) (fuel : Nat) (s : PoolInner) (sender : Address) :
    Option (List PoolTransaction) :=
  (s.readyTransactions.getTransactions.collect fuel).map fun ready =>
    (s.pendingTransactions.transactions ord).filter (·.sender = sender) ++
      ready.filter (·.sender = sender)

/-- Remove transactions by sender address. -/
def removeTransactionsByAddress (ord : HashOrder) (fuel : Nat) (s : PoolInner) (sender : Address) :
    Option (List PoolTransaction × PoolInner) :=
  (s.transactionsBySender ord fuel sender).map fun txs =>
    s.removeInvalid ord (txs.map (·.hash))

/-- `Pool::drop_transaction`: removes a single transaction from the pool. -/
def dropTransaction (s : PoolInner) (tx : TxHash) : Option PoolTransaction × PoolInner :=
  let removed := s.readyTransactions.removeWithMarkers [tx] none
  (removed.1.find? (fun t => t.hash = tx), { s with readyTransactions := removed.2 })

/-! ### Runs -/

end PoolInner

/-- The operations of the pool. -/
inductive PoolOp
  | addTransaction (tx : PoolTransaction)
  | pruneMarkers (markers : List TxMarker)
  | removeInvalid (txHashes : List TxHash)
  | removeTransactionsByAddress (sender : Address)
  | dropTransaction (tx : TxHash)
  | clear

/-- One operation, returning normally, for some order of the hash sets it walks. -/
inductive PoolStep (s : PoolInner) : PoolOp → PoolInner → Prop
  | addTransaction {ord : HashOrder} {tx : PoolTransaction}
      {res : Except PoolError AddedTransaction} {s' : PoolInner} :
      NonceMarked tx → s.addTransaction ord tx = .ok (res, s') → PoolStep s (.addTransaction tx) s'
  | pruneMarkers {ord : HashOrder} {markers : List TxMarker} {res : PruneResult} {s' : PoolInner} :
      s.pruneMarkers ord markers = .ok (res, s') → PoolStep s (.pruneMarkers markers) s'
  | removeInvalid {ord : HashOrder} {txHashes : List TxHash} :
      PoolStep s (.removeInvalid txHashes) (s.removeInvalid ord txHashes).2
  | removeTransactionsByAddress {ord : HashOrder} {fuel : Nat} {sender : Address}
      {removed : List PoolTransaction} {s' : PoolInner} :
      s.removeTransactionsByAddress ord fuel sender = some (removed, s') →
      PoolStep s (.removeTransactionsByAddress sender) s'
  | dropTransaction {tx : TxHash} : PoolStep s (.dropTransaction tx) (s.dropTransaction tx).2
  | clear : PoolStep s .clear s.clear

/-- The transactions a run submits, in order. -/
def submitted (ops : List PoolOp) : List PoolTransaction :=
  ops.filterMap fun
    | .addTransaction tx => some tx
    | _ => none

/-- The pools a sequence of operations leads to, starting from the empty pool. -/
abbrev PoolRun (ops : List PoolOp) (s : PoolInner) : Prop := Run PoolStep PoolInner.empty ops s

end BaseAnvil.Pool

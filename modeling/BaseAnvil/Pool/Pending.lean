import BaseAnvil.Pool.Transaction

/-!
# BaseAnvil.Pool.Pending

The waiting half of the pool (`PendingTransactions`): transactions that are
pending, but not yet ready to be included in a new block, and the markers each
of them still misses.

Methods that mutate return the new value next to their result. Where the source
asserts or unwraps, the model returns a `Panic`, so a theorem that rules panics
out is a theorem about the source's assertions.
-/

namespace BaseAnvil.Pool

open Lib

/-- The order in which the pool's hash sets are walked. -/
structure HashOrder where
  hashes : IterOrder TxHash
  markers : IterOrder TxMarker

/-- A transaction together with the markers it still misses. -/
structure PendingPoolTransaction where
  transaction : PoolTransaction
  /-- Markers required and not satisfied yet by other transactions in the pool. -/
  missingMarkers : Finset TxMarker
  deriving DecidableEq

namespace PendingPoolTransaction

/-- Determines the markers that are still missing before this transaction can be
moved to the ready queue. -/
def new (transaction : PoolTransaction) (provided : HashMap TxMarker TxHash) :
    PendingPoolTransaction where
  transaction := transaction
  missingMarkers := (transaction.requires.filter fun marker => marker ∉ provided).toFinset

/-- Removes the required marker. -/
def mark (tx : PendingPoolTransaction) (marker : TxMarker) : PendingPoolTransaction :=
  { tx with missingMarkers := tx.missingMarkers.erase marker }

/-- Has the transaction all requirements satisfied? -/
def isReady (tx : PendingPoolTransaction) : Bool := tx.missingMarkers = ∅

@[simp] theorem mark_transaction (tx : PendingPoolTransaction) (marker : TxMarker) :
    (tx.mark marker).transaction = tx.transaction := rfl

theorem isReady_iff {tx : PendingPoolTransaction} : tx.isReady = true ↔ tx.missingMarkers = ∅ := by
  simp [isReady]

end PendingPoolTransaction

/-- A waiting pool of transactions. -/
structure PendingTransactions where
  /-- Markers that aren't yet provided by any transaction. -/
  requiredMarkers : HashMap TxMarker (Finset TxHash)
  /-- Mapping of the markers of a transaction to the hash of the transaction. -/
  waitingMarkers : HashMap (List TxMarker) TxHash
  /-- The transactions that are not ready yet and wait for another transaction. -/
  waitingQueue : HashMap TxHash PendingPoolTransaction
  deriving DecidableEq

namespace PendingTransactions

/-- `Default::default()`. -/
def empty : PendingTransactions := ⟨∅, ∅, ∅⟩

/-- Clears internal state. -/
def clear (_ : PendingTransactions) : PendingTransactions := ⟨∅, ∅, ∅⟩

/-- All transactions in the waiting pool. -/
def transactions (ord : HashOrder) (p : PendingTransactions) : List PoolTransaction :=
  (ord.hashes.toList p.waitingQueue.keys).filterMap fun hash =>
    (p.waitingQueue.lookup hash).map (·.transaction)

/-- Is the transaction part of the queue? -/
def contains (p : PendingTransactions) (hash : TxHash) : Bool := hash ∈ p.waitingQueue

/-- The queued transaction a new one would replace, looked up by what it provides. -/
def replaces (p : PendingTransactions) (tx : PendingPoolTransaction) :
    Option PendingPoolTransaction :=
  (p.waitingMarkers.lookup tx.transaction.provides).bind fun hash => p.waitingQueue.lookup hash

/-- Record that `hash` waits for `marker`. -/
def require (hash : TxHash) (required : HashMap TxMarker (Finset TxHash)) (marker : TxMarker) :
    HashMap TxMarker (Finset TxHash) :=
  required.insert marker (insert hash ((required.lookup marker).getD ∅))

/-- Adds a transaction to the queue. -/
def addTransaction (ord : HashOrder) (p : PendingTransactions) (tx : PendingPoolTransaction) :
    Except Panic (Except PoolError Unit × PendingTransactions) :=
  let hash := tx.transaction.hash
  if tx.isReady then .error .mustNotBeReady
  else if hash ∈ p.waitingQueue then .error .alreadyAdded
  else
    -- check if underpriced
    let underpriced := match p.replaces tx with
      | some replace => decide (tx.transaction.maxFeePerGas < replace.transaction.maxFeePerGas)
      | none => false
    if underpriced then .ok (.error (.replacementUnderpriced tx.transaction), p)
    else
      .ok (.ok (),
        { -- add all missing markers
          requiredMarkers :=
            (ord.markers.toList tx.missingMarkers).foldl (require hash) p.requiredMarkers
          -- also track identifying markers
          waitingMarkers := p.waitingMarkers.insert tx.transaction.provides hash
          -- add tx to the queue
          waitingQueue := p.waitingQueue.insert hash tx })

/-- Check `mark` off the queued transaction `hash`; the transaction leaves the
queue when nothing else is missing. -/
def unlock (mark : TxMarker) (st : List PendingPoolTransaction × PendingTransactions)
    (hash : TxHash) : Except Panic (List PendingPoolTransaction × PendingTransactions) :=
  match st.2.waitingQueue.lookup hash with
  | none => .error .txIncluded
  | some tx =>
    let tx := tx.mark mark
    if tx.isReady then
      .ok (st.1 ++ [tx],
        { st.2 with
          waitingQueue := st.2.waitingQueue.erase hash
          waitingMarkers := st.2.waitingMarkers.erase tx.transaction.provides })
    else .ok (st.1, { st.2 with waitingQueue := st.2.waitingQueue.insert hash tx })

/-- Check off one marker. -/
def markOne (ord : HashOrder) (st : List PendingPoolTransaction × PendingTransactions)
    (mark : TxMarker) : Except Panic (List PendingPoolTransaction × PendingTransactions) :=
  match st.2.requiredMarkers.lookup mark with
  | none => .ok st
  | some txHashes =>
    (ord.hashes.toList txHashes).foldlM (unlock mark)
      (st.1, { st.2 with requiredMarkers := st.2.requiredMarkers.erase mark })

/-- Checks off the markers of pending transactions. Returns those transactions
that become unlocked (all markers checked) and can be moved to the ready queue. -/
def markAndUnlock (ord : HashOrder) (p : PendingTransactions) (markers : List TxMarker) :
    Except Panic (List PendingPoolTransaction × PendingTransactions) :=
  markers.foldlM (markOne ord) ([], p)

/-- `hash` no longer waits for `marker`; a marker nobody waits for is dropped. -/
def unrequire (hash : TxHash) (required : HashMap TxMarker (Finset TxHash)) (marker : TxMarker) :
    HashMap TxMarker (Finset TxHash) :=
  match required.lookup marker with
  | none => required
  | some hashes =>
    if hashes.erase hash = ∅ then required.erase marker
    else required.insert marker (hashes.erase hash)

/-- Remove one transaction by hash. -/
def removeOne (ord : HashOrder) (st : List PoolTransaction × PendingTransactions)
    (hash : TxHash) : List PoolTransaction × PendingTransactions :=
  match st.2.waitingQueue.lookup hash with
  | none => st
  | some waitingTx =>
    (st.1 ++ [waitingTx.transaction],
      { waitingQueue := st.2.waitingQueue.erase hash
        waitingMarkers := st.2.waitingMarkers.erase waitingTx.transaction.provides
        requiredMarkers := (ord.markers.toList waitingTx.missingMarkers).foldl
          (unrequire hash) st.2.requiredMarkers })

/-- Removes the transactions associated with the given hashes. Returns all
removed transactions. -/
def remove (ord : HashOrder) (p : PendingTransactions) (hashes : List TxHash) :
    List PoolTransaction × PendingTransactions :=
  hashes.foldl (removeOne ord) ([], p)

end PendingTransactions

end BaseAnvil.Pool

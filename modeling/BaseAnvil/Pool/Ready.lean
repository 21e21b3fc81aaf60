import BaseAnvil.Pool.Pending

/-!
# BaseAnvil.Pool.Ready

The ready half of the pool (`ReadyTransactions`): transactions that can be
included in a block, linked by `unlocks` to the ready transactions that wait for
them, and the iterator that hands them out.

The worklists of the source are stacks popped at the end. Here the top of a
stack is the head of the list, so `append` pushes its argument reversed. The
loops terminate on any input; the measures are the `unlocks` left to follow
(`removeWithMarkers`) and the markers left to prune (`pruneTags`).
-/

namespace BaseAnvil.Pool

open Lib HashMap

/-- A reference to a transaction in the pool. -/
structure PoolTransactionRef where
  transaction : PoolTransaction
  /-- Identifier used to internally compare the transaction in the pool. -/
  id : UInt64
  deriving Repr, DecidableEq

namespace PoolTransactionRef

/-- By priority, and among equals the smaller id is the greater. -/
def cmp (a b : PoolTransactionRef) : Ordering :=
  (compare a.transaction.priority b.transaction.priority).then (compare b.id.toNat a.id.toNat)

section

variable {a b : PoolTransactionRef}

theorem cmp_eq_lt :
    cmp a b = .lt ↔ a.transaction.priority < b.transaction.priority ∨
      (a.transaction.priority = b.transaction.priority ∧ b.id.toNat < a.id.toNat) := by
  unfold cmp
  rw [Ordering.then_eq_lt, Nat.compare_eq_lt, Nat.compare_eq_eq, Nat.compare_eq_lt]

theorem cmp_eq_eq :
    cmp a b = .eq ↔ a.transaction.priority = b.transaction.priority ∧ a.id = b.id := by
  unfold cmp
  rw [Ordering.then_eq_eq, Nat.compare_eq_eq, Nat.compare_eq_eq, UInt64.toNat_inj]
  exact and_congr_right fun _ => eq_comm

theorem cmp_eq_gt : cmp a b = .gt ↔ cmp b a = .lt := by
  unfold cmp
  rw [Ordering.then_eq_gt, Ordering.then_eq_lt, Nat.compare_eq_gt, Nat.compare_eq_eq,
    Nat.compare_eq_gt, Nat.compare_eq_lt, Nat.compare_eq_eq, Nat.compare_eq_lt]
  exact or_congr_right (and_congr_left fun _ => eq_comm)

end

instance : Std.TransCmp cmp where
  eq_swap := by
    intro a b
    cases h : cmp b a with
    | lt => exact cmp_eq_gt.mpr h
    | gt => exact cmp_eq_gt.mp h
    | eq =>
      obtain ⟨hp, hi⟩ := cmp_eq_eq.mp h
      exact cmp_eq_eq.mpr ⟨hp.symm, hi.symm⟩
  isLE_trans := by
    intro a b c hab hbc
    simp only [Ordering.isLE_iff_eq_lt_or_eq_eq, cmp_eq_lt, cmp_eq_eq, ← UInt64.toNat_inj] at *
    omega

end PoolTransactionRef

/-- A transaction in the ready queue. -/
structure ReadyTransaction where
  /-- Ref to the actual transaction. -/
  transaction : PoolTransactionRef
  /-- Tracks the transactions that get unlocked by this transaction. -/
  unlocks : List TxHash
  /-- Amount of required markers that are inherently provided. -/
  requiresOffset : Nat
  deriving Repr, DecidableEq

namespace ReadyTransaction

/-- The pool transaction behind the reference. -/
def tx (t : ReadyTransaction) : PoolTransaction := t.transaction.transaction

def provides (t : ReadyTransaction) : List TxMarker := t.tx.provides
def maxFeePerGas (t : ReadyTransaction) : Nat := t.tx.maxFeePerGas

end ReadyTransaction

/-- Transactions that are ready to be included in a block. -/
structure ReadyTransactions where
  /-- Counts the transactions inserted into the pool. -/
  id : UInt64
  /-- Markers that are provided by `ReadyTransaction`s. -/
  providedMarkers : HashMap TxMarker TxHash
  /-- Transactions that are ready. -/
  readyTx : HashMap TxHash ReadyTransaction
  /-- Independent transactions that can be included directly and don't require
  other transactions. -/
  independentTransactions : BTreeSet PoolTransactionRef PoolTransactionRef.cmp

namespace ReadyTransactions

/-- `Default::default()`. -/
def empty : ReadyTransactions := ⟨0, ∅, ∅, .empty⟩

/-- Clears the internal state. The counter keeps its value. -/
def clear (r : ReadyTransactions) : ReadyTransactions :=
  { r with providedMarkers := ∅, readyTx := ∅, independentTransactions := .empty }

/-- Is the transaction part of the queue? -/
def contains (r : ReadyTransactions) (hash : TxHash) : Bool := hash ∈ r.readyTx

/-! ### Removal -/

/-- The loop under `remove from unlocks` in `remove_with_markers`: `hash` is
rebound to the hash the marker is provided by, so it is the provider's own hash
that is looked for in the provider's `unlocks`. -/
def unlinkOwn (provided : HashMap TxMarker TxHash) (ready : HashMap TxHash ReadyTransaction)
    (mark : TxMarker) : HashMap TxHash ReadyTransaction :=
  match provided.lookup mark with
  | none => ready
  | some hash =>
    match ready.lookup hash with
    | none => ready
    | some tx => ready.insert hash { tx with unlocks := swapRemoveItem tx.unlocks hash }

/-- The markers of `tx` the filter does not spare. -/
def invalidated (markerFilter : Option (Finset TxMarker)) (tx : PoolTransaction) : List TxMarker :=
  tx.provides.filter fun mark =>
    match markerFilter with
    | some filter => decide (mark ∉ filter)
    | none => true

/-- Take `tx`, stored under `hash`, out of the ready queue. -/
def removeReady (markerFilter : Option (Finset TxMarker)) (r : ReadyTransactions) (hash : TxHash)
    (tx : ReadyTransaction) : ReadyTransactions :=
  -- remove entries from provided_markers
  let provided := (invalidated markerFilter tx.tx).foldl (fun m mark => m.erase mark)
    r.providedMarkers
  { r with
    providedMarkers := provided
    -- remove from unlocks
    readyTx := tx.tx.requires.foldl (unlinkOwn provided) (r.readyTx.erase hash)
    -- remove from the independent set
    independentTransactions := r.independentTransactions.remove tx.transaction }

/-- Number of `unlocks` entries still to follow. -/
def unlockCount (ready : HashMap TxHash ReadyTransaction) : Nat :=
  HashMap.sumBy (fun t => t.unlocks.length) ready

theorem unlockCount_unlinkOwn_le (provided : HashMap TxMarker TxHash)
    (ready : HashMap TxHash ReadyTransaction) (mark : TxMarker) :
    unlockCount (unlinkOwn provided ready mark) ≤ unlockCount ready := by
  unfold unlinkOwn
  cases provided.lookup mark with
  | none => exact Nat.le_refl _
  | some hash =>
    dsimp only
    cases h : ready.lookup hash with
    | none => exact Nat.le_refl _
    | some tx =>
      have hsum := sumBy_insert (fun t : ReadyTransaction => t.unlocks.length)
        { tx with unlocks := swapRemoveItem tx.unlocks hash } h
      have hlen := length_swapRemoveItem_le tx.unlocks hash
      simp only [unlockCount] at hsum ⊢
      omega

theorem unlockCount_foldl_unlinkOwn_le (provided : HashMap TxMarker TxHash) (marks : List TxMarker)
    (ready : HashMap TxHash ReadyTransaction) :
    unlockCount (marks.foldl (unlinkOwn provided) ready) ≤ unlockCount ready := by
  induction marks generalizing ready with
  | nil => exact Nat.le_refl _
  | cons mark rest ih =>
    exact Nat.le_trans (ih _) (unlockCount_unlinkOwn_le provided ready mark)

theorem unlockCount_removeReady_le (markerFilter : Option (Finset TxMarker)) {r : ReadyTransactions}
    {hash : TxHash} {tx : ReadyTransaction} (h : r.readyTx.lookup hash = some tx) :
    tx.unlocks.length + unlockCount (removeReady markerFilter r hash tx).readyTx ≤
      unlockCount r.readyTx := by
  have herase := sumBy_erase (fun t : ReadyTransaction => t.unlocks.length) h
  have hfold := unlockCount_foldl_unlinkOwn_le
    ((invalidated markerFilter tx.tx).foldl (fun m mark => m.erase mark) r.providedMarkers)
    tx.tx.requires (r.readyTx.erase hash)
  simp only [unlockCount, removeReady] at herase hfold ⊢
  omega

/-- What the removal of `tx` takes along: its successors, unless all its markers
were spared. -/
def successors (markerFilter : Option (Finset TxMarker)) (tx : ReadyTransaction) : List TxHash :=
  if (invalidated markerFilter tx.tx).isEmpty then [] else tx.unlocks

theorem length_successors_le (markerFilter : Option (Finset TxMarker)) (tx : ReadyTransaction) :
    (successors markerFilter tx).length ≤ tx.unlocks.length := by
  unfold successors
  split <;> simp

/-- The worklist loop of `remove_with_markers`. -/
def removeLoop (markerFilter : Option (Finset TxMarker)) (r : ReadyTransactions)
    (txHashes : List TxHash) (removed : List PoolTransaction) :
    List PoolTransaction × ReadyTransactions :=
  match txHashes with
  | [] => (removed, r)
  | hash :: rest =>
    match _h : r.readyTx.lookup hash with
    | none => removeLoop markerFilter r rest removed
    | some tx =>
      removeLoop markerFilter (removeReady markerFilter r hash tx)
        ((successors markerFilter tx).reverse ++ rest) (removed ++ [tx.tx])
  termination_by txHashes.length + unlockCount r.readyTx
  decreasing_by
    · simp only [List.length_cons]
      omega
    · have hcount := unlockCount_removeReady_le markerFilter _h
      have hlen := length_successors_le markerFilter tx
      simp only [List.length_append, List.length_reverse, List.length_cons]
      omega

/-- Removes transactions and those that depend on them and satisfy at least one
marker outside the given filter set. -/
def removeWithMarkers (r : ReadyTransactions) (txHashes : List TxHash)
    (markerFilter : Option (Finset TxMarker)) : List PoolTransaction × ReadyTransactions :=
  removeLoop markerFilter r txHashes.reverse []

/-- Removes the transactions and all transactions that depend on those. -/
def clearTransactions (r : ReadyTransactions) (txHashes : List TxHash) :
    List PoolTransaction × ReadyTransactions :=
  r.removeWithMarkers txHashes none

/-! ### Insertion -/

/-- Walk over the transactions to be replaced: refuse if one of them provides the
very same markers for at least the same fee, otherwise collect what they unlock. -/
def checkReplaced (r : ReadyTransactions) (tx : PoolTransaction) :
    List TxHash → List TxHash → Except PoolError (List TxHash)
  | [], unlocked => .ok unlocked
  | hash :: rest, unlocked =>
    match r.readyTx.lookup hash with
    | none => checkReplaced r tx rest unlocked
    | some toRemove =>
      if toRemove.provides = tx.provides ∧ tx.maxFeePerGas ≤ toRemove.maxFeePerGas then
        .error (.replacementUnderpriced tx)
      else checkReplaced r tx rest (unlocked ++ toRemove.unlocks)

/-- Removes and returns those transactions that got replaced by `tx`, and what
they unlocked. -/
def replacedTransactions (ord : HashOrder) (r : ReadyTransactions) (tx : PoolTransaction) :
    Except PoolError (List PoolTransaction × List TxHash) × ReadyTransactions :=
  -- check if we are replacing transactions
  let removeHashes : Finset TxHash :=
    (tx.provides.filterMap fun mark => r.providedMarkers.lookup mark).toFinset
  -- early exit if we are not replacing anything
  if removeHashes = ∅ then (.ok ([], []), r)
  else
    match checkReplaced r tx (ord.hashes.toList removeHashes) [] with
    | .error e => (.error e, r)
    | .ok unlockedTx =>
      let (removedTx, r') :=
        r.removeWithMarkers (ord.hashes.toList removeHashes) (some tx.provides.toFinset)
      (.ok (removedTx, unlockedTx), r')

/-- Link `hash` to the transaction that provides `mark`. The state is the ready
map, whether nothing was linked so far, and the number of unprovided markers. -/
def link (provided : HashMap TxMarker TxHash) (hash : TxHash)
    (st : HashMap TxHash ReadyTransaction × Bool × Nat) (mark : TxMarker) :
    Except Panic (HashMap TxHash ReadyTransaction × Bool × Nat) :=
  match provided.lookup mark with
  | some other =>
    match st.1.lookup other with
    | none => .error .hashIncluded
    | some tx => .ok (st.1.insert other { tx with unlocks := tx.unlocks ++ [hash] }, false, st.2.2)
  | none => .ok (st.1, st.2.1, st.2.2 + 1)

/-- Adds a new transaction to the ready queue, and returns those it replaced. -/
def addTransaction (ord : HashOrder) (r : ReadyTransactions) (tx : PendingPoolTransaction) :
    Except Panic (Except PoolError (List PoolTransaction) × ReadyTransactions) :=
  let hash := tx.transaction.hash
  if ¬ tx.isReady then .error .mustBeReady
  else if hash ∈ r.readyTx then .error .alreadyIncluded
  else
    match r.replacedTransactions ord tx.transaction with
    | (.error e, r) => .ok (.error e, r)
    | (.ok (replacedTx, unlocks), r) =>
      -- add links to transactions that unlock the current one
      match tx.transaction.requires.foldlM (link r.providedMarkers hash) (r.readyTx, true, 0) with
      | .error e => .error e
      | .ok (ready, independent, requiresOffset) =>
        let transaction : PoolTransactionRef := { id := r.id, transaction := tx.transaction }
        .ok (.ok replacedTx,
          { id := r.id + 1
            -- update markers
            providedMarkers := tx.transaction.provides.foldl (fun m mark => m.insert mark hash)
              r.providedMarkers
            -- insert to ready queue
            readyTx := ready.insert hash { transaction, unlocks, requiresOffset }
            -- add to the independent set
            independentTransactions :=
              if independent then r.independentTransactions.insert transaction
              else r.independentTransactions })

/-! ### Pruning -/

/-- `previous_markers`: unlink `hash` from the transaction that provides
`marker`; if that one unlocks nothing else, its own markers are to go as well. -/
def previousMarkers (provided : HashMap TxMarker TxHash) (hash : TxHash)
    (st : HashMap TxHash ReadyTransaction × List TxMarker) (marker : TxMarker) :
    HashMap TxHash ReadyTransaction × List TxMarker :=
  match provided.lookup marker with
  | none => st
  | some prevHash =>
    match st.1.lookup prevHash with
    | none => st
    | some tx2 =>
      let unlocks := swapRemoveItem tx2.unlocks hash
      (st.1.insert prevHash { tx2 with unlocks },
        if unlocks.isEmpty then tx2.provides.reverse ++ st.2 else st.2)

/-- One marker of the transaction `hash` waits for was mined. -/
def satisfy
    (st : HashMap TxHash ReadyTransaction × BTreeSet PoolTransactionRef PoolTransactionRef.cmp)
    (hash : TxHash) :
    HashMap TxHash ReadyTransaction × BTreeSet PoolTransactionRef PoolTransactionRef.cmp :=
  match st.1.lookup hash with
  | none => st
  | some tx =>
    let tx := { tx with requiresOffset := tx.requiresOffset + 1 }
    (st.1.insert hash tx,
      if tx.requiresOffset = tx.tx.requires.length then st.2.insert tx.transaction else st.2)

/-- The loop that drops the markers of a pruned transaction, with its assertion. -/
def dropProvided (hash : TxHash) (current : TxMarker) (provided : HashMap TxMarker TxHash)
    (marker : TxMarker) : Except Panic (HashMap TxMarker TxHash) :=
  if provided.lookup marker = if current = marker then none else some hash then
    .ok (provided.erase marker)
  else .error .tagNotUnique

/-- The body of `prune_tags` for one marker: the transaction that was pruned, if
there was one, and the markers to prune next, the next one first. -/
def pruneOne (r : ReadyTransactions) (marker : TxMarker) :
    Except Panic (Option (PoolTransaction × List TxMarker) × ReadyTransactions) :=
  let provided := r.providedMarkers.erase marker
  match (r.providedMarkers.lookup marker).bind fun hash =>
      (r.readyTx.lookup hash).map fun t => (hash, t) with
  | none => .ok (none, { r with providedMarkers := provided })
  | some (hash, t) =>
    -- also prune previous transactions
    let prev := t.tx.requires.foldl (previousMarkers provided t.tx.hash) (r.readyTx.erase hash, [])
    -- add the transactions that just got unlocked to the independent set
    let sat := t.unlocks.foldl satisfy (prev.1, r.independentTransactions.remove t.transaction)
    -- finally, remove the markers that this transaction provides
    match t.tx.provides.foldlM (dropProvided t.tx.hash marker) provided with
    | .error e => .error e
    | .ok provided =>
      .ok (some (t.tx, prev.2),
        { r with
          providedMarkers := provided
          readyTx := sat.1
          independentTransactions := sat.2 })

/-! The markers a prune may still push are bounded by how many are required times
how many are provided; rewriting the links of an entry changes neither. -/

/-- Sum over the ready transactions of something that is read off the transaction. -/
def sumTx (f : PoolTransaction → Nat) (ready : HashMap TxHash ReadyTransaction) : Nat :=
  HashMap.sumBy (fun t => f t.tx) ready

section

variable (f : PoolTransaction → Nat)
include f

theorem sumTx_insert {ready : HashMap TxHash ReadyTransaction} {hash : TxHash}
    {t t' : ReadyTransaction} (h : ready.lookup hash = some t) (htx : t'.tx = t.tx) :
    sumTx f (ready.insert hash t') = sumTx f ready := by
  have hsum := sumBy_insert (fun t : ReadyTransaction => f t.tx) t' h
  simp only [htx] at hsum
  unfold sumTx
  omega

theorem sumTx_satisfy (hashes : List TxHash)
    (st : HashMap TxHash ReadyTransaction × BTreeSet PoolTransactionRef PoolTransactionRef.cmp) :
    sumTx f (hashes.foldl satisfy st).1 = sumTx f st.1 := by
  induction hashes generalizing st with
  | nil => rfl
  | cons hash rest ih =>
    rw [List.foldl_cons, ih]
    unfold satisfy
    cases h : st.1.lookup hash with
    | none => rfl
    | some t => exact sumTx_insert f h rfl

theorem sumTx_previousMarkers (provided : HashMap TxMarker TxHash) (hash : TxHash)
    (marks : List TxMarker) (st : HashMap TxHash ReadyTransaction × List TxMarker) :
    sumTx f (marks.foldl (previousMarkers provided hash) st).1 = sumTx f st.1 := by
  induction marks generalizing st with
  | nil => rfl
  | cons mark rest ih =>
    rw [List.foldl_cons, ih]
    unfold previousMarkers
    cases provided.lookup mark with
    | none => rfl
    | some prevHash =>
      dsimp only
      cases h : st.1.lookup prevHash with
      | none => rfl
      | some t => exact sumTx_insert f h rfl

end

theorem length_previousMarkers_le (provided : HashMap TxMarker TxHash) (hash : TxHash)
    (marks : List TxMarker) (st : HashMap TxHash ReadyTransaction × List TxMarker) :
    (marks.foldl (previousMarkers provided hash) st).2.length ≤
      st.2.length + marks.length * sumTx (fun tx => tx.provides.length) st.1 := by
  induction marks generalizing st with
  | nil => simp
  | cons mark rest ih =>
    have hone : (previousMarkers provided hash st mark).2.length ≤
        st.2.length + sumTx (fun tx => tx.provides.length) st.1 := by
      unfold previousMarkers
      cases provided.lookup mark with
      | none => exact Nat.le_add_right _ _
      | some prevHash =>
        dsimp only
        cases h : st.1.lookup prevHash with
        | none => exact Nat.le_add_right _ _
        | some t =>
          have hle := le_sumBy (fun t : ReadyTransaction => t.tx.provides.length) h
          dsimp only
          unfold sumTx
          split
          · rw [List.length_append, List.length_reverse]
            simp only [ReadyTransaction.provides]
            omega
          · omega
    have hsum := sumTx_previousMarkers (fun tx => tx.provides.length) provided hash [mark] st
    have hrest := ih (previousMarkers provided hash st mark)
    simp only [List.foldl_cons, List.foldl_nil] at hsum
    rw [hsum] at hrest
    rw [List.foldl_cons, List.length_cons, Nat.succ_mul]
    omega

/-- How many markers may still be pushed. -/
def pruneBound (ready : HashMap TxHash ReadyTransaction) : Nat :=
  sumTx (fun tx => tx.requires.length) ready * sumTx (fun tx => tx.provides.length) ready

theorem pruneOne_bound {r r' : ReadyTransactions} {marker : TxMarker}
    {pruned : Option (PoolTransaction × List TxMarker)} (h : pruneOne r marker = .ok (pruned, r')) :
    ((pruned.map (·.2)).getD []).length + pruneBound r'.readyTx ≤ pruneBound r.readyTx := by
  unfold pruneOne at h
  dsimp only at h
  split at h
  · cases h
    simp
  · rename_i hash t heq
    obtain ⟨hash', hlook, hmap⟩ := Option.bind_eq_some_iff.mp heq
    obtain ⟨t', ht, hpair⟩ := Option.map_eq_some_iff.mp hmap
    cases hpair
    split at h
    · cases h
    · cases h
      have hreq := sumBy_erase (fun t : ReadyTransaction => t.tx.requires.length) ht
      have hprov := sumBy_erase (fun t : ReadyTransaction => t.tx.provides.length) ht
      have hlen := length_previousMarkers_le (r.providedMarkers.erase marker) t.tx.hash
        t.tx.requires (r.readyTx.erase hash, [])
      simp only [Option.map_some, Option.getD_some, pruneBound, sumTx_satisfy,
        sumTx_previousMarkers]
      simp only [sumTx, List.length_nil, Nat.zero_add] at hreq hprov hlen ⊢
      rw [← hreq, Nat.add_mul]
      refine Nat.add_le_add (Nat.le_trans hlen ?_) ?_
      · exact Nat.mul_le_mul_left _ (by omega)
      · exact Nat.mul_le_mul_left _ (by omega)

/-- The worklist loop of `prune_tags`. -/
def pruneLoop (r : ReadyTransactions) (remove : List TxMarker) (removed : List PoolTransaction) :
    Except Panic (List PoolTransaction × ReadyTransactions) :=
  match remove with
  | [] => .ok (removed, r)
  | marker :: rest =>
    match _h : pruneOne r marker with
    | .error e => .error e
    | .ok (none, r') => pruneLoop r' rest removed
    | .ok (some (tx, tags), r') => pruneLoop r' (tags ++ rest) (removed ++ [tx])
  termination_by remove.length + pruneBound r.readyTx
  decreasing_by
    · have hbound := pruneOne_bound _h
      simp only [Option.map_none, Option.getD_none, List.length_nil, List.length_cons] at hbound ⊢
      omega
    · have hbound := pruneOne_bound _h
      simp only [Option.map_some, Option.getD_some, List.length_append, List.length_cons]
        at hbound ⊢
      omega

/-- Removes the transactions that provide the marker, and all transactions that
lead to the transaction that provides the marker. -/
def pruneTags (r : ReadyTransactions) (marker : TxMarker) :
    Except Panic (List PoolTransaction × ReadyTransactions) :=
  pruneLoop r [marker] []

end ReadyTransactions

/-! ### Iteration -/

/-- Hands out the ready transactions. -/
structure TransactionsIterator where
  all : HashMap TxHash ReadyTransaction
  awaiting : HashMap TxHash (Nat × PoolTransactionRef)
  independent : BTreeSet PoolTransactionRef PoolTransactionRef.cmp

/-- An iterator over all transactions. -/
def ReadyTransactions.getTransactions (r : ReadyTransactions) : TransactionsIterator where
  all := r.readyTx
  awaiting := ∅
  independent := r.independentTransactions

namespace TransactionsIterator

/-- Depending on the number of satisfied requirements insert the given ref either
to the awaiting set or to the best set. -/
def independentOrAwaiting (it : TransactionsIterator) (satisfied : Nat)
    (txRef : PoolTransactionRef) : TransactionsIterator :=
  if satisfied ≥ txRef.transaction.requires.length then
    { it with independent := it.independent.insert txRef }
  else { it with awaiting := it.awaiting.insert txRef.transaction.hash (satisfied, txRef) }

/-- Insert a transaction that just got unlocked. -/
def unlock (it : TransactionsIterator) (hash : TxHash) : TransactionsIterator :=
  match it.awaiting.lookup hash with
  -- first check local awaiting transactions
  | some (satisfied, txRef) =>
    { it with awaiting := it.awaiting.erase hash }.independentOrAwaiting (satisfied + 1) txRef
  -- then get from the pool
  | none =>
    match it.all.lookup hash with
    | some next => it.independentOrAwaiting (next.requiresOffset + 1) next.transaction
    | none => it

/-- `Iterator::next`. -/
def next (it : TransactionsIterator) : Option (PoolTransaction × TransactionsIterator) :=
  match _h : it.independent.last? with
  | none => none
  | some best =>
    let rest := { it with independent := it.independent.remove best }
    match it.all.lookup best.transaction.hash with
    | none => rest.next
    | some ready => some (best.transaction, ready.unlocks.foldl unlock rest)
  termination_by it.independent.len
  decreasing_by exact BTreeSet.len_remove_lt (BTreeSet.mem_of_last? _h)

/-- Run to exhaustion, in at most `fuel` calls of `next`. -/
def collect : Nat → TransactionsIterator → Option (List PoolTransaction)
  | 0, _ => none
  | fuel + 1, it =>
    match it.next with
    | none => some []
    | some (tx, it) => (collect fuel it).map (tx :: ·)

end TransactionsIterator

end BaseAnvil.Pool

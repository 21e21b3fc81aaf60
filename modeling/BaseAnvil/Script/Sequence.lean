import BaseAnvil.Pool.Transaction

/-!
# BaseAnvil.Script.Sequence

The sequence of transactions a script sends, with what is known about each of them
(`script-sequence/src/sequence.rs`). It is saved to a file after every change that matters, and a
later run of `forge script --resume` goes on from that file.
-/

namespace BaseAnvil.Script

open Pool (Address TxHash)

/-- `TxKind`. -/
inductive TxKind
  | create
  | call (target : Address)
deriving DecidableEq, Repr

/-- `TransactionRequest`, as far as broadcasting reads or sets it. The transactions of a script
have a sender and a nonce, which broadcasting insists on. -/
structure TransactionRequest where
  sender : Address
  nonce : UInt64
  kind : Option TxKind
  gas : Option UInt64
  chainId : Option UInt64
  gasPrice : Option Nat
  maxFeePerGas : Option Nat
  maxPriorityFeePerGas : Option Nat
deriving DecidableEq, Repr

/-- `TransactionMaybeSigned`. A signed transaction is the bytes that are sent. -/
inductive TransactionMaybeSigned
  | signed (tx : List UInt8)
  | unsigned (tx : TransactionRequest)
deriving DecidableEq, Repr

/-- `TransactionWithMetadata`. -/
structure TransactionWithMetadata where
  hash : Option TxHash
  transaction : TransactionMaybeSigned
  contractName : Option String
  function : Option String
  isFixedGasLimit : Bool
deriving DecidableEq, Repr

/-- What is read of a receipt. -/
structure Receipt where
  transactionHash : TxHash
  blockNumber : Option UInt64
  transactionIndex : Option UInt64
deriving DecidableEq, Repr

/-- `ScriptSequence`. -/
structure ScriptSequence where
  transactions : List TransactionWithMetadata
  receipts : List Receipt
  pending : List TxHash
  chain : UInt64
deriving DecidableEq, Repr

namespace Receipt

/-- The order of `Option<u64>`, in which `None` comes first. -/
def rank : Option UInt64 → Nat
  | none => 0
  | some n => n.toNat + 1

/-- The order of `(r.block_number, r.transaction_index)`. -/
def Before (a b : Receipt) : Prop :=
  rank a.blockNumber < rank b.blockNumber ∨
    rank a.blockNumber = rank b.blockNumber ∧ rank a.transactionIndex ≤ rank b.transactionIndex

instance : DecidableRel Before := fun _ _ => inferInstanceAs (Decidable (_ ∨ _))

end Receipt

namespace ScriptSequence

variable (self : ScriptSequence)

def addReceipt (receipt : Receipt) : ScriptSequence :=
  { self with receipts := self.receipts ++ [receipt] }

/-- Sorts all receipts with ascending transaction index. -/
def sortReceipts : ScriptSequence :=
  { self with receipts := self.receipts.insertionSort Receipt.Before }

/-- A hash that is pending already is not recorded again. -/
def addPending (index : Nat) (txHash : TxHash) : ScriptSequence :=
  if txHash ∈ self.pending then self
  else
    { self with
      transactions := self.transactions.modify index fun tx => { tx with hash := some txHash }
      pending := self.pending ++ [txHash] }

def removePending (txHash : TxHash) : ScriptSequence :=
  { self with pending := self.pending.filter (· ≠ txHash) }

/-- What `save` writes. -/
def save : ScriptSequence := self.sortReceipts

/-- The hash recorded for the transaction at this position. -/
def hashAt (i : Nat) : Option TxHash := self.transactions[i]?.bind (·.hash)

/-- The transaction `format_receipt` says a receipt is for. -/
def attributedTo (receipt : Receipt) : Option Nat :=
  self.transactions.findIdx? fun tx => tx.hash == some receipt.transactionHash

/-! ### Lemmas -/

variable {self} {i index : Nat} {txHash : TxHash} {receipt : Receipt}

@[simp] theorem hashAt_save : self.save.hashAt i = self.hashAt i := rfl
@[simp] theorem transactions_save : self.save.transactions = self.transactions := rfl

@[simp] theorem mem_receipts_save : receipt ∈ self.save.receipts ↔ receipt ∈ self.receipts := by
  simp [save, sortReceipts]

theorem perm_receipts_save : self.save.receipts.Perm self.receipts :=
  List.perm_insertionSort _ _

@[simp] theorem length_addPending :
    (self.addPending index txHash).transactions.length = self.transactions.length := by
  unfold addPending
  split <;> simp

@[simp] theorem receipts_addPending : (self.addPending index txHash).receipts = self.receipts := by
  unfold addPending
  split <;> rfl

theorem hashAt_addPending (hindex : index < self.transactions.length)
    (hnew : txHash ∉ self.pending) :
    (self.addPending index txHash).hashAt i = if i = index then some txHash else self.hashAt i := by
  unfold addPending hashAt
  rw [if_neg hnew]
  by_cases hi : i = index
  · subst hi
    simp [List.getElem?_eq_getElem hindex]
  · simp [hi, Ne.symm hi]

/-- A hash that is there after `add_pending` is the new one, or was there before. -/
theorem hashAt_of_addPending {hash : TxHash}
    (h : (self.addPending index txHash).hashAt i = some hash) :
    i = index ∧ hash = txHash ∨ self.hashAt i = some hash := by
  by_cases hnew : txHash ∈ self.pending
  · rw [addPending, if_pos hnew] at h
    exact .inr h
  · by_cases hindex : index < self.transactions.length
    · rw [hashAt_addPending hindex hnew] at h
      split at h
      · rename_i hi
        exact .inl ⟨hi, (Option.some.inj h).symm⟩
      · exact .inr h
    · rw [addPending, if_neg hnew, List.modify_eq_self (not_lt.mp hindex)] at h
      exact .inr h

@[simp] theorem map_transaction_addPending :
    (self.addPending index txHash).transactions.map (·.transaction) =
      self.transactions.map (·.transaction) := by
  unfold addPending
  split
  · rfl
  · apply List.ext_getElem?
    intro i
    simp only [List.getElem?_map, List.getElem?_modify]
    split <;> simp [Function.comp_def]

@[simp] theorem chain_addPending : (self.addPending index txHash).chain = self.chain := by
  unfold addPending
  split <;> rfl

theorem hashAt_of_attributedTo (h : self.attributedTo receipt = some i) :
    self.hashAt i = some receipt.transactionHash := by
  unfold attributedTo at h
  obtain ⟨hlt, hp, -⟩ := List.findIdx?_eq_some_iff_getElem.mp h
  simpa [hashAt, List.getElem?_eq_getElem hlt] using hp

theorem lt_of_hashAt (h : self.hashAt i = some txHash) : i < self.transactions.length := by
  by_contra hlt
  simp [hashAt, List.getElem?_eq_none (not_lt.mp hlt)] at h

end ScriptSequence

end BaseAnvil.Script

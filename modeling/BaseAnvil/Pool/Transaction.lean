import BaseAnvil.Lib.Bytes
import BaseAnvil.Lib.BTreeSet
import BaseAnvil.Lib.HashMap
import BaseAnvil.Lib.Vec

/-!
# BaseAnvil.Pool.Transaction

The transactions of the pool (`eth/pool/transactions.rs`) and how the RPC layer
builds them (`eth/api.rs`).

A pool transaction *provides* and *requires* markers. The RPC layer gives a
transaction the marker of its own (nonce, sender) pair to provide and, unless
the nonce is the next one on chain, the marker of the preceding nonce to
require. `NonceMarked` is that shape; everything proved about the pool is about
transactions that have it.
-/

namespace BaseAnvil.Pool

open Lib

abbrev B256 := BitVec 256
abbrev Address := BitVec 160
abbrev TxHash := B256

/-- A unique identifying marker for a transaction. -/
abbrev TxMarker := List UInt8

instance : LawfulBEq TxMarker := inferInstanceAs (LawfulBEq (List UInt8))

/-- The identifier of a (`nonce`, `sender`) combination: eight little-endian
bytes of the nonce, then the twenty bytes of the address. -/
def toMarker (nonce : UInt64) (sender : Address) : TxMarker :=
  leBytes 8 nonce.toNat ++ beBytes 20 sender.toNat

theorem toMarker_inj {n n' : UInt64} {a a' : Address} :
    toMarker n a = toMarker n' a' ↔ n = n' ∧ a = a' := by
  constructor
  · intro h
    obtain ⟨hn, ha⟩ := List.append_inj h (by simp)
    refine ⟨UInt64.toNat_inj.mp (leBytes_injective n.toNat_lt n'.toNat_lt hn), ?_⟩
    exact BitVec.eq_of_toNat_eq (beBytes_injective a.isLt a'.isLt ha)
  · rintro ⟨rfl, rfl⟩
    rfl

/-! ### Transactions -/

/-- The signed transaction, as far as the pool reads it. -/
structure PendingTransaction where
  hash : TxHash
  sender : Address
  nonce : UInt64
  maxFeePerGas : Nat
  deriving Repr, DecidableEq

/-- Internal transaction type. -/
structure PoolTransaction where
  pendingTransaction : PendingTransaction
  /-- Markers required by the transaction. -/
  requires : List TxMarker
  /-- Markers that this transaction provides. -/
  provides : List TxMarker
  /-- `TransactionPriority`, the metric the ready queue is ordered by. -/
  priority : Nat
  deriving Repr, DecidableEq

namespace PoolTransaction

def hash (tx : PoolTransaction) : TxHash := tx.pendingTransaction.hash
def sender (tx : PoolTransaction) : Address := tx.pendingTransaction.sender
def nonce (tx : PoolTransaction) : UInt64 := tx.pendingTransaction.nonce
def maxFeePerGas (tx : PoolTransaction) : Nat := tx.pendingTransaction.maxFeePerGas

end PoolTransaction

/-- Errors that can occur in the transaction pool. -/
inductive PoolError
  /-- Transaction with cyclic dependent transactions. -/
  | cyclicTransaction
  /-- Insufficient gas price to replace an existing transaction. -/
  | replacementUnderpriced (tx : PoolTransaction)
  /-- Already imported. -/
  | alreadyImported (tx : PoolTransaction)
  deriving Repr, DecidableEq

/-- The assertions and `expect`s of the pool, each by the text it fails with. -/
inductive Panic
  /-- `transaction must not be ready` -/
  | mustNotBeReady
  /-- `transaction is already added` -/
  | alreadyAdded
  /-- `tx is included;` -/
  | txIncluded
  /-- `transaction must be ready` -/
  | mustBeReady
  /-- `transaction already included` -/
  | alreadyIncluded
  /-- `hash included;` -/
  | hashIncluded
  /-- `The pool contains exactly one transaction providing given tag; …` -/
  | tagNotUnique
  deriving Repr, DecidableEq

/-! ### How the RPC layer builds a pool transaction -/

/-- Modes that determine the transaction ordering of the mempool. -/
inductive TransactionOrder
  | fifo
  | fees
  deriving Repr, DecidableEq

/-- The priority of a transaction: none at all, or the fee it offers. -/
def TransactionOrder.priority : TransactionOrder → PendingTransaction → Nat
  | .fifo, _ => 0
  | .fees, tx => tx.maxFeePerGas

/-- Saturating subtraction of one, on `u64`. -/
def saturatingPred (n : UInt64) : UInt64 := if n = 0 then 0 else n - 1

/-- The marker a transaction has to wait for, given the nonce on chain. -/
def requiredMarker (providedNonce onChainNonce : UInt64) (sender : Address) : List TxMarker :=
  if providedNonce = onChainNonce then []
  else
    let prevNonce := saturatingPred providedNonce
    if onChainNonce ≤ prevNonce then [toMarker prevNonce sender] else []

/-- The pool transaction `eth_sendTransaction` and its siblings submit. -/
def poolTransaction (order : TransactionOrder) (onChainNonce : UInt64)
    (tx : PendingTransaction) : PoolTransaction where
  pendingTransaction := tx
  requires := requiredMarker tx.nonce onChainNonce tx.sender
  provides := [toMarker tx.nonce tx.sender]
  priority := order.priority tx

/-- The shape of a submitted transaction: it provides the marker of its own
nonce, and requires nothing or the marker of the nonce before. -/
structure NonceMarked (tx : PoolTransaction) : Prop where
  provides : tx.provides = [toMarker tx.nonce tx.sender]
  requires : tx.requires = [] ∨
    (tx.nonce ≠ 0 ∧ tx.requires = [toMarker (tx.nonce - 1) tx.sender])

namespace PoolTransaction

/-- The marker a nonce-marked transaction provides. -/
def slot (tx : PoolTransaction) : TxMarker := toMarker tx.nonce tx.sender

/-- `t` waits for `p`: the marker it requires is the one `p` provides. -/
def Follows (t p : PoolTransaction) : Prop := p.slot ∈ t.requires

end PoolTransaction

namespace NonceMarked

variable {t p : PoolTransaction} (ht : NonceMarked t)
include ht

theorem mem_provides {m : TxMarker} : m ∈ t.provides ↔ m = t.slot := by
  rw [ht.provides, List.mem_singleton]
  rfl

/-- Transactions that require the same marker provide the same marker. -/
theorem slot_eq_of_mem_requires (hp : NonceMarked p) {m : TxMarker} (hmt : m ∈ t.requires)
    (hmp : m ∈ p.requires) : t.slot = p.slot := by
  rcases ht.requires with ht | ⟨ht0, ht⟩
  · rw [ht] at hmt
    exact absurd hmt List.not_mem_nil
  rcases hp.requires with hp | ⟨hp0, hp⟩
  · rw [hp] at hmp
    exact absurd hmp List.not_mem_nil
  rw [ht, List.mem_singleton] at hmt
  rw [hp, List.mem_singleton] at hmp
  obtain ⟨hn, ha⟩ := toMarker_inj.mp (hmt.symm.trans hmp)
  have hn' : t.nonce = p.nonce := (UInt64.sub_left_inj 1).mp hn
  rw [PoolTransaction.slot, PoolTransaction.slot, hn', ha]

/-- Transactions that provide the same marker and wait for something wait for
the same marker. -/
theorem requires_of_slot_eq (hp : NonceMarked p) {m : TxMarker} (hslot : t.slot = p.slot)
    (hm : m ∈ t.requires) : p.requires = [] ∨ p.requires = [m] := by
  obtain ⟨hn, ha⟩ := toMarker_inj.mp hslot
  rcases ht.requires with ht | ⟨ht0, ht⟩
  · rw [ht] at hm
    exact absurd hm List.not_mem_nil
  rw [ht, List.mem_singleton, hn, ha] at hm
  rcases hp.requires with hp | ⟨-, hp⟩
  · exact Or.inl hp
  · exact Or.inr (by rw [hp, hm])

/-- A transaction that follows another has the same sender and the next nonce. -/
theorem nonce_of_follows (h : t.Follows p) :
    t.sender = p.sender ∧ t.nonce.toNat = p.nonce.toNat + 1 := by
  rcases ht.requires with ht | ⟨ht0, ht⟩
  · rw [PoolTransaction.Follows, ht] at h
    exact absurd h List.not_mem_nil
  rw [PoolTransaction.Follows, ht, List.mem_singleton] at h
  obtain ⟨hn, ha⟩ := toMarker_inj.mp h
  refine ⟨ha.symm, ?_⟩
  have hpos : t.nonce.toNat ≠ 0 := fun h0 => ht0 (UInt64.toNat_inj.mp h0)
  have hsub : (t.nonce - 1).toNat = t.nonce.toNat - 1 := by
    refine UInt64.toNat_sub_of_le t.nonce 1 ?_
    exact UInt64.le_iff_toNat_le.mpr (by simpa using Nat.one_le_iff_ne_zero.mpr hpos)
  rw [hn, hsub]
  omega

/-- No transaction waits for what it provides. -/
theorem not_follows_self : ¬ t.Follows t := by
  intro h
  have := (ht.nonce_of_follows h).2
  omega

/-- At most one marker is required. -/
theorem requires_eq_singleton {m : TxMarker} (h : m ∈ t.requires) : t.requires = [m] := by
  rcases ht.requires with hr | ⟨-, hr⟩
  · rw [hr] at h
    exact absurd h List.not_mem_nil
  · rw [hr, List.mem_singleton] at h
    rw [hr, h]

theorem eq_of_mem_requires {m m' : TxMarker} (h : m ∈ t.requires) (h' : m' ∈ t.requires) :
    m' = m := by
  rw [ht.requires_eq_singleton h, List.mem_singleton] at h'
  exact h'

end NonceMarked

end BaseAnvil.Pool

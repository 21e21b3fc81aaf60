import BaseAnvil.Pool.Transaction

/-!
# BaseAnvil.Primitives.Transaction

The transaction types (`FoundryTxType`, `FoundryTypedTx`) of the primitives crate.

Those of Ethereum are the library's and stay opaque. Deposits and Tempo transactions are built field
by field by this crate.
-/

namespace BaseAnvil.Primitives

open Pool (Address B256)

abbrev U256 := BitVec 256

abbrev Bytes := List UInt8

inductive TxType
  | legacy
  | eip2930
  | eip1559
  | eip4844
  | eip7702
deriving Repr, DecidableEq

inductive FoundryTxType
  | legacy
  | eip2930
  | eip1559
  | eip4844
  | eip7702
  | deposit
  | tempo
deriving Repr, DecidableEq

def TxType.toFoundry : TxType → FoundryTxType
  | .legacy => .legacy
  | .eip2930 => .eip2930
  | .eip1559 => .eip1559
  | .eip4844 => .eip4844
  | .eip7702 => .eip7702

def depositTxTypeId : UInt8 := 0x7e

def tempoTxTypeId : UInt8 := 0x76

/-- The byte in front of an encoding of this type. -/
def FoundryTxType.id : FoundryTxType → UInt8
  | .legacy => 0
  | .eip2930 => 1
  | .eip1559 => 2
  | .eip4844 => 3
  | .eip7702 => 4
  | .deposit => depositTxTypeId
  | .tempo => tempoTxTypeId

inductive TxKind
  | create
  | call (address : Address)
deriving Repr, DecidableEq

instance : Inhabited TxKind := ⟨.create⟩

structure TxDeposit where
  sourceHash : B256
  sender : Address
  kind : TxKind
  /-- A `u128`. -/
  mint : BitVec 128
  value : U256
  /-- A `u64`. -/
  gasLimit : Nat
  isSystemTransaction : Bool
  input : Bytes
deriving DecidableEq

/-- One of the calls of a Tempo transaction. -/
structure Call where
  kind : TxKind
  value : U256
  input : Bytes
deriving DecidableEq, Inhabited

/-- The library's types that nothing here looks into. `Tx` gives the Ethereum transactions of each
type. -/
structure Types where
  Tx : TxType → Type
  AccessList : Type
  Sidecar : Type
  Authorization : Type
  /-- That of the one who pays the fees of a Tempo transaction. -/
  FeePayerSignature : Type
  KeyAuthorization : Type
  TempoAuthorization : Type
  /-- The empty access list. -/
  emptyAccessList : AccessList

structure TempoTransaction (Θ : Types) where
  /-- A `u64`. -/
  chainId : Nat
  feeToken : Option Address
  /-- A `u128`. -/
  maxPriorityFeePerGas : Nat
  /-- A `u128`. -/
  maxFeePerGas : Nat
  /-- A `u64`. -/
  gasLimit : Nat
  calls : List Call
  accessList : Θ.AccessList
  nonceKey : U256
  /-- A `u64`. -/
  nonce : Nat
  feePayerSignature : Option Θ.FeePayerSignature
  /-- A `u64`. -/
  validBefore : Option Nat
  /-- A `u64`. -/
  validAfter : Option Nat
  keyAuthorization : Option Θ.KeyAuthorization
  tempoAuthorizationList : List Θ.TempoAuthorization

/-- A transaction before it is signed. -/
inductive FoundryTypedTx (Θ : Types)
  | legacy (tx : Θ.Tx .legacy)
  | eip2930 (tx : Θ.Tx .eip2930)
  | eip1559 (tx : Θ.Tx .eip1559)
  | eip4844 (tx : Θ.Tx .eip4844)
  | eip7702 (tx : Θ.Tx .eip7702)
  | deposit (tx : TxDeposit)
  | tempo (tx : TempoTransaction Θ)

namespace FoundryTypedTx

variable {Θ : Types}

def txType : FoundryTypedTx Θ → FoundryTxType
  | .legacy _ => .legacy
  | .eip2930 _ => .eip2930
  | .eip1559 _ => .eip1559
  | .eip4844 _ => .eip4844
  | .eip7702 _ => .eip7702
  | .deposit _ => .deposit
  | .tempo _ => .tempo

/-- An Ethereum transaction, which the library keeps with its type. -/
def ofEthereum : (Σ ty, Θ.Tx ty) → FoundryTypedTx Θ
  | ⟨.legacy, tx⟩ => .legacy tx
  | ⟨.eip2930, tx⟩ => .eip2930 tx
  | ⟨.eip1559, tx⟩ => .eip1559 tx
  | ⟨.eip4844, tx⟩ => .eip4844 tx
  | ⟨.eip7702, tx⟩ => .eip7702 tx

@[simp]
theorem txType_ofEthereum (tx : Σ ty, Θ.Tx ty) : (ofEthereum tx).txType = tx.1.toFoundry := by
  obtain ⟨ty, tx⟩ := tx
  cases ty <;> rfl

end FoundryTypedTx

end BaseAnvil.Primitives

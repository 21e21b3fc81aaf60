import BaseAnvil.Primitives.Transaction

/-!
# BaseAnvil.Primitives.Request

Transaction requests (`FoundryTransactionRequest` of `transaction/request.rs`): the type that a
request asks for, the keys that it lacks, and the transaction that is built from it.

A request is one of the library with additional fields, which are JSON. The fields of deposits and
of Tempo transactions are among those. A function that panics returns `none`.
-/

namespace BaseAnvil.Primitives

open Lib
open Pool (Address B256)

/-! ### JSON -/

/-- Numbers as the library keeps them: a `u64`, an `i64` below zero, or the bits of an `f64`. -/
inductive Number
  | posInt (n : UInt64)
  | negInt (n : Int64)
  | float (bits : UInt64)
deriving DecidableEq

inductive Value
  | null
  | bool (b : Bool)
  | number (n : Number)
  | string (s : String)
  | array (values : List Value)
  | object (fields : List (String × Value))

abbrev OtherFields := HashMap String Value

/-- A `bool` is read from nothing but a boolean. -/
def Value.asBool : Value → Option Bool
  | .bool b => some b
  | _ => none

/-- How values are written and read. Reading fails with `none`. -/
structure Serde where
  asB256 : Value → Option B256
  asU256 : Value → Option U256
  asAddress : Value → Option Address
  ofU256 : U256 → Value
  ofAddress : Address → Value
  /-- `to_string`. -/
  showB256 : B256 → String
  showU128 : BitVec 128 → String
  asU256_ofU256 : ∀ n, asU256 (ofU256 n) = some n
  asAddress_ofAddress : ∀ a, asAddress (ofAddress a) = some a
  asB256_show : ∀ h, asB256 (.string (showB256 h)) = some h
  asU256_show : ∀ n, asU256 (.string (showU128 n)) = some (n.setWidth 256)

/-! ### The library's requests -/

structure TransactionInput where
  input : Option Bytes
  data : Option Bytes

def TransactionInput.get (self : TransactionInput) : Option Bytes := self.input <|> self.data

structure TransactionRequest (Θ : Types) where
  sender : Option Address
  kind : Option TxKind
  /-- A `u128`, as the other fees. -/
  gasPrice : Option Nat
  maxFeePerGas : Option Nat
  maxPriorityFeePerGas : Option Nat
  maxFeePerBlobGas : Option Nat
  /-- A `u64`. -/
  gas : Option Nat
  value : Option U256
  input : TransactionInput
  /-- A `u64`. -/
  nonce : Option Nat
  /-- A `u64`. -/
  chainId : Option Nat
  accessList : Option Θ.AccessList
  transactionType : Option UInt8
  blobVersionedHashes : Option (List B256)
  sidecar : Option Θ.Sidecar
  authorizationList : Option (List Θ.Authorization)

/-- `TransactionRequest::default`. -/
def TransactionRequest.empty {Θ : Types} : TransactionRequest Θ :=
  ⟨none, none, none, none, none, none, none, none, ⟨none, none⟩, none, none, none, none, none, none,
    none⟩

/-- The library's functions on its requests. -/
structure Library (Θ : Types) where
  preferredType : TransactionRequest Θ → TxType
  /-- `complete_legacy`, `complete_2930` and so on: the keys that are missing for a type. -/
  complete : TxType → TransactionRequest Θ → Except (List String) Unit
  canBuild : TransactionRequest Θ → Bool
  hasEip4844Fields : TransactionRequest Θ → Bool
  buildTypedTx : TransactionRequest Θ → Except (TransactionRequest Θ) (Σ ty, Θ.Tx ty)
  build4844WithoutSidecar : TransactionRequest Θ → Except (TransactionRequest Θ) (Θ.Tx .eip4844)
  /-- The preferred type is built if no key is missing for it. -/
  builds : ∀ request, complete (preferredType request) request = .ok () →
    ∃ tx, buildTypedTx request = .ok ⟨preferredType request, tx⟩
  /-- Fields for blobs ask for a type with blobs, unless there are authorizations. -/
  preferredType_of_fields : ∀ request, hasEip4844Fields request →
    preferredType request = .eip4844 ∨ preferredType request = .eip7702
  sidecar_of_complete : ∀ request, complete .eip4844 request = .ok () → request.sidecar.isSome
  missing_ne_nil : ∀ request missing, complete .eip4844 request = .error missing → missing ≠ []
  sidecar_missing : ∀ request missing, complete .eip4844 request = .error missing →
    "sidecar" ∈ missing → request.sidecar = none

/-! ### Requests -/

/-- A request of the library, with the additional fields. -/
structure FoundryTransactionRequest (Θ : Types) where
  inner : TransactionRequest Θ
  other : OtherFields

/-- What a deposit has that a request of the library has no field for. -/
structure DepositTransactionParts where
  sourceHash : B256
  /-- A `u128`. -/
  mint : Option (BitVec 128)
  isSystemTransaction : Bool
deriving DecidableEq

/-- `missing.push(key)`, if it is missing. -/
def missingIf (isMissing : Bool) (key : String) : List String := if isMissing then [key] else []

@[simp]
theorem missingIf_eq_nil {isMissing : Bool} {key : String} :
    missingIf isMissing key = [] ↔ isMissing = false := by
  cases isMissing <;> simp [missingIf]

section

variable (serde : Serde)

/-- `get_deserialized`, where a value that cannot be read counts as missing. -/
def getDeserialized {α : Type} (read : Value → Option α) (other : OtherFields) (key : String) :
    Option α :=
  (other.lookup key).bind read

/-- The mint and whether it has to be reported. A number of more than 128 bits panics. -/
def getMint (other : OtherFields) : Option (Option (BitVec 128) × Bool) :=
  match other.lookup "mint" with
  | none => some (none, false)
  | some value =>
    match serde.asU256 value with
    | none => some (none, true)
    | some n => if n.toNat < 2 ^ 128 then some (some (n.setWidth 128), false) else none

/-- `get_deposit_tx_parts`. -/
def getDepositTxParts (other : OtherFields) :
    Option (Except (List String) DepositTransactionParts) :=
  let sourceHash := getDeserialized serde.asB256 other "sourceHash"
  let isSystemTransaction := getDeserialized Value.asBool other "isSystemTx"
  match getMint serde other with
  | none => none
  | some (mint, mintMissing) =>
    let missing := missingIf sourceHash.isNone "sourceHash" ++ missingIf mintMissing "mint" ++
      missingIf isSystemTransaction.isNone "isSystemTx"
    if missing = [] then
      some (.ok ⟨sourceHash.getD 0, mint, isSystemTransaction.getD false⟩)
    else some (.error missing)

end

namespace FoundryTransactionRequest

variable {Θ : Types} (library : Library Θ) (serde : Serde)

section

variable (request : FoundryTransactionRequest Θ)

def isDeposit : Bool := request.inner.transactionType = some depositTxTypeId

def isTempo : Bool :=
  request.inner.transactionType = some tempoTxTypeId || (request.other.lookup "feeToken").isSome ||
    (request.other.lookup "nonceKey").isSome

def getTempoFeeToken : Option Address := getDeserialized serde.asAddress request.other "feeToken"

def getTempoNonceKey : U256 := (getDeserialized serde.asU256 request.other "nonceKey").getD 0

def completeTempo : Except (List String) Unit :=
  let missing := missingIf request.inner.chainId.isNone "chain_id" ++
    missingIf request.inner.gas.isNone "gas_limit" ++
    missingIf request.inner.maxFeePerGas.isNone "max_fee_per_gas" ++
    missingIf request.inner.maxPriorityFeePerGas.isNone "max_priority_fee_per_gas" ++
    missingIf request.inner.nonce.isNone "nonce"
  if missing = [] then .ok () else .error missing

def preferredType : FoundryTxType :=
  if request.isDeposit then .deposit
  else if request.isTempo then .tempo
  else (library.preferredType request.inner).toFoundry

/-- The library's check, without the sidecar. -/
def complete4844 : Except (List String) Unit :=
  match library.complete .eip4844 request.inner with
  | .ok () => .ok ()
  | .error missing =>
    let filtered := missing.filter (· ≠ "sidecar")
    if filtered = [] then .ok () else .error filtered

def completeDeposit : Option (Except (List String) Unit) :=
  (getDepositTxParts serde request.other).map fun parts => parts.map fun _ => ()

/-- The check for a type. The callers differ in the one for blob transactions. -/
def completeFor (complete4844 : Except (List String) Unit) :
    FoundryTxType → Option (Except (List String) Unit)
  | .legacy => some (library.complete .legacy request.inner)
  | .eip2930 => some (library.complete .eip2930 request.inner)
  | .eip1559 => some (library.complete .eip1559 request.inner)
  | .eip4844 => some complete4844
  | .eip7702 => some (library.complete .eip7702 request.inner)
  | .deposit => request.completeDeposit serde
  | .tempo => some request.completeTempo

/-- `buildable_type`, with the library's own check for blob transactions. -/
def buildableType : Option (Option FoundryTxType) :=
  let preferred := request.preferredType library
  match request.completeFor library serde (library.complete .eip4844 request.inner) preferred with
  | none => none
  | some (.ok ()) => some (some preferred)
  | some (.error _) => some none

/-- `missing_keys`, which does not ask for the sidecar. -/
def missingKeys : Option (Except (FoundryTxType × List String) FoundryTxType) :=
  let preferred := request.preferredType library
  match request.completeFor library serde (request.complete4844 library) preferred with
  | none => none
  | some (.ok ()) => some (.ok preferred)
  | some (.error missing) => some (.error (preferred, missing))

def canBuild : Option Bool :=
  if library.canBuild request.inner then some true
  else
    match getDepositTxParts serde request.other with
    | none => none
    | some (.ok _) => some true
    | some (.error _) => some (request.completeTempo matches .ok ())

/-- A deposit from the parts and the request. -/
def depositTx (parts : DepositTransactionParts) : TxDeposit where
  sourceHash := parts.sourceHash
  sender := request.inner.sender.getD 0
  kind := request.inner.kind.getD .create
  mint := parts.mint.getD 0
  value := request.inner.value.getD 0
  gasLimit := request.inner.gas.getD 0
  isSystemTransaction := parts.isSystemTransaction
  input := request.inner.input.get.getD []

/-- A Tempo transaction with one call. -/
def tempoTx : TempoTransaction Θ where
  chainId := request.inner.chainId.getD 0
  feeToken := request.getTempoFeeToken serde
  maxFeePerGas := request.inner.maxFeePerGas.getD 0
  maxPriorityFeePerGas := request.inner.maxPriorityFeePerGas.getD 0
  gasLimit := request.inner.gas.getD 0
  nonceKey := request.getTempoNonceKey serde
  nonce := request.inner.nonce.getD 0
  calls := [⟨request.inner.kind.getD .create, request.inner.value.getD 0,
    request.inner.input.get.getD []⟩]
  accessList := request.inner.accessList.getD Θ.emptyAccessList
  feePayerSignature := none
  validBefore := none
  validAfter := none
  keyAuthorization := none
  tempoAuthorizationList := []

/-- A request without additional fields. -/
def ofInner (inner : TransactionRequest Θ) : FoundryTransactionRequest Θ := ⟨inner, ∅⟩

/-- The Ethereum transaction, with or without the sidecar. -/
def buildEthereum : Except (FoundryTransactionRequest Θ) (FoundryTypedTx Θ) :=
  if library.hasEip4844Fields request.inner && request.inner.sidecar.isNone then
    match library.build4844WithoutSidecar request.inner with
    | .ok tx => .ok (.eip4844 tx)
    | .error inner => .error (.ofInner inner)
  else
    match library.buildTypedTx request.inner with
    | .ok tx => .ok (.ofEthereum tx)
    | .error inner => .error (.ofInner inner)

def buildTypedTx : Option (Except (FoundryTransactionRequest Θ) (FoundryTypedTx Θ)) :=
  match getDepositTxParts serde request.other with
  | none => none
  | some (.ok parts) => some (.ok (.deposit (request.depositTx parts)))
  | some (.error _) =>
    if request.isTempo then some (.ok (.tempo (request.tempoTx serde)))
    else some (request.buildEthereum library)

/-- `build_unsigned`, which expects to build what `missing_keys` has found complete. The error has
the request, unchanged, and the keys that it lacks for its type. -/
def buildUnsigned : Option (Except (FoundryTransactionRequest Θ × FoundryTxType × List String)
    (FoundryTypedTx Θ)) :=
  match request.missingKeys library serde with
  | none => none
  | some (.error missing) => some (.error (request, missing))
  | some (.ok _) =>
    match request.buildTypedTx library serde with
    | some (.ok tx) => some (.ok tx)
    | _ => none

end

end FoundryTransactionRequest

/-! ### An instance -/

/-- There is one Ethereum transaction of each type. -/
def plainTypes : Types := ⟨fun _ => Unit, Unit, Unit, Unit, Unit, Unit, Unit, ()⟩

namespace Plain

variable (request : TransactionRequest plainTypes)

def hasEip4844Fields : Bool :=
  request.sidecar.isSome || request.blobVersionedHashes.isSome || request.maxFeePerBlobGas.isSome

def preferredType : TxType :=
  if request.authorizationList.isSome then .eip7702
  else if hasEip4844Fields request then .eip4844
  else if request.maxFeePerGas.isSome || request.maxPriorityFeePerGas.isSome then .eip1559
  else if request.gasPrice.isNone then .eip1559
  else if request.accessList.isSome then .eip2930
  else .legacy

def missing (ty : TxType) : List String :=
  missingIf request.nonce.isNone "nonce" ++ missingIf request.gas.isNone "gas_limit" ++
    missingIf request.kind.isNone "to" ++
    match ty with
    | .legacy => missingIf request.gasPrice.isNone "gas_price"
    | .eip2930 => missingIf request.gasPrice.isNone "gas_price" ++
        missingIf request.accessList.isNone "access_list"
    | .eip1559 => fees
    | .eip4844 => fees ++ missingIf request.sidecar.isNone "sidecar" ++
        missingIf request.maxFeePerBlobGas.isNone "max_fee_per_blob_gas"
    | .eip7702 => fees ++ missingIf request.authorizationList.isNone "authorization_list"
where
  fees := missingIf request.maxFeePerGas.isNone "max_fee_per_gas" ++
    missingIf request.maxPriorityFeePerGas.isNone "max_priority_fee_per_gas"

def complete (ty : TxType) : Except (List String) Unit :=
  if missing request ty = [] then .ok () else .error (missing request ty)

theorem complete_eq_ok {ty : TxType} : complete request ty = .ok () ↔ missing request ty = [] := by
  unfold complete
  split <;> simp_all

theorem complete_eq_error {ty : TxType} {keys : List String} :
    complete request ty = .error keys ↔ missing request ty ≠ [] ∧ missing request ty = keys := by
  unfold complete
  split <;> simp_all

theorem sidecar_mem_missing : "sidecar" ∈ missing request .eip4844 ↔ request.sidecar = none := by
  have hkey : ∀ (isMissing : Bool) (key : String), "sidecar" ∈ missingIf isMissing key ↔
      isMissing = true ∧ key = "sidecar" := by
    intro isMissing key
    cases isMissing <;> simp [missingIf, eq_comm]
  simp [missing, missing.fees, hkey]

end Plain

/-- A library that builds a transaction if no key is missing for it. -/
def plainLibrary : Library plainTypes where
  preferredType := Plain.preferredType
  complete ty request := Plain.complete request ty
  canBuild request := Plain.missing request (Plain.preferredType request) = []
  hasEip4844Fields := Plain.hasEip4844Fields
  buildTypedTx request :=
    match Plain.complete request (Plain.preferredType request) with
    | .ok () => .ok ⟨Plain.preferredType request, ()⟩
    | .error _ => .error request
  build4844WithoutSidecar request :=
    if request.blobVersionedHashes.isSome then .ok () else .error request
  builds request h := ⟨(), by rw [h]⟩
  preferredType_of_fields request h := by
    by_cases hauthorization : request.authorizationList.isSome
    · exact .inr (if_pos hauthorization)
    · exact .inl (by rw [Plain.preferredType, if_neg hauthorization, if_pos h])
  sidecar_of_complete request h := by
    rw [Plain.complete_eq_ok] at h
    rw [Option.isSome_iff_ne_none, Ne, ← Plain.sidecar_mem_missing, h]
    exact List.not_mem_nil
  missing_ne_nil request keys h := by
    rw [Plain.complete_eq_error] at h
    exact h.2 ▸ h.1
  sidecar_missing request keys h hmem := by
    rw [Plain.complete_eq_error] at h
    exact (Plain.sidecar_mem_missing request).mp (h.2 ▸ hmem)

/-- Reads a number that is written in decimal. -/
def decimal : Value → Option Nat
  | .string s => some (Nat.ofDigitChars 10 s.toList 0)
  | _ => none

theorem decimal_toString (n : Nat) : decimal (.string (toString n)) = some n := by
  simp [decimal, Nat.ofDigitChars_toDigits]

/-- Everything is written in decimal. -/
def decimalSerde : Serde where
  asB256 value := (decimal value).map (BitVec.ofNat 256)
  asU256 value := (decimal value).map (BitVec.ofNat 256)
  asAddress value := (decimal value).map (BitVec.ofNat 160)
  ofU256 n := .string (toString n.toNat)
  ofAddress a := .string (toString a.toNat)
  showB256 h := toString h.toNat
  showU128 n := toString n.toNat
  asU256_ofU256 n := by
    rw [decimal_toString, Option.map_some, BitVec.ofNat_toNat, BitVec.setWidth_eq]
  asAddress_ofAddress a := by
    rw [decimal_toString, Option.map_some, BitVec.ofNat_toNat, BitVec.setWidth_eq]
  asB256_show h := by rw [decimal_toString, Option.map_some, BitVec.ofNat_toNat, BitVec.setWidth_eq]
  asU256_show n := by rw [decimal_toString, Option.map_some, BitVec.ofNat_toNat]

end BaseAnvil.Primitives

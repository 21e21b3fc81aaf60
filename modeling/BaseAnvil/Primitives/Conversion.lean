import BaseAnvil.Primitives.Request

/-!
# BaseAnvil.Primitives.Conversion

Requests made from transactions (`From<FoundryTypedTx> for FoundryTransactionRequest`), and what is
built from them.

A deposit's fields travel as JSON, and the flag of system transactions is written as a string, which
is not read as a boolean. So no deposit comes back (`not_deposit_of_ofDeposit`). A Tempo transaction
loses its calls but the first, and the fields that a request does not have: what is built of it is
`TempoTransaction.flatten` (`buildTypedTx_ofTempo`). `kept_iff_flat` says which transactions are not
changed.
-/

namespace BaseAnvil.Primitives

open FoundryTypedTx FoundryTransactionRequest FoundryTxType

/-! ### The library's conversions -/

/-- Requests for transactions, and what the library builds from them. -/
structure Conversions {Θ : Types} (library : Library Θ) where
  ofTx : {ty : TxType} → Θ.Tx ty → TransactionRequest Θ
  ofDeposit : TxDeposit → TransactionRequest Θ
  ofTx_type : ∀ {ty : TxType} (tx : Θ.Tx ty), (ofTx tx).transactionType ≠ some tempoTxTypeId
  /-- Only blob transactions have fields for blobs. -/
  ofTx_fields : ∀ {ty : TxType} (tx : Θ.Tx ty), library.hasEip4844Fields (ofTx tx) → ty = .eip4844
  buildTypedTx_ofTx : ∀ {ty : TxType} (tx : Θ.Tx ty),
    (ty = .eip4844 → (ofTx tx).sidecar.isSome) → library.buildTypedTx (ofTx tx) = .ok ⟨ty, tx⟩
  build4844_ofTx : ∀ tx : Θ.Tx .eip4844, (ofTx tx).sidecar = none →
    library.hasEip4844Fields (ofTx tx) ∧ library.build4844WithoutSidecar (ofTx tx) = .ok tx
  ofDeposit_eq : ∀ tx : TxDeposit, (ofDeposit tx).sender = some tx.sender ∧
    (ofDeposit tx).kind = some tx.kind ∧ (ofDeposit tx).value = some tx.value ∧
      (ofDeposit tx).gas = some tx.gasLimit ∧ (ofDeposit tx).input.get = some tx.input

variable {Θ : Types} {library : Library Θ} (conversions : Conversions library) (serde : Serde)

namespace FoundryTransactionRequest

/-- The additional fields of a deposit, with the given value for the flag. -/
def depositFields (tx : TxDeposit) (isSystemTx : Value) : OtherFields :=
  (((∅ : OtherFields).insert "sourceHash" (.string (serde.showB256 tx.sourceHash))).insert "mint"
    (.string (serde.showU128 tx.mint))).insert "isSystemTx" isSystemTx

def ofDeposit (tx : TxDeposit) : FoundryTransactionRequest Θ :=
  ⟨conversions.ofDeposit tx,
    depositFields serde tx (.string (if tx.isSystemTransaction then "true" else "false"))⟩

def tempoFields (tx : TempoTransaction Θ) : OtherFields :=
  let other : OtherFields := match tx.feeToken with
    | some feeToken => (∅ : OtherFields).insert "feeToken" (serde.ofAddress feeToken)
    | none => ∅
  other.insert "nonceKey" (serde.ofU256 tx.nonceKey)

/-- The request has room for one call. -/
def ofTempo (tx : TempoTransaction Θ) : FoundryTransactionRequest Θ :=
  let firstCall := tx.calls.head?.getD default
  ⟨{ TransactionRequest.empty with
      chainId := some tx.chainId
      nonce := some tx.nonce
      gas := some tx.gasLimit
      maxFeePerGas := some tx.maxFeePerGas
      maxPriorityFeePerGas := some tx.maxPriorityFeePerGas
      kind := some firstCall.kind
      value := some firstCall.value
      input := ⟨some firstCall.input, none⟩
      accessList := some tx.accessList
      transactionType := some tempoTxTypeId }, tempoFields serde tx⟩

/-- `From<FoundryTypedTx>`. -/
def ofTypedTx : FoundryTypedTx Θ → FoundryTransactionRequest Θ
  | .legacy tx => .ofInner (conversions.ofTx tx)
  | .eip2930 tx => .ofInner (conversions.ofTx tx)
  | .eip1559 tx => .ofInner (conversions.ofTx tx)
  | .eip4844 tx => .ofInner (conversions.ofTx tx)
  | .eip7702 tx => .ofInner (conversions.ofTx tx)
  | .deposit tx => ofDeposit conversions serde tx
  | .tempo tx => ofTempo serde tx

end FoundryTransactionRequest

namespace FoundryTypedTx

/-- The way to a request and back does not change a transaction, and succeeds for deposits. -/
structure Kept (tx : FoundryTypedTx Θ) : Prop where
  same : ∀ tx',
    (FoundryTransactionRequest.ofTypedTx conversions serde tx).buildTypedTx library serde =
    some (.ok tx') → tx' = tx
  deposit : tx.txType = .deposit →
    ∃ tx', (FoundryTransactionRequest.ofTypedTx conversions serde tx).buildTypedTx library serde =
      some (.ok tx')

end FoundryTypedTx

/-- A Tempo transaction with one call, and with nothing that a request has no field for. -/
structure TempoTransaction.Flat (tx : TempoTransaction Θ) : Prop where
  calls : tx.calls.length = 1
  feePayerSignature : tx.feePayerSignature = none
  validBefore : tx.validBefore = none
  validAfter : tx.validAfter = none
  keyAuthorization : tx.keyAuthorization = none
  tempoAuthorizationList : tx.tempoAuthorizationList = []

variable {conversions serde}

namespace FoundryTransactionRequest

/-! ### Ethereum transactions -/

/-- Without the fields of a deposit, no deposit is built. -/
theorem getDepositTxParts_of_missing {other : OtherFields} (hmint : other.lookup "mint" = none)
    (hsource : other.lookup "sourceHash" = none) :
    ∃ missing, getDepositTxParts serde other = some (.error missing) := by
  simp [getDepositTxParts, getMint, getDeserialized, hmint, hsource, missingIf]

theorem buildTypedTx_ofInner {inner : TransactionRequest Θ}
    (htype : inner.transactionType ≠ some tempoTxTypeId) :
    (ofInner inner).buildTypedTx library serde = some ((ofInner inner).buildEthereum library) := by
  obtain ⟨missing, hparts⟩ := @getDepositTxParts_of_missing serde ∅ (by simp) (by simp)
  have htempo : ¬(ofInner inner).isTempo := by simp [isTempo, ofInner, htype]
  simp only [buildTypedTx, ofInner] at hparts ⊢
  rw [hparts]
  exact if_neg htempo

/-- An Ethereum transaction comes back. -/
theorem buildTypedTx_ofTx {ty : TxType} (tx : Θ.Tx ty) :
    (ofInner (conversions.ofTx tx)).buildTypedTx library serde =
      some (.ok (.ofEthereum ⟨ty, tx⟩)) := by
  rw [buildTypedTx_ofInner (conversions.ofTx_type tx), Option.some.injEq]
  by_cases hblob : ty = .eip4844 ∧ (conversions.ofTx tx).sidecar = none
  · obtain ⟨rfl, hsidecar⟩ := hblob
    obtain ⟨hfields, hbuild⟩ := conversions.build4844_ofTx tx hsidecar
    have hbranch : (library.hasEip4844Fields (conversions.ofTx tx) &&
        (conversions.ofTx tx).sidecar.isNone) = true := by
      simp [hfields, hsidecar]
    simp only [buildEthereum, ofInner, if_pos hbranch, hbuild]
    rfl
  · have hbuild := conversions.buildTypedTx_ofTx tx fun hty => by
      by_contra hnone
      exact hblob ⟨hty, by simpa using hnone⟩
    have hbranch : ¬(library.hasEip4844Fields (conversions.ofTx tx) &&
        (conversions.ofTx tx).sidecar.isNone) = true := by
      intro h
      obtain ⟨hfields, hnone⟩ := (Bool.and_eq_true _ _).mp h
      exact hblob ⟨conversions.ofTx_fields tx hfields, Option.isNone_iff_eq_none.mp hnone⟩
    simp only [buildEthereum, ofInner, if_neg hbranch, hbuild]

/-! ### Deposits -/

theorem lookup_depositFields (tx : TxDeposit) (isSystemTx : Value) :
    (depositFields serde tx isSystemTx).lookup "sourceHash" =
        some (.string (serde.showB256 tx.sourceHash)) ∧
      (depositFields serde tx isSystemTx).lookup "mint" =
        some (.string (serde.showU128 tx.mint)) ∧
      (depositFields serde tx isSystemTx).lookup "isSystemTx" = some isSystemTx := by
  simp [depositFields]

theorem getMint_depositFields (tx : TxDeposit) (isSystemTx : Value) :
    getMint serde (depositFields serde tx isSystemTx) = some (some tx.mint, false) := by
  obtain ⟨-, hmint, -⟩ := @lookup_depositFields serde tx isSystemTx
  have hlt : (tx.mint.setWidth 256).toNat < 2 ^ 128 := by
    rw [BitVec.toNat_setWidth, Nat.mod_eq_of_lt (by have := tx.mint.isLt; omega)]
    exact tx.mint.isLt
  rw [getMint, hmint]
  simp only [serde.asU256_show, if_pos hlt]
  rw [BitVec.setWidth_setWidth_of_le _ (by decide), BitVec.setWidth_eq]

/-- The library builds no deposits. -/
theorem buildEthereum_ne_deposit {request : FoundryTransactionRequest Θ} {tx : FoundryTypedTx Θ}
    (h : request.buildEthereum library = .ok tx) : tx.txType ≠ .deposit := by
  unfold buildEthereum at h
  split at h
  · cases hbuild : library.build4844WithoutSidecar request.inner with
    | ok tx' =>
      rw [hbuild] at h
      cases h
      exact noConfusion
    | error inner =>
      rw [hbuild] at h
      cases h
  · cases hbuild : library.buildTypedTx request.inner with
    | ok tx' =>
      rw [hbuild] at h
      cases h
      rw [txType_ofEthereum]
      cases tx'.1 <;> exact noConfusion
    | error inner =>
      rw [hbuild] at h
      cases h

/-- But a string is not a boolean, so no deposit is built. -/
theorem not_deposit_of_ofDeposit {tx : TxDeposit} {tx' : FoundryTypedTx Θ}
    (h : (ofDeposit conversions serde tx).buildTypedTx library serde = some (.ok tx')) :
    tx'.txType ≠ .deposit := by
  have hparts : ∃ missing, getDepositTxParts serde (ofDeposit conversions serde tx).other =
      some (.error missing) := by
    simp [ofDeposit, getDepositTxParts, getMint_depositFields, getDeserialized, Value.asBool,
      lookup_depositFields, missingIf]
  obtain ⟨missing, hparts⟩ := hparts
  rw [buildTypedTx, hparts] at h
  simp only at h
  split at h
  · cases h
    exact noConfusion
  · exact buildEthereum_ne_deposit (Option.some.inj h)

/-! ### Tempo transactions -/

theorem lookup_tempoFields (tx : TempoTransaction Θ) :
    (tempoFields serde tx).lookup "nonceKey" = some (serde.ofU256 tx.nonceKey) ∧
      (tempoFields serde tx).lookup "feeToken" = tx.feeToken.map serde.ofAddress ∧
      (tempoFields serde tx).lookup "mint" = none ∧
      (tempoFields serde tx).lookup "sourceHash" = none := by
  cases h : tx.feeToken <;> simp [tempoFields, h]

/-- What is left of a Tempo transaction: one call, and the fields that a request has. -/
def flatten (tx : TempoTransaction Θ) : TempoTransaction Θ :=
  { tx with
    calls := [tx.calls.head?.getD default]
    feePayerSignature := none
    validBefore := none
    validAfter := none
    keyAuthorization := none
    tempoAuthorizationList := [] }

theorem buildTypedTx_ofTempo :
    (ofTempo serde tx).buildTypedTx library serde = some (.ok (.tempo (flatten tx))) := by
  obtain ⟨hnonceKey, hfeeToken, hmint, hsource⟩ := @lookup_tempoFields Θ serde tx
  obtain ⟨missing, hparts⟩ := @getDepositTxParts_of_missing serde _ hmint hsource
  have htempo : (ofTempo serde tx).isTempo := by simp [isTempo, ofTempo]
  have hother : (ofTempo serde tx).other = tempoFields serde tx := rfl
  have htoken : (ofTempo serde tx).getTempoFeeToken serde = tx.feeToken := by
    rw [getTempoFeeToken, hother, getDeserialized, hfeeToken]
    cases tx.feeToken <;> simp [serde.asAddress_ofAddress]
  have hkey : (ofTempo serde tx).getTempoNonceKey serde = tx.nonceKey := by
    simp [getTempoNonceKey, hother, getDeserialized, hnonceKey, serde.asU256_ofU256]
  have htx : (ofTempo serde tx).tempoTx serde = flatten tx := by
    rw [tempoTx, htoken, hkey]
    rfl
  rw [buildTypedTx, hother, hparts]
  simp only [htempo, if_true, htx]

end FoundryTransactionRequest

theorem TempoTransaction.flatten_eq_iff (tx : TempoTransaction Θ) :
    flatten tx = tx ↔ tx.Flat := by
  obtain ⟨chainId, feeToken, priority, fee, gas, calls, list, key, nonce, signature, before, after,
    authorization, authorizations⟩ := tx
  have hcalls : [calls.head?.getD default] = calls ↔ calls.length = 1 := by
    cases calls with
    | nil => simp
    | cons call rest => simp [eq_comm]
  simp only [flatten, TempoTransaction.mk.injEq, hcalls, true_and]
  constructor
  · rintro ⟨h₁, h₂, h₃, h₄, h₅, h₆⟩
    exact ⟨h₁, h₂.symm, h₃.symm, h₄.symm, h₅.symm, h₆.symm⟩
  · intro h
    exact ⟨h.calls, h.feePayerSignature.symm, h.validBefore.symm, h.validAfter.symm,
      h.keyAuthorization.symm, h.tempoAuthorizationList.symm⟩

/-! ### All transactions -/

namespace FoundryTypedTx

open FoundryTransactionRequest

theorem kept_of_built {tx : FoundryTypedTx Θ} (h : (ofTypedTx conversions serde tx).buildTypedTx
    library serde = some (.ok tx)) : tx.Kept conversions serde := by
  refine ⟨fun tx' h' => ?_, fun _ => ⟨tx, h⟩⟩
  rw [h] at h'
  cases h'
  rfl

theorem not_kept_deposit (tx : TxDeposit) :
    ¬(deposit tx : FoundryTypedTx Θ).Kept conversions serde := by
  intro hkept
  obtain ⟨tx', htx'⟩ := hkept.deposit rfl
  have hne := not_deposit_of_ofDeposit htx'
  rw [hkept.same tx' htx'] at hne
  exact hne rfl

theorem kept_tempo_iff :
    (tempo tx).Kept conversions serde ↔ tx.Flat := by
  have hbuilt : (ofTypedTx conversions serde (.tempo tx)).buildTypedTx library serde =
      some (.ok (.tempo (flatten tx))) := buildTypedTx_ofTempo
  rw [← tx.flatten_eq_iff]
  constructor
  · intro hkept
    exact tempo.inj (hkept.same _ hbuilt)
  · intro hflat
    rw [hflat] at hbuilt
    exact kept_of_built hbuilt

/-- **To a request and back.** Ethereum transactions are kept, no deposit is, and Tempo transactions
are if they are flat. The flag of a deposit is written as a string and read as a boolean. -/
theorem kept_iff_flat (conversions : Conversions library) (serde : Serde) (tx : FoundryTypedTx Θ) :
    tx.Kept conversions serde ↔
      tx.txType ≠ .deposit ∧ ∀ tempoTx, tx = .tempo tempoTx → tempoTx.Flat := by
  cases tx with
  | deposit tx => simp [not_kept_deposit, txType]
  | tempo tx => simp [kept_tempo_iff, txType]
  | legacy tx | eip2930 tx | eip1559 tx | eip4844 tx | eip7702 tx =>
    simpa [txType] using kept_of_built (buildTypedTx_ofTx tx)

end FoundryTypedTx

/-- A request for each transaction of the library above. -/
def plainRequest : TxType → TransactionRequest plainTypes
  | .legacy => { base with gasPrice := some 1 }
  | .eip2930 => { base with gasPrice := some 1, accessList := some () }
  | .eip1559 => fees
  | .eip4844 => { fees with maxFeePerBlobGas := some 1, sidecar := some () }
  | .eip7702 => { fees with authorizationList := some [] }
where
  base := { TransactionRequest.empty with
    kind := some (.call 0), nonce := some 0, gas := some 21000 }
  fees := { base with maxFeePerGas := some 1, maxPriorityFeePerGas := some 1 }

def plainConversions : Conversions plainLibrary where
  ofTx {ty} _ := plainRequest ty
  ofDeposit tx := { TransactionRequest.empty with
    sender := some tx.sender
    kind := some tx.kind
    value := some tx.value
    gas := some tx.gasLimit
    input := ⟨some tx.input, none⟩ }
  ofTx_type {ty} _ := by cases ty <;> decide
  ofTx_fields {ty} _ := by cases ty <;> decide
  buildTypedTx_ofTx {ty} _ _ := by cases ty <;> rfl
  build4844_ofTx _ h := by cases h
  ofDeposit_eq _ := ⟨rfl, rfl, rfl, rfl, rfl⟩

/-- A deposit of nothing. -/
def plainDeposit : TxDeposit := ⟨0, 0, .create, 0, 0, 0, false, []⟩

/-- A Tempo transaction with the given calls. -/
def plainTempo (calls : List Call) : TempoTransaction plainTypes :=
  ⟨1, none, 1, 1, 21000, calls, (), 0, 0, none, none, none, none, []⟩

open FoundryTransactionRequest in
/-- A deposit does not come back, and of two calls one does. -/
theorem not_kept :
    (∀ tx, (ofTypedTx plainConversions decimalSerde (.deposit plainDeposit)).buildTypedTx
        plainLibrary decimalSerde ≠ some (.ok tx)) ∧
      (ofTypedTx plainConversions decimalSerde
        (.tempo (plainTempo [default, default]))).buildTypedTx plainLibrary decimalSerde =
          some (.ok (.tempo (plainTempo [default]))) ∧
      ¬(FoundryTypedTx.deposit plainDeposit).Kept plainConversions decimalSerde ∧
      ¬(FoundryTypedTx.tempo (plainTempo [default, default])).Kept plainConversions
        decimalSerde := by
  refine ⟨?_, buildTypedTx_ofTempo, not_kept_deposit _, ?_⟩
  · intro tx h
    have hfailed : (ofTypedTx plainConversions decimalSerde (.deposit plainDeposit)).buildTypedTx
        plainLibrary decimalSerde =
          some (.error (.ofInner (plainConversions.ofDeposit plainDeposit))) := rfl
    rw [hfailed] at h
    cases h
  · rw [kept_tempo_iff]
    exact fun hflat => absurd hflat.calls (by decide)

end BaseAnvil.Primitives

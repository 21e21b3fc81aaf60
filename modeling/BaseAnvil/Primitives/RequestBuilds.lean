import BaseAnvil.Primitives.Request

/-!
# BaseAnvil.Primitives.RequestBuilds

Whether the checks for missing keys agree with building.

Four functions look at a request, and each of them looks at something else. `missing_keys` does not
ask for the sidecar of a blob transaction, but `buildable_type` does. `build_typed_tx` goes by the
additional fields and by the fields for blobs rather than by the preferred type. And the mint is
read as a number of 256 bits, whose conversion to 128 bits may panic. `agrees_iff_consistent` says
which requests are not affected.
-/

namespace BaseAnvil.Primitives

section

variable (serde : Serde) (other : OtherFields)

/-- The mint has at most 128 bits. -/
def MintFits : Prop :=
  ∀ value, other.lookup "mint" = some value → ∀ n, serde.asU256 value = some n → n.toNat < 2 ^ 128

/-- The additional fields of a deposit. The mint may be missing. -/
structure DepositFields : Prop where
  sourceHash : (getDeserialized serde.asB256 other "sourceHash").isSome
  mint : ∀ value, other.lookup "mint" = some value → (serde.asU256 value).isSome
  isSystemTx : (getDeserialized Value.asBool other "isSystemTx").isSome

end

/-- The keys of a Tempo transaction. -/
structure TempoKeys {Θ : Types} (inner : TransactionRequest Θ) : Prop where
  chainId : inner.chainId.isSome
  gas : inner.gas.isSome
  maxFeePerGas : inner.maxFeePerGas.isSome
  maxPriorityFeePerGas : inner.maxPriorityFeePerGas.isSome
  nonce : inner.nonce.isSome

namespace FoundryTransactionRequest

variable {Θ : Types} (library : Library Θ) (serde : Serde) (request : FoundryTransactionRequest Θ)

/-- All keys are there for a type, where `blob` says so for blob transactions. -/
def KeysFor (blob : Prop) : FoundryTxType → Prop
  | .legacy => library.complete .legacy request.inner = .ok ()
  | .eip2930 => library.complete .eip2930 request.inner = .ok ()
  | .eip1559 => library.complete .eip1559 request.inner = .ok ()
  | .eip4844 => blob
  | .eip7702 => library.complete .eip7702 request.inner = .ok ()
  | .deposit => DepositFields serde request.other
  | .tempo => TempoKeys request.inner

/-- Nothing is missing for a blob transaction but maybe the sidecar. -/
def BlobKeys : Prop :=
  ∀ missing, library.complete .eip4844 request.inner = .error missing →
    ∀ key ∈ missing, key = "sidecar"

/-- All keys are there for the preferred type, except for the sidecar. -/
def HasKeys : Prop :=
  request.KeysFor library serde (request.BlobKeys library) (request.preferredType library)

/-- The checks agree with each other and with building, and nothing panics. -/
structure Agrees : Prop where
  buildable : ∀ ty, request.buildableType library serde = some (some ty) ↔
    request.missingKeys library serde = some (.ok ty)
  builds : ∀ ty, request.missingKeys library serde = some (.ok ty) →
    ∃ tx, request.buildUnsigned library serde = some (.ok tx) ∧ tx.txType = ty
  buildableType : request.buildableType library serde ≠ none
  missingKeys : request.missingKeys library serde ≠ none
  canBuild : request.canBuild library serde ≠ none
  buildUnsigned : request.buildUnsigned library serde ≠ none

/-- What the four functions look at leads to the same type. -/
structure Consistent : Prop where
  /-- The mint fits, or nothing reads it. -/
  mint : MintFits serde request.other ∨
    (¬request.isDeposit ∧ library.canBuild request.inner ∧ ¬request.HasKeys library serde)
  /-- Only deposits have the fields of deposits. -/
  deposit : request.HasKeys library serde → DepositFields serde request.other → request.isDeposit
  /-- A blob transaction has the sidecar. -/
  sidecar : request.HasKeys library serde → request.preferredType library = .eip4844 →
    request.inner.sidecar.isSome
  /-- Authorizations do not come with fields for blobs. -/
  blob : request.HasKeys library serde → request.preferredType library = .eip7702 →
    library.hasEip4844Fields request.inner → request.inner.sidecar.isSome

end FoundryTransactionRequest

/-! ### The additional fields -/

section

variable {serde : Serde} {other : OtherFields}

/-- The mint is read without panic if it fits. -/
theorem getMint_eq_none_iff : getMint serde other = none ↔ ¬MintFits serde other := by
  unfold getMint MintFits
  cases hvalue : other.lookup "mint" with
  | none => simp
  | some value =>
    cases hread : serde.asU256 value with
    | none => simp [hread]
    | some n => simp [hread]

theorem getMint_missing {mint : Option (BitVec 128)} {missing : Bool}
    (h : getMint serde other = some (mint, missing)) :
    missing = false ↔ ∀ value, other.lookup "mint" = some value → (serde.asU256 value).isSome := by
  unfold getMint at h
  cases hvalue : other.lookup "mint" with
  | none =>
    simp only [hvalue, Option.some.injEq, Prod.mk.injEq] at h
    simp [← h.2]
  | some value =>
    cases hread : serde.asU256 value with
    | none =>
      simp only [hvalue, hread, Option.some.injEq, Prod.mk.injEq] at h
      simp [← h.2, hread]
    | some n =>
      simp only [hvalue, hread] at h
      split at h
      · cases h
        simp [hread]
      · cases h

theorem getDepositTxParts_eq_none (hfits : ¬MintFits serde other) :
    getDepositTxParts serde other = none := by
  simp only [getDepositTxParts, getMint_eq_none_iff.mpr hfits]

/-- The parts of a deposit, or what is missing of them. -/
theorem getDepositTxParts_cases (hfits : MintFits serde other) :
    (DepositFields serde other ∧ ∃ parts, getDepositTxParts serde other = some (.ok parts)) ∨
      (¬DepositFields serde other ∧
        ∃ missing, getDepositTxParts serde other = some (.error missing)) := by
  cases hmint : getMint serde other with
  | none => exact absurd hfits (getMint_eq_none_iff.mp hmint)
  | some result =>
    obtain ⟨mint, missing⟩ := result
    have hmissing := getMint_missing hmint
    by_cases hdeposit : DepositFields serde other
    · refine .inl ⟨hdeposit, ?_⟩
      have hfalse := hmissing.mpr hdeposit.mint
      simp only [getDepositTxParts, hmint]
      rw [if_pos]
      · exact ⟨_, rfl⟩
      · simp [hfalse, hdeposit.sourceHash, hdeposit.isSystemTx, Option.isNone_eq_false_iff]
    · refine .inr ⟨hdeposit, ?_⟩
      simp only [getDepositTxParts, hmint]
      rw [if_neg]
      · exact ⟨_, rfl⟩
      · intro hnil
        simp only [List.append_eq_nil_iff, missingIf_eq_nil, Option.isNone_eq_false_iff] at hnil
        exact hdeposit ⟨hnil.1.1, hmissing.mp hnil.1.2, hnil.2⟩

end

namespace FoundryTransactionRequest

variable {Θ : Types} {library : Library Θ} {serde : Serde} {request : FoundryTransactionRequest Θ}

/-! ### The checks -/

theorem completeDeposit_eq (hfits : MintFits serde request.other) :
    ∃ result, request.completeDeposit serde = some result ∧
      (DepositFields serde request.other ↔ result = .ok ()) := by
  obtain ⟨hfields, parts, heq⟩ | ⟨hfields, missing, heq⟩ := getDepositTxParts_cases hfits
  · exact ⟨.ok (), by rw [completeDeposit, heq]; rfl, by simp [hfields]⟩
  · exact ⟨.error missing, by rw [completeDeposit, heq]; rfl, by simp [hfields]⟩

theorem completeTempo_eq_ok : TempoKeys request.inner ↔ request.completeTempo = .ok () := by
  unfold completeTempo
  simp only [List.append_eq_nil_iff, missingIf_eq_nil, Option.isNone_eq_false_iff]
  split
  next h => simp [TempoKeys.mk h.1.1.1.1 h.1.1.1.2 h.1.1.2 h.1.2 h.2]
  next h =>
    simp only [reduceCtorEq, iff_false]
    exact fun hkeys => h ⟨⟨⟨⟨hkeys.chainId, hkeys.gas⟩, hkeys.maxFeePerGas⟩,
      hkeys.maxPriorityFeePerGas⟩, hkeys.nonce⟩

theorem complete4844_eq_ok : request.BlobKeys library ↔ request.complete4844 library = .ok () := by
  unfold complete4844 BlobKeys
  cases library.complete .eip4844 request.inner with
  | ok u => simp
  | error missing => simp [List.filter_eq_nil_iff]

/-- A check that does not panic says whether the keys are there. -/
theorem completeFor_eq {complete4844 : Except (List String) Unit} {blob : Prop}
    (hblob : blob ↔ complete4844 = .ok ()) {ty : FoundryTxType}
    (hfits : ty = .deposit → MintFits serde request.other) :
    ∃ result, request.completeFor library serde complete4844 ty = some result ∧
      (request.KeysFor library serde blob ty ↔ result = .ok ()) := by
  cases ty with
  | deposit => exact completeDeposit_eq (hfits rfl)
  | tempo => exact ⟨_, rfl, completeTempo_eq_ok⟩
  | eip4844 => exact ⟨_, rfl, hblob⟩
  | legacy => exact ⟨_, rfl, Iff.rfl⟩
  | eip2930 => exact ⟨_, rfl, Iff.rfl⟩
  | eip1559 => exact ⟨_, rfl, Iff.rfl⟩
  | eip7702 => exact ⟨_, rfl, Iff.rfl⟩

theorem preferredType_eq_deposit :
    request.preferredType library = .deposit ↔ request.isDeposit = true := by
  have hlibrary : (library.preferredType request.inner).toFoundry ≠ .deposit := by
    cases library.preferredType request.inner <;> simp [TxType.toFoundry]
  unfold preferredType
  cases request.isDeposit <;> cases request.isTempo <;> simp [hlibrary]

theorem preferredType_of_not (hdeposit : ¬request.isDeposit) (htempo : ¬request.isTempo) :
    request.preferredType library = (library.preferredType request.inner).toFoundry := by
  rw [preferredType, if_neg hdeposit, if_neg htempo]

theorem missingKeys_of_keys (hkeys : request.HasKeys library serde)
    (hfits : request.isDeposit → MintFits serde request.other) :
    request.missingKeys library serde = some (.ok (request.preferredType library)) := by
  obtain ⟨result, hresult, hiff⟩ :=
    completeFor_eq complete4844_eq_ok fun hty => hfits (preferredType_eq_deposit.mp hty)
  obtain rfl := hiff.mp hkeys
  rw [missingKeys, hresult]

theorem missingKeys_of_not_keys (hkeys : ¬request.HasKeys library serde)
    (hfits : request.isDeposit → MintFits serde request.other) :
    ∃ missing, request.missingKeys library serde =
      some (.error (request.preferredType library, missing)) := by
  obtain ⟨result, hresult, hiff⟩ :=
    completeFor_eq complete4844_eq_ok fun hty => hfits (preferredType_eq_deposit.mp hty)
  rw [missingKeys, hresult]
  cases result with
  | ok u => exact absurd (hiff.mpr rfl) hkeys
  | error missing => exact ⟨missing, rfl⟩

/-- With the sidecar, nothing is missing for the library either. -/
theorem blobKeys_and_sidecar :
    library.complete .eip4844 request.inner = .ok () ↔
      request.BlobKeys library ∧ request.inner.sidecar.isSome := by
  constructor
  · intro hok
    refine ⟨fun missing hmissing => ?_, library.sidecar_of_complete _ hok⟩
    rw [hok] at hmissing
    cases hmissing
  · rintro ⟨hkeys, hsome⟩
    cases hcheck : library.complete .eip4844 request.inner with
    | ok u => rfl
    | error missing =>
      obtain ⟨key, hkey⟩ := List.exists_mem_of_ne_nil _ (library.missing_ne_nil _ _ hcheck)
      obtain rfl := hkeys missing hcheck key hkey
      rw [library.sidecar_missing _ _ hcheck hkey] at hsome
      cases hsome

theorem keysFor_library_iff :
    request.KeysFor library serde (library.complete .eip4844 request.inner = .ok ())
        (request.preferredType library) ↔
      request.HasKeys library serde ∧
        (request.preferredType library = .eip4844 → request.inner.sidecar.isSome) := by
  unfold HasKeys
  cases request.preferredType library with
  | eip4844 => simpa [KeysFor] using blobKeys_and_sidecar
  | legacy => simp [KeysFor]
  | eip2930 => simp [KeysFor]
  | eip1559 => simp [KeysFor]
  | eip7702 => simp [KeysFor]
  | deposit => simp [KeysFor]
  | tempo => simp [KeysFor]

/-- The type is buildable if all keys are there, with the sidecar of a blob transaction. -/
theorem buildableType_eq (hfits : request.isDeposit → MintFits serde request.other) :
    ∃ ty, request.buildableType library serde = some ty ∧
      (ty = some (request.preferredType library) ↔ request.HasKeys library serde ∧
        (request.preferredType library = .eip4844 → request.inner.sidecar.isSome)) ∧
      (ty = none ∨ ty = some (request.preferredType library)) := by
  obtain ⟨result, hresult, hkeys⟩ := @completeFor_eq _ library serde request _ _
    Iff.rfl (request.preferredType library) fun hty => hfits (preferredType_eq_deposit.mp hty)
  rw [keysFor_library_iff] at hkeys
  rw [buildableType, hresult, hkeys]
  cases result <;> simp

/-- The checks panic if the mint of a deposit does not fit. -/
theorem missingKeys_eq_none (hdeposit : request.isDeposit) (hfits : ¬MintFits serde request.other) :
    request.missingKeys library serde = none := by
  rw [missingKeys, preferredType_eq_deposit.mpr hdeposit, completeFor, completeDeposit,
    getDepositTxParts_eq_none hfits]
  rfl

/-! ### Building -/

/-- With all keys there, what is built is returned, and nothing else. -/
theorem buildUnsigned_of_keys (hkeys : request.HasKeys library serde)
    (hfits : request.isDeposit → MintFits serde request.other) :
    (∃ tx, request.buildTypedTx library serde = some (.ok tx) ∧
        request.buildUnsigned library serde = some (.ok tx)) ∨
      ((∀ tx, request.buildTypedTx library serde ≠ some (.ok tx)) ∧
        request.buildUnsigned library serde = none) := by
  rw [buildUnsigned, missingKeys_of_keys hkeys hfits]
  cases request.buildTypedTx library serde with
  | none => simp
  | some result => cases result <;> simp

theorem buildUnsigned_of_not_keys (hkeys : ¬request.HasKeys library serde)
    (hfits : request.isDeposit → MintFits serde request.other) :
    request.buildUnsigned library serde ≠ none := by
  obtain ⟨missing, hmissing⟩ := missingKeys_of_not_keys hkeys hfits
  simp [buildUnsigned, hmissing]

/-- A request with the fields of a deposit gives a deposit, whatever its type. -/
theorem buildTypedTx_of_deposit (hfits : MintFits serde request.other)
    (hfields : DepositFields serde request.other) :
    ∃ tx, request.buildTypedTx library serde = some (.ok (.deposit tx)) := by
  obtain ⟨-, parts, heq⟩ | ⟨hnot, -⟩ := getDepositTxParts_cases hfits
  · exact ⟨_, by rw [buildTypedTx, heq]⟩
  · exact absurd hfields hnot

theorem buildTypedTx_of_not_deposit (hfits : MintFits serde request.other)
    (hfields : ¬DepositFields serde request.other) :
    request.buildTypedTx library serde =
      if request.isTempo then some (.ok (.tempo (request.tempoTx serde)))
      else some (request.buildEthereum library) := by
  obtain ⟨hnot, -⟩ | ⟨-, missing, heq⟩ := getDepositTxParts_cases hfits
  · exact absurd hnot hfields
  · rw [buildTypedTx, heq]

theorem buildTypedTx_eq_none (hfits : ¬MintFits serde request.other) :
    request.buildTypedTx library serde = none := by
  rw [buildTypedTx, getDepositTxParts_eq_none hfits]

/-- Without a sidecar, fields for blobs lead to a blob transaction or to none. -/
theorem buildEthereum_of_fields (hfields : library.hasEip4844Fields request.inner)
    (hsidecar : request.inner.sidecar = none) {tx : FoundryTypedTx Θ}
    (h : request.buildEthereum library = .ok tx) : tx.txType = .eip4844 := by
  rw [buildEthereum, if_pos (by simp [hfields, hsidecar])] at h
  cases hbuild : library.build4844WithoutSidecar request.inner with
  | ok tx' =>
    rw [hbuild] at h
    cases h
    rfl
  | error inner =>
    rw [hbuild] at h
    cases h

/-- Otherwise the library builds the preferred type. -/
theorem buildEthereum_of_complete
    (hcomplete : library.complete (library.preferredType request.inner) request.inner = .ok ())
    (hfields : library.hasEip4844Fields request.inner → request.inner.sidecar.isSome) :
    ∃ tx, request.buildEthereum library = .ok tx ∧
      tx.txType = (library.preferredType request.inner).toFoundry := by
  obtain ⟨tx, htx⟩ := library.builds request.inner hcomplete
  have hnot : ¬(library.hasEip4844Fields request.inner && request.inner.sidecar.isNone) := by
    intro h
    obtain ⟨hblob, hnone⟩ := (Bool.and_eq_true _ _).mp h
    have hsome := hfields hblob
    rw [Option.isNone_iff_eq_none.mp hnone] at hsome
    cases hsome
  refine ⟨.ofEthereum ⟨_, tx⟩, ?_, FoundryTypedTx.txType_ofEthereum _⟩
  rw [buildEthereum, if_neg hnot, htx]

/-- The library's check for its preferred type. -/
theorem complete_of_keys (hdeposit : ¬request.isDeposit) (htempo : ¬request.isTempo)
    (hkeys : request.HasKeys library serde)
    (hsidecar : request.preferredType library = .eip4844 → request.inner.sidecar.isSome) :
    library.complete (library.preferredType request.inner) request.inner = .ok () := by
  have hfull := keysFor_library_iff.mpr ⟨hkeys, hsidecar⟩
  rw [preferredType_of_not hdeposit htempo] at hfull
  cases hty : library.preferredType request.inner <;> rw [hty] at hfull <;> exact hfull

/-- A consistent request is built as its preferred type. -/
theorem buildTypedTx_of_consistent (hconsistent : request.Consistent library serde)
    (hkeys : request.HasKeys library serde) (hfits : MintFits serde request.other) :
    ∃ tx, request.buildTypedTx library serde = some (.ok tx) ∧
      tx.txType = request.preferredType library := by
  by_cases hfields : DepositFields serde request.other
  · obtain ⟨tx, htx⟩ := @buildTypedTx_of_deposit _ library serde request hfits hfields
    refine ⟨_, htx, ?_⟩
    rw [preferredType_eq_deposit.mpr (hconsistent.deposit hkeys hfields)]
    rfl
  · have hdeposit : ¬request.isDeposit := by
      intro hdeposit
      rw [HasKeys, preferredType_eq_deposit.mpr hdeposit] at hkeys
      exact hfields hkeys
    rw [buildTypedTx_of_not_deposit hfits hfields]
    by_cases htempo : request.isTempo
    · refine ⟨.tempo (request.tempoTx serde), if_pos htempo, ?_⟩
      rw [preferredType, if_neg hdeposit, if_pos htempo]
      rfl
    · have hsidecar : library.hasEip4844Fields request.inner → request.inner.sidecar.isSome := by
        intro hblob
        rcases library.preferredType_of_fields _ hblob with hty | hty
        · exact hconsistent.sidecar hkeys (by rw [preferredType_of_not hdeposit htempo, hty]; rfl)
        · exact hconsistent.blob hkeys (by rw [preferredType_of_not hdeposit htempo, hty]; rfl)
            hblob
      obtain ⟨tx, htx, hty⟩ := buildEthereum_of_complete
        (complete_of_keys hdeposit htempo hkeys (hconsistent.sidecar hkeys)) hsidecar
      exact ⟨tx, by rw [if_neg htempo, htx], by rw [hty, preferredType_of_not hdeposit htempo]⟩

theorem canBuild_ne_none (h : MintFits serde request.other ∨ library.canBuild request.inner) :
    request.canBuild library serde ≠ none := by
  unfold canBuild
  split
  · simp
  · next hcan =>
      obtain ⟨-, parts, heq⟩ | ⟨-, missing, heq⟩ :=
        getDepositTxParts_cases (h.resolve_right hcan)
      · simp [heq]
      · simp [heq]

theorem canBuild_eq_none (hfits : ¬MintFits serde request.other)
    (hcan : ¬library.canBuild request.inner) : request.canBuild library serde = none := by
  rw [canBuild, if_neg hcan, getDepositTxParts_eq_none hfits]

/-! ### Agreement -/

theorem agrees_of_consistent (hconsistent : request.Consistent library serde) :
    request.Agrees library serde := by
  have hfits : request.isDeposit → MintFits serde request.other := by
    intro hdeposit
    rcases hconsistent.mint with hfits | ⟨hnot, -⟩
    · exact hfits
    · exact absurd hdeposit hnot
  have hcan : MintFits serde request.other ∨ library.canBuild request.inner :=
    hconsistent.mint.imp_right fun h => h.2.1
  obtain ⟨ty, hbuildable, hty, hor⟩ := @buildableType_eq _ library serde request hfits
  by_cases hkeys : request.HasKeys library serde
  · have hfits' : MintFits serde request.other := by
      rcases hconsistent.mint with hfits | ⟨-, -, hnot⟩
      · exact hfits
      · exact absurd hkeys hnot
    have hmissing := missingKeys_of_keys hkeys hfits
    obtain rfl := hty.mpr ⟨hkeys, hconsistent.sidecar hkeys⟩
    obtain ⟨tx, htx, htxType⟩ := buildTypedTx_of_consistent hconsistent hkeys hfits'
    have hbuild : request.buildUnsigned library serde = some (.ok tx) := by
      obtain ⟨tx', htx', heq⟩ | ⟨hnot, -⟩ := buildUnsigned_of_keys hkeys hfits
      · rw [htx] at htx'
        cases htx'
        exact heq
      · exact absurd htx (hnot tx)
    refine ⟨fun ty => by simp [hmissing, hbuildable], fun ty h => ⟨tx, hbuild, ?_⟩,
      by simp [hbuildable], by simp [hmissing], canBuild_ne_none hcan, by simp [hbuild]⟩
    rw [hmissing] at h
    cases h
    exact htxType
  · obtain ⟨missing, hmissing⟩ := missingKeys_of_not_keys hkeys hfits
    obtain rfl := hor.resolve_right fun h => hkeys (hty.mp h).1
    exact ⟨fun ty => by simp [hmissing, hbuildable], fun ty h => by simp [hmissing] at h,
      by simp [hbuildable], by simp [hmissing], canBuild_ne_none hcan,
      buildUnsigned_of_not_keys hkeys hfits⟩

theorem consistent_of_agrees (hagrees : request.Agrees library serde) :
    request.Consistent library serde := by
  have hfits : request.isDeposit → MintFits serde request.other := by
    intro hdeposit
    by_contra hnot
    exact hagrees.missingKeys (missingKeys_eq_none hdeposit hnot)
  -- With all keys there, some transaction of the preferred type is built.
  have hbuilt : request.HasKeys library serde →
      ∃ tx, request.buildTypedTx library serde = some (.ok tx) ∧
        tx.txType = request.preferredType library := by
    intro hkeys
    obtain ⟨tx, htx, hty⟩ := hagrees.builds _ (missingKeys_of_keys hkeys hfits)
    obtain ⟨tx', htx', heq⟩ | ⟨-, hnone⟩ := buildUnsigned_of_keys hkeys hfits
    · rw [htx] at heq
      cases heq
      exact ⟨tx, htx', hty⟩
    · exact absurd hnone hagrees.buildUnsigned
  have hfits' : request.HasKeys library serde → MintFits serde request.other := by
    intro hkeys
    by_contra hnot
    obtain ⟨tx, htx, -⟩ := hbuilt hkeys
    rw [buildTypedTx_eq_none hnot] at htx
    cases htx
  have hdeposit : request.HasKeys library serde → DepositFields serde request.other →
      request.isDeposit := by
    intro hkeys hfields
    obtain ⟨tx, htx, hty⟩ := hbuilt hkeys
    obtain ⟨tx', htx'⟩ := @buildTypedTx_of_deposit _ library serde request (hfits' hkeys) hfields
    rw [htx] at htx'
    cases htx'
    exact preferredType_eq_deposit.mp hty.symm
  refine ⟨?_, hdeposit, ?_, ?_⟩
  · by_cases hmint : MintFits serde request.other
    · exact .inl hmint
    · refine .inr ⟨fun h => hmint (hfits h), ?_, fun hkeys => hmint (hfits' hkeys)⟩
      by_contra hcan
      exact hagrees.canBuild (canBuild_eq_none hmint hcan)
  · intro hkeys hty
    obtain ⟨ty, hbuildable, hiff, -⟩ := @buildableType_eq _ library serde request hfits
    rw [(hagrees.buildable _).mpr (missingKeys_of_keys hkeys hfits)] at hbuildable
    exact (hiff.mp (Option.some.inj hbuildable).symm).2 hty
  · intro hkeys hty hblob
    by_contra hsidecar
    have hnot : ¬request.isDeposit := by
      rw [← @preferredType_eq_deposit _ library, hty]
      exact FoundryTxType.noConfusion
    have htempo : ¬request.isTempo := by
      intro htempo
      rw [preferredType, if_neg hnot, if_pos htempo] at hty
      cases hty
    obtain ⟨tx, htx, htx'⟩ := hbuilt hkeys
    rw [buildTypedTx_of_not_deposit (hfits' hkeys) (fun hfields => hnot (hdeposit hkeys hfields)),
      if_neg htempo, Option.some.injEq] at htx
    have hblobTx := buildEthereum_of_fields hblob (by simpa using hsidecar) htx
    rw [hblobTx, hty] at htx'
    cases htx'

/-- **Checks and building.** `buildable_type` and `missing_keys` agree with each other and with what
`build_unsigned` builds, and nothing panics, exactly for the consistent requests. -/
theorem agrees_iff_consistent (library : Library Θ) (serde : Serde)
    (request : FoundryTransactionRequest Θ) :
    request.Agrees library serde ↔ request.Consistent library serde :=
  ⟨consistent_of_agrees, agrees_of_consistent⟩

end FoundryTransactionRequest

/-- A blob transaction with the hashes of the blobs, but without the blobs. -/
def blobRequest : FoundryTransactionRequest plainTypes :=
  .ofInner { TransactionRequest.empty with
    kind := some (.call 0)
    maxFeePerGas := some 1
    maxPriorityFeePerGas := some 1
    maxFeePerBlobGas := some 1
    gas := some 21000
    nonce := some 0
    blobVersionedHashes := some [0] }

/-- Nothing but a mint of 129 bits. -/
def mintRequest : FoundryTransactionRequest plainTypes :=
  ⟨TransactionRequest.empty, Finmap.singleton "mint" (decimalSerde.ofU256 (.ofNat 256 (2 ^ 128)))⟩

/-- A legacy transaction with the additional fields of a deposit. -/
def mixedRequest : FoundryTransactionRequest plainTypes :=
  ⟨{ TransactionRequest.empty with
      kind := some (.call 0), gasPrice := some 1, gas := some 21000, nonce := some 0 },
    (Finmap.singleton "isSystemTx" (.bool false)).insert "sourceHash" (.string "0")⟩

open FoundryTransactionRequest in
/-- The checks disagree about the first of these requests. `can_build` panics for the second. The
third is said to be a legacy transaction, but a deposit is built. -/
theorem not_agrees :
    (blobRequest.missingKeys plainLibrary decimalSerde = some (.ok .eip4844) ∧
        blobRequest.buildableType plainLibrary decimalSerde = some none) ∧
      mintRequest.canBuild plainLibrary decimalSerde = none ∧
      (mixedRequest.missingKeys plainLibrary decimalSerde = some (.ok .legacy) ∧
        ∃ tx, mixedRequest.buildUnsigned plainLibrary decimalSerde = some (.ok (.deposit tx))) ∧
      ¬blobRequest.Agrees plainLibrary decimalSerde := by
  have hmissing : blobRequest.missingKeys plainLibrary decimalSerde = some (.ok .eip4844) := by
    decide
  have hbuildable : blobRequest.buildableType plainLibrary decimalSerde = some none := by decide
  refine ⟨⟨hmissing, hbuildable⟩, ?_, ⟨?_, ?_⟩, fun hagrees => ?_⟩
  · refine canBuild_eq_none (fun hfits => ?_) (by decide)
    have hlt := hfits _ Finmap.lookup_singleton_eq _ (decimalSerde.asU256_ofU256 _)
    rw [BitVec.toNat_ofNat] at hlt
    omega
  · decide
  · exact ⟨_, rfl⟩
  · rw [(hagrees.buildable _).mpr hmissing] at hbuildable
    cases hbuildable

end BaseAnvil.Primitives

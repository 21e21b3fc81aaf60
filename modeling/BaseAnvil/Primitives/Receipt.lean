import BaseAnvil.Lib.Rlp
import BaseAnvil.Primitives.Transaction

/-!
# BaseAnvil.Primitives.Receipt

The encodings of receipts (`FoundryReceiptEnvelope` of `transaction/receipt.rs`).

There are two formats. The one of EIP-2718 puts the type in front of the receipt, and both
directions agree on it (`decode2718_encode2718`). The other wraps that in a header. The reader
expects a string there, and takes a list for a legacy receipt, but the writer makes it a list
(`encode_list`). So only legacy receipts survive, as `roundTrips_iff_legacy` says.
-/

namespace BaseAnvil.Primitives

open Lib.Rlp TxType

/-! ### Receipts and the library's codecs -/

section

variable (ρ δ : Type)

/-- A receipt with its type. `ρ` is a receipt with its bloom, and `δ` is one of a deposit. -/
inductive FoundryReceiptEnvelope
  | legacy (r : ρ)
  | eip2930 (r : ρ)
  | eip1559 (r : ρ)
  | eip4844 (r : ρ)
  | eip7702 (r : ρ)
  | deposit (r : δ)
  | tempo (r : ρ)
deriving DecidableEq

/-- The library's receipts, which have no type of their own for deposits and Tempo. -/
inductive ReceiptEnvelope
  | legacy (r : ρ)
  | eip2930 (r : ρ)
  | eip1559 (r : ρ)
  | eip4844 (r : ρ)
  | eip7702 (r : ρ)
deriving DecidableEq

inductive Eip2718Error
  | rlpError (e : Error)
  | unexpectedType (ty : UInt8)
deriving DecidableEq

end

section

variable {ρ δ : Type}

def ReceiptEnvelope.txType : ReceiptEnvelope ρ → TxType
  | .legacy _ => .legacy
  | .eip2930 _ => .eip2930
  | .eip1559 _ => .eip1559
  | .eip4844 _ => .eip4844
  | .eip7702 _ => .eip7702

def ReceiptEnvelope.receipt : ReceiptEnvelope ρ → ρ
  | .legacy r | .eip2930 r | .eip1559 r | .eip4844 r | .eip7702 r => r

/-- The largest byte, not included, that is taken for a type. -/
def txTypeByteMax : UInt8 := 0x7f

variable (ρ δ) in
/-- The library's functions, which agree with each other. -/
structure Codecs where
  header : HeaderCodec
  /-- The encoding of a byte as a number. -/
  encodeByte : UInt8 → List UInt8
  receipt : ListCodec ρ
  deposit : ListCodec δ
  encode2718Len : ReceiptEnvelope ρ → Nat
  encode2718Len_eq : ∀ e, encode2718Len e =
    (if e.txType = .legacy then 0 else 1) + receipt.length e.receipt
  typedDecode : UInt8 → Read Eip2718Error (ReceiptEnvelope ρ)
  typedDecode_encode : ∀ e rest, e.txType ≠ .legacy →
    typedDecode e.txType.toFoundry.id (receipt.encode e.receipt ++ rest) = .ok (e, rest)
  fallbackDecode : Read Eip2718Error (ReceiptEnvelope ρ)
  fallbackDecode_encode :
    ∀ r rest, fallbackDecode (receipt.encode r ++ rest) = .ok (.legacy r, rest)
  /-- `Decodable2718::decode_2718`, which the trait provides for the two functions. -/
  decode2718 : {α : Type} → (UInt8 → Read Eip2718Error α) → Read Eip2718Error α →
    Read Eip2718Error α
  decode2718_typed : ∀ {α : Type} (typed : UInt8 → Read Eip2718Error α)
    (fallback : Read Eip2718Error α) (ty : UInt8) (rest : List UInt8), ty < txTypeByteMax →
      decode2718 typed fallback (ty :: rest) = typed ty rest
  decode2718_list : ∀ {α : Type} (typed : UInt8 → Read Eip2718Error α)
    (fallback : Read Eip2718Error α) (first : UInt8) (rest : List UInt8), emptyListCode < first →
      decode2718 typed fallback (first :: rest) = fallback (first :: rest)

namespace FoundryReceiptEnvelope

def txType : FoundryReceiptEnvelope ρ δ → FoundryTxType
  | .legacy _ => .legacy
  | .eip2930 _ => .eip2930
  | .eip1559 _ => .eip1559
  | .eip4844 _ => .eip4844
  | .eip7702 _ => .eip7702
  | .deposit _ => .deposit
  | .tempo _ => .tempo

/-- The type, as `Typed2718` gives it. -/
def ty (receipt : FoundryReceiptEnvelope ρ δ) : UInt8 := receipt.txType.id

/-- No type stands in front of legacy receipts. -/
def typeFlag (receipt : FoundryReceiptEnvelope ρ δ) : Option UInt8 :=
  if receipt.ty = FoundryTxType.legacy.id then none else some receipt.ty

/-! ### The format with a header -/

variable (codecs : Codecs ρ δ)

/-- The header, the type and the receipt. -/
def encodeTyped {α : Type} (codec : ListCodec α) (ty : UInt8) (r : α) : List UInt8 :=
  codecs.header.encode ⟨true, codec.length r + 1⟩ ++ (codecs.encodeByte ty ++ codec.encode r)

/-- `Encodable::encode`. -/
def encode : FoundryReceiptEnvelope ρ δ → List UInt8
  | .legacy r => codecs.receipt.encode r
  | .eip2930 r => encodeTyped codecs codecs.receipt (FoundryTxType.id .eip2930) r
  | .eip1559 r => encodeTyped codecs codecs.receipt (FoundryTxType.id .eip1559) r
  | .eip4844 r => encodeTyped codecs codecs.receipt (FoundryTxType.id .eip4844) r
  | .eip7702 r => encodeTyped codecs codecs.receipt (FoundryTxType.id .eip7702) r
  | .deposit r => encodeTyped codecs codecs.deposit depositTxTypeId r
  | .tempo r => encodeTyped codecs codecs.receipt tempoTxTypeId r

/-- The type and the receipt, after the header of a string. -/
def decodeTyped : Read Error (FoundryReceiptEnvelope ρ δ)
  | [] => .error (.custom "typed receipt cannot be decoded from an empty slice")
  | receiptType :: buf =>
    if receiptType = FoundryTxType.id .eip2930 then codecs.receipt.decode.map .eip2930 buf
    else if receiptType = FoundryTxType.id .eip1559 then codecs.receipt.decode.map .eip1559 buf
    else if receiptType = FoundryTxType.id .eip4844 then codecs.receipt.decode.map .eip4844 buf
    else if receiptType = FoundryTxType.id .eip7702 then codecs.receipt.decode.map .eip7702 buf
    else if receiptType = depositTxTypeId then codecs.deposit.decode.map .deposit buf
    else if receiptType = tempoTxTypeId then codecs.receipt.decode.map .tempo buf
    else .error (.custom "invalid receipt type")

/-- `Decodable::decode`. -/
def decode : Read Error (FoundryReceiptEnvelope ρ δ)
  | [] => .error (.custom "cannot decode a receipt from empty bytes")
  | rlpType :: rest =>
    if rlpType < emptyListCode then
      match codecs.header.decode (rlpType :: rest) with
      | .ok (_header, buf) => decodeTyped codecs buf
      | .error e => .error e
    else if rlpType = emptyListCode then
      .error (.custom "an empty list is not a valid receipt encoding")
    else codecs.receipt.decode.map .legacy (rlpType :: rest)

/-! ### The format of EIP-2718 -/

def encode2718Len : FoundryReceiptEnvelope ρ δ → Nat
  | .legacy r => codecs.encode2718Len (.legacy r)
  | .eip2930 r => codecs.encode2718Len (.eip2930 r)
  | .eip1559 r => codecs.encode2718Len (.eip1559 r)
  | .eip4844 r => codecs.encode2718Len (.eip4844 r)
  | .eip7702 r => 1 + codecs.receipt.length r
  | .deposit r => 1 + codecs.deposit.length r
  | .tempo r => 1 + codecs.receipt.length r

/-- The receipt without its type. -/
def encodeInner : FoundryReceiptEnvelope ρ δ → List UInt8
  | .legacy r | .eip2930 r | .eip1559 r | .eip4844 r | .eip7702 r | .tempo r =>
    codecs.receipt.encode r
  | .deposit r => codecs.deposit.encode r

def encode2718 (receipt : FoundryReceiptEnvelope ρ δ) : List UInt8 :=
  receipt.typeFlag.toList ++ receipt.encodeInner codecs

/-- An error of the format below. -/
def ofRlp {α : Type} (read : Read Error α) : Read Eip2718Error α := fun buf =>
  match read buf with
  | .ok result => .ok result
  | .error e => .error (.rlpError e)

def typedDecode (ty : UInt8) (buf : List UInt8) :
    Except Eip2718Error (FoundryReceiptEnvelope ρ δ × List UInt8) :=
  if ty = depositTxTypeId then (ofRlp codecs.deposit.decode).map .deposit buf
  else if ty = tempoTxTypeId then (ofRlp codecs.receipt.decode).map .tempo buf
  else
    match codecs.typedDecode ty buf with
    | .ok (.eip2930 r, rest) => .ok (.eip2930 r, rest)
    | .ok (.eip1559 r, rest) => .ok (.eip1559 r, rest)
    | .ok (.eip4844 r, rest) => .ok (.eip4844 r, rest)
    | .ok (.eip7702 r, rest) => .ok (.eip7702 r, rest)
    | .ok (.legacy _, _) => .error (.rlpError (.custom "unexpected tx type"))
    | .error e => .error e

def fallbackDecode (buf : List UInt8) :
    Except Eip2718Error (FoundryReceiptEnvelope ρ δ × List UInt8) :=
  match codecs.fallbackDecode buf with
  | .ok (.legacy r, rest) => .ok (.legacy r, rest)
  | .ok _ => .error (.rlpError (.custom "unexpected tx type"))
  | .error e => .error e

def decode2718 : Read Eip2718Error (FoundryReceiptEnvelope ρ δ) :=
  codecs.decode2718 (typedDecode codecs) (fallbackDecode codecs)

/-! ### What the formats are for -/

/-- Reading what was written returns the receipt. -/
structure RoundTrips (receipt : FoundryReceiptEnvelope ρ δ) : Prop where
  rlp : ∀ rest, decode codecs (receipt.encode codecs ++ rest) = .ok (receipt, rest)
  eip2718 : decode2718 codecs (receipt.encode2718 codecs) = .ok (receipt, [])
  length : receipt.encode2718Len codecs = (receipt.encode2718 codecs).length

variable {codecs}

/-! ### The format of EIP-2718 -/

/-- The type of a receipt that is not a legacy one is a small byte. -/
theorem id_lt_txTypeByteMax {ty : FoundryTxType} (h : ty ≠ .legacy) : ty.id < txTypeByteMax := by
  cases ty <;> first | exact absurd rfl h | decide

variable {receipt : FoundryReceiptEnvelope ρ δ}

theorem typeFlag_eq :
    receipt.typeFlag = if receipt.txType = .legacy then none else some receipt.ty := by
  cases receipt <;> rfl

theorem encode2718_of_ne {receipt : FoundryReceiptEnvelope ρ δ} (h : receipt.txType ≠ .legacy) :
    receipt.encode2718 codecs = receipt.ty :: receipt.encodeInner codecs := by
  rw [encode2718, typeFlag_eq, if_neg h]
  rfl

/-- One of the library's receipts. -/
def ofLibrary : ReceiptEnvelope ρ → FoundryReceiptEnvelope ρ δ
  | .legacy r => .legacy r
  | .eip2930 r => .eip2930 r
  | .eip1559 r => .eip1559 r
  | .eip4844 r => .eip4844 r
  | .eip7702 r => .eip7702 r

/-- The library reads the types that it knows. -/
theorem typedDecode_ofLibrary {e : ReceiptEnvelope ρ} (h : e.txType ≠ .legacy) (rest : List UInt8) :
    typedDecode codecs e.txType.toFoundry.id (codecs.receipt.encode e.receipt ++ rest) =
      .ok (ofLibrary e, rest) := by
  have hread := codecs.typedDecode_encode e rest h
  have hdeposit : e.txType.toFoundry.id ≠ depositTxTypeId := by cases e.txType <;> decide
  have htempo : e.txType.toFoundry.id ≠ tempoTxTypeId := by cases e.txType <;> decide
  rw [typedDecode, if_neg hdeposit, if_neg htempo, hread]
  cases e with
  | legacy r => exact absurd rfl h
  | eip2930 r => rfl
  | eip1559 r => rfl
  | eip4844 r => rfl
  | eip7702 r => rfl

theorem ofRlp_of_ok {α : Type} {read : Read Error α} {buf : List UInt8} {result : α × List UInt8}
    (h : read buf = .ok result) : ofRlp read buf = .ok result := by
  simp only [ofRlp, h]

theorem typedDecode_encodeInner {receipt : FoundryReceiptEnvelope ρ δ}
    (h : receipt.txType ≠ .legacy) :
    typedDecode codecs receipt.ty (receipt.encodeInner codecs ++ rest) = .ok (receipt, rest) := by
  cases receipt with
  | legacy r => exact absurd rfl h
  | eip2930 r => exact typedDecode_ofLibrary (e := .eip2930 r) noConfusion rest
  | eip1559 r => exact typedDecode_ofLibrary (e := .eip1559 r) noConfusion rest
  | eip4844 r => exact typedDecode_ofLibrary (e := .eip4844 r) noConfusion rest
  | eip7702 r => exact typedDecode_ofLibrary (e := .eip7702 r) noConfusion rest
  | deposit r =>
    exact Read.map_of_ok (ofRlp_of_ok (codecs.deposit.decode_encode r rest))
  | tempo r =>
    exact Read.map_of_ok (ofRlp_of_ok (codecs.receipt.decode_encode r rest))

/-- Every receipt is read back. -/
theorem decode2718_encode2718 (receipt : FoundryReceiptEnvelope ρ δ) (rest : List UInt8) :
    decode2718 codecs (receipt.encode2718 codecs ++ rest) = .ok (receipt, rest) := by
  by_cases h : receipt.txType = .legacy
  · obtain ⟨r, rfl⟩ : ∃ r, receipt = .legacy r := by
      cases receipt <;> first | exact ⟨_, rfl⟩ | cases h
    obtain ⟨first, tail, hencode, hlist⟩ := codecs.receipt.encode_list r
    have hread := codecs.fallbackDecode_encode r rest
    rw [hencode, List.cons_append] at hread
    rw [encode2718, typeFlag_eq, if_pos h, Option.toList_none, List.nil_append, encodeInner,
      hencode, List.cons_append, decode2718, codecs.decode2718_list _ _ _ _ hlist, fallbackDecode,
      hread]
  · rw [encode2718_of_ne h, List.cons_append, decode2718,
      codecs.decode2718_typed _ _ receipt.ty _ (id_lt_txTypeByteMax h)]
    exact typedDecode_encodeInner h

theorem encode2718Len_eq (receipt : FoundryReceiptEnvelope ρ δ) :
    receipt.encode2718Len codecs = (receipt.encode2718 codecs).length := by
  have hreceipt := codecs.receipt.length_eq
  have hdeposit := codecs.deposit.length_eq
  cases receipt <;>
    simp [encode2718Len, encode2718, typeFlag_eq, txType, encodeInner, codecs.encode2718Len_eq,
      ReceiptEnvelope.txType, ReceiptEnvelope.receipt, ← hreceipt, ← hdeposit, Nat.add_comm]

/-! ### The format with a header -/

theorem encodeTyped_list {α : Type} (codec : ListCodec α) (ty : UInt8) (r : α) :
    ∃ first rest, encodeTyped codecs codec ty r = first :: rest ∧ emptyListCode < first := by
  have hlength := codec.length_lt r
  obtain ⟨first, rest, heq, hlt⟩ :=
    codecs.header.encode_list (codec.length r + 1) (by omega) (by omega)
  exact ⟨first, rest ++ (codecs.encodeByte ty ++ codec.encode r), by rw [encodeTyped, heq]; rfl,
    hlt⟩

/-- Every encoding begins like a list that is not empty. -/
theorem encode_list (receipt : FoundryReceiptEnvelope ρ δ) :
    ∃ first rest, receipt.encode codecs = first :: rest ∧ emptyListCode < first := by
  cases receipt with
  | legacy r => exact codecs.receipt.encode_list r
  | eip2930 r | eip1559 r | eip4844 r | eip7702 r | tempo r =>
    exact encodeTyped_list codecs.receipt _ r
  | deposit r => exact encodeTyped_list codecs.deposit _ r

/-- So every encoding is read as a legacy receipt. -/
theorem decode_encode (receipt : FoundryReceiptEnvelope ρ δ) (rest : List UInt8) :
    decode codecs (receipt.encode codecs ++ rest) =
      codecs.receipt.decode.map .legacy (receipt.encode codecs ++ rest) := by
  obtain ⟨first, tail, hencode, hlist⟩ := @encode_list _ _ codecs receipt
  rw [hencode, List.cons_append, decode, if_neg (fun hlt => UInt8.lt_asymm hlt hlist),
    if_neg (fun heq => UInt8.lt_irrefl _ (heq ▸ hlist))]

/-- **Receipts.** The formats round trip exactly for legacy receipts. That of EIP-2718 does so for
all. A typed receipt is written behind the header of a list, by which it is read as a legacy one. -/
theorem roundTrips_iff_legacy (codecs : Codecs ρ δ) (receipt : FoundryReceiptEnvelope ρ δ) :
    (receipt.RoundTrips codecs ↔ receipt.txType = .legacy) ∧
      (∀ rest, decode2718 codecs (receipt.encode2718 codecs ++ rest) = .ok (receipt, rest)) ∧
        receipt.encode2718Len codecs = (receipt.encode2718 codecs).length := by
  refine ⟨⟨fun hround => ?_, fun hlegacy => ?_⟩, decode2718_encode2718 receipt,
    encode2718Len_eq receipt⟩
  · have hread := hround.rlp []
    rw [decode_encode] at hread
    obtain ⟨r, hr⟩ := Read.exists_of_map_eq_ok hread
    rw [hr]
    rfl
  · refine ⟨fun rest => ?_, ?_, encode2718Len_eq receipt⟩
    · rw [decode_encode]
      cases receipt with
      | legacy r => exact Read.map_of_ok (codecs.receipt.decode_encode r rest)
      | _ => cases hlegacy
    · have hread := @decode2718_encode2718 _ _ codecs receipt []
      rwa [List.append_nil] at hread

end FoundryReceiptEnvelope

end

/-- Receipts that consist of the status only. -/
def statusCodec : ListCodec Bool where
  encode status := [0xc1, if status then 0x01 else 0x80]
  length _ := 2
  decode
    | code :: status :: rest =>
      if code ≠ 0xc1 then .error .unexpectedLength
      else if status = 0x01 then .ok (true, rest)
      else if status = 0x80 then .ok (false, rest)
      else .error .unexpectedString
    | _ => .error .inputTooShort
  length_eq _ := rfl
  length_lt _ := by decide
  decode_encode status rest := by cases status <;> rfl
  encode_list _ := ⟨_, _, rfl, by decide⟩

/-- Headers of what is short. -/
def shortHeader : HeaderCodec where
  encode header :=
    [(if header.list then 0xc0 else 0x80) + UInt8.ofNat (min header.payloadLength 55)]
  decode
    | first :: rest =>
      if first < 0x80 then .ok (⟨false, 1⟩, first :: rest)
      else if first < emptyListCode then .ok (⟨false, first.toNat - 0x80⟩, rest)
      else .ok (⟨true, first.toNat - 0xc0⟩, rest)
    | [] => .error .inputTooShort
  encode_list n hpos _ := by
    refine ⟨_, _, rfl, UInt8.lt_iff_toNat_lt.mpr ?_⟩
    simp only [if_true, emptyListCode, UInt8.toNat_add, UInt8.toNat_ofNat', UInt8.reduceToNat]
    omega

open FoundryReceiptEnvelope in
def statusCodecs : Codecs Bool Bool where
  header := shortHeader
  encodeByte b := [b]
  receipt := statusCodec
  deposit := statusCodec
  encode2718Len e := (if e.txType = .legacy then 0 else 1) + 2
  encode2718Len_eq _ := rfl
  typedDecode ty :=
    if ty = 1 then (ofRlp statusCodec.decode).map .eip2930
    else if ty = 2 then (ofRlp statusCodec.decode).map .eip1559
    else if ty = 3 then (ofRlp statusCodec.decode).map .eip4844
    else if ty = 4 then (ofRlp statusCodec.decode).map .eip7702
    else fun _ => .error (.unexpectedType ty)
  typedDecode_encode e rest h := by
    cases e with
    | legacy status => exact absurd rfl h
    | eip2930 status => cases status <;> rfl
    | eip1559 status => cases status <;> rfl
    | eip4844 status => cases status <;> rfl
    | eip7702 status => cases status <;> rfl
  fallbackDecode := (ofRlp statusCodec.decode).map .legacy
  fallbackDecode_encode status rest := by cases status <;> rfl
  decode2718 typed fallback
    | [] => fallback []
    | first :: rest => if first < txTypeByteMax then typed first rest else fallback (first :: rest)
  decode2718_typed _ _ _ _ h := if_pos h
  decode2718_list _ _ _ _ h := if_neg fun hlt => absurd (UInt8.lt_trans h hlt) (by decide)

open FoundryReceiptEnvelope in
/-- A receipt of type 2 is taken for a legacy one, which it is not. -/
theorem not_roundTrips :
    encode statusCodecs (.eip1559 true) = [0xc3, 0x02, 0xc1, 0x01] ∧
      decode statusCodecs [0xc3, 0x02, 0xc1, 0x01] = .error .unexpectedLength ∧
        ¬RoundTrips statusCodecs (.eip1559 true) := by
  have hread : decode statusCodecs [0xc3, 0x02, 0xc1, 0x01] = .error .unexpectedLength := by decide
  refine ⟨by decide, hread, fun hround => ?_⟩
  have hrlp := hround.rlp []
  exact absurd (hread.symm.trans hrlp) (by simp)

end BaseAnvil.Primitives

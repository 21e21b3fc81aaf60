import BaseAnvil.Script.Sequence

/-!
# BaseAnvil.Script.Send

How one transaction is sent (`SendTransactionKind` of `script/src/broadcast.rs`).

What the provider answers to the calls of one attempt is given by `Answers`. Beside its result an
attempt has a trace of the calls that it makes.
-/

namespace BaseAnvil.Script

open Pool (Address TxHash)

/-- How to send a single transaction. A wallet is known by its address. -/
inductive SendTransactionKind
  | unlocked (tx : TransactionRequest)
  | raw (tx : TransactionRequest) (signer : Address)
  | signed (tx : List UInt8)
deriving DecidableEq, Repr

namespace SendTransactionKind

/-- The request, where it is not signed yet. -/
def request? : SendTransactionKind → Option TransactionRequest
  | .unlocked tx => some tx
  | .raw tx _ => some tx
  | .signed _ => none

def setRequest (tx : TransactionRequest) : SendTransactionKind → SendTransactionKind
  | .unlocked _ => .unlocked tx
  | .raw _ signer => .raw tx signer
  | .signed bytes => .signed bytes

@[simp] theorem request?_setRequest (tx : TransactionRequest) (kind : SendTransactionKind) :
    (kind.setRequest tx).request? = kind.request?.map fun _ => tx := by
  cases kind <;> rfl

end SendTransactionKind

/-- What the provider, and the signer, answer during one attempt. -/
structure Answers where
  /-- `get_transaction_count`, one after the other. -/
  nonces : Nat → Except String UInt64
  /-- `estimate_gas`. -/
  estimate : Except String UInt64
  /-- Whether the transaction could be signed. -/
  build : Except String Unit
  /-- `send_transaction` or `send_raw_transaction`. -/
  send : Except String TxHash

/-- A call that an attempt makes. -/
inductive Call
  | nonce (answer : Except String UInt64)
  | estimate (answer : Except String UInt64)
  | send (kind : SendTransactionKind)

/-- What the attempt is told about the run. -/
structure SendOptions where
  sequentialBroadcast : Bool
  estimateViaRpc : Bool
  gasEstimateMultiplier : UInt64
deriving DecidableEq, Repr

namespace SendTransactionKind

variable (options : SendOptions) (isFixedGasLimit : Bool) (answers : Answers)

/-- The loop that waits for the nonce, with the attempts that are left. -/
def syncNonce (txNonce : UInt64) : Nat → Except String Unit × List Call
  | 0 => (.ok (), [])
  | left + 1 =>
    let answer := answers.nonces (4 - left)
    match answer with
    | .error e => (.error e, [.nonce answer])
    | .ok nonce =>
      if txNonce < nonce then
        (.error ("EOA nonce changed unexpectedly while sending transactions. Expected " ++
          toString txNonce ++ " got " ++ toString nonce ++ " from provider."), [.nonce answer])
      else if nonce < txNonce then
        if left = 0 then
          (.error ("After 5 attempts, provider nonce (" ++ toString nonce ++
            ") is still behind expected nonce (" ++ toString txNonce ++ ")."), [.nonce answer])
        else
          let later := syncNonce txNonce left
          (later.1, .nonce answer :: later.2)
      else (.ok (), [.nonce answer])

/-- `estimate_gas`. The product is taken in 64 bits. -/
def estimateGas (tx : TransactionRequest) : Except String TransactionRequest :=
  match answers.estimate with
  | .error _ => .error "Failed to estimate gas for tx"
  | .ok estimate => .ok { tx with gas := some (estimate * options.gasEstimateMultiplier / 100) }

/-- `prepare`: the nonce first, then the gas. -/
def prepare (kind : SendTransactionKind) : Except String SendTransactionKind × List Call :=
  match kind.request? with
  | none => (.ok kind, [])
  | some tx =>
    let synced := if options.sequentialBroadcast then syncNonce answers tx.nonce 5 else (.ok (), [])
    match synced.1 with
    | .error e => (.error e, synced.2)
    | .ok () =>
      if !isFixedGasLimit && options.estimateViaRpc then
        ((estimateGas options answers tx).map fun tx => kind.setRequest tx,
          synced.2 ++ [.estimate answers.estimate])
      else (.ok kind, synced.2)

/-- `send`. -/
def send (kind : SendTransactionKind) : Except String TxHash × List Call :=
  let result := match kind with
    | .raw _ _ => match answers.build with
      | .error e => .error e
      | .ok () => answers.send
    | _ => answers.send
  (result, [.send kind])

/-- `prepare_and_send`. -/
def prepareAndSend (kind : SendTransactionKind) : Except String TxHash × List Call :=
  let prepared := prepare options isFixedGasLimit answers kind
  match prepared.1 with
  | .error e => (.error e, prepared.2)
  | .ok kind =>
    let sent := send answers kind
    (sent.1, prepared.2 ++ sent.2)

end SendTransactionKind

end BaseAnvil.Script

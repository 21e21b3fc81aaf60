import BaseAnvil.Lib.Counters
import BaseAnvil.Pool.Transaction

/-!
# BaseAnvil.Cheats.Delegation

Broadcasts of a script and the EIP-7702 delegations attached to them: the cheatcodes of
`cheatcodes/src/script.rs`, and what `Cheatcodes::call_with_executor` and `Cheatcodes::call_end`
of `cheatcodes/src/inspector.rs` do for a broadcast.

A delegation is signed for a nonce that has to be guessed: it is used later, by a transaction on the
chain. The pending delegations go with the next call that is broadcast.
-/

namespace BaseAnvil.Cheats.Delegation

open Pool (Address)

abbrev PrivateKey := BitVec 256

/-- An unsigned delegation. -/
structure Authorization where
  /-- The code that the authority delegates to. -/
  address : Address
  /-- A `u64`. -/
  nonce : Nat
  chainId : BitVec 256
deriving DecidableEq

/-- Keys and signatures. A signature leads back to the address of the key. -/
structure Signatures where
  Signature : Type
  /-- `PrivateKeySigner::from_bytes`, which not every number is accepted by. -/
  address : PrivateKey → Option Address
  sign : PrivateKey → Authorization → Signature
  recover : Authorization → Signature → Option Address
  recover_sign : ∀ key authorization signer, address key = some signer →
    recover authorization (sign key authorization) = some signer

variable {S : Signatures}

structure SignedAuthorization (S : Signatures) where
  inner : Authorization
  signature : S.Signature

def SignedAuthorization.recoverAuthority (auth : SignedAuthorization S) : Option Address :=
  S.recover auth.inner auth.signature

structure Broadcast where
  /-- The sender of the transactions. -/
  newOrigin : Address
  originalCaller : Address
  originalOrigin : Address
  depth : Nat
  /-- `broadcast`, not `startBroadcast`. -/
  singleCall : Bool
deriving DecidableEq

structure Wallets where
  providedSender : Option Address
  signers : List Address
deriving DecidableEq

/-- `TransactionRequest`, as far as a broadcast call fills it in. -/
structure TransactionRequest (S : Signatures) where
  sender : Address
  target : Address
  value : Option (BitVec 256)
  input : List UInt8
  nonce : Nat
  chainId : UInt64
  gas : Option UInt64
  authorizationList : Option (List (SignedAuthorization S))

structure Config where
  chainId : UInt64
  /-- Calls are executed as transactions of their own. -/
  isolate : Bool

/-- What the cheatcodes for broadcasts and delegations read and write. -/
structure State (S : Signatures) where
  /-- The nonces of the local accounts. -/
  nonces : Address → Nat
  /-- What the code of the local accounts delegates to, if it is set by a delegation. -/
  delegates : Address → Option Address
  txCaller : Address
  wallets : Wallets
  activeDelegations : List (SignedAuthorization S)
  broadcast : Option Broadcast
  dynamicGasLimit : Bool
  broadcastableTransactions : List (TransactionRequest S)

/-- The errors of the cheatcodes. -/
inductive CheatError
  /-- A key or a signature that is not accepted. -/
  | signature
  /-- `invalid nonce for {authority}: expected {expected}, got {got}`. -/
  | invalidNonce (authority : Address) (expected got : Nat)
  /-- `a broadcast is active already`. -/
  | broadcastActive
  /-- `no broadcast in progress to stop`. -/
  | noBroadcast
deriving DecidableEq

/-! ### Delegations -/

/-- `next_delegation_nonce`. -/
def nextDelegationNonce (activeDelegations : List (SignedAuthorization S)) (authority : Address)
    (broadcast : Option Broadcast) (accountNonce : Nat) : Nat :=
  match activeDelegations.reverse.find? fun auth => auth.recoverAuthority = some authority with
  | some auth => auth.inner.nonce + 1
  | none =>
    match broadcast with
    | some broadcast =>
      -- The transaction takes a nonce of its sender before the delegation does.
      if broadcast.newOrigin = authority then accountNonce + 1 else accountNonce
    | none => accountNonce

namespace State

variable (config : Config) (self : State S)

/-- `next_delegation_nonce`, as both of its callers call it. -/
def nextNonce (authority : Address) : Nat :=
  nextDelegationNonce self.activeDelegations authority self.broadcast (self.nonces authority)

/-- `write_delegation`. -/
def writeDelegation (auth : SignedAuthorization S) : Except CheatError (State S) :=
  match auth.recoverAuthority with
  | none => .error .signature
  | some authority =>
    if self.nextNonce authority ≠ auth.inner.nonce then
      .error (.invalidNonce authority (self.nextNonce authority) auth.inner.nonce)
    else
      -- The zero address clears the code.
      let code := if auth.inner.address = 0 then none else some auth.inner.address
      .ok { self with delegates := Function.update self.delegates authority code }

/-- `add_delegation`. -/
def addDelegation (auth : SignedAuthorization S) : State S :=
  { self with activeDelegations := self.activeDelegations ++ [auth] }

/-- `sign_delegation`. -/
def signDelegation (key : PrivateKey) (implementation : Address) (nonce : Option Nat)
    (crossChain attach : Bool) : Except CheatError (State S × SignedAuthorization S) :=
  match S.address key with
  | none => .error .signature
  | some signer =>
    let auth : Authorization :=
      { address := implementation
        nonce := nonce.getD (self.nextNonce signer)
        chainId := if crossChain then 0 else BitVec.ofNat 256 config.chainId.toNat }
    let signed : SignedAuthorization S := ⟨auth, S.sign key auth⟩
    if attach then (self.writeDelegation signed).map fun self => (self.addDelegation signed, signed)
    else .ok (self, signed)

/-! ### Broadcasts -/

/-- The sender of a broadcast, if the script does not name one. -/
def defaultOrigin : Address :=
  match self.wallets.providedSender with
  | some sender => sender
  | none =>
    match self.wallets.signers with
    | [signer] => signer
    | _ => self.txCaller

/-- `broadcast`, called by `caller` at this depth. -/
def startBroadcast (depth : Nat) (caller : Address) (newOrigin : Option Address)
    (singleCall : Bool) : Except CheatError (State S) :=
  if self.broadcast.isSome then .error .broadcastActive
  else .ok { self with
    broadcast := some
      { newOrigin := newOrigin.getD self.defaultOrigin
        originalCaller := caller
        originalOrigin := self.txCaller
        depth := depth
        singleCall := singleCall } }

/-- `broadcast_key`. -/
def broadcastKey (depth : Nat) (caller : Address) (key : PrivateKey) (singleCall : Bool) :
    Except CheatError (State S) :=
  match S.address key with
  | none => .error .signature
  | some signer =>
    (self.startBroadcast depth caller (some signer) singleCall).map fun self =>
      { self with wallets := { self.wallets with signers := self.wallets.signers.insert signer } }

def stopBroadcast : Except CheatError (State S) :=
  if self.broadcast.isSome then .ok { self with broadcast := none }
  else .error .noBroadcast

end State

/-- The cheatcodes. -/
inductive Cheatcode
  | broadcast (newOrigin : Option Address) (singleCall : Bool)
  | broadcastKey (key : PrivateKey) (singleCall : Bool)
  | stopBroadcast
  /-- Without a nonce. -/
  | signAndAttachDelegation (key : PrivateKey) (implementation : Address) (crossChain : Bool)

/-- `apply_cheatcode`, called by `caller` at this depth. -/
def State.applyCheatcode (config : Config) (depth : Nat) (caller : Address) (self : State S) :
    Cheatcode → Except CheatError (State S)
  | .broadcast newOrigin singleCall => self.startBroadcast depth caller newOrigin singleCall
  | .broadcastKey key singleCall => self.broadcastKey depth caller key singleCall
  | .stopBroadcast => self.stopBroadcast
  | .signAndAttachDelegation key implementation crossChain =>
    (self.signDelegation config key implementation none crossChain true).map Prod.fst

/-! ### Calls -/

structure CallInputs where
  caller : Address
  targetAddress : Address
  transferValue : Option (BitVec 256)
  input : List UInt8
  gasLimit : UInt64
  isStatic : Bool

namespace State

variable (config : Config) (self : State S)

/-- The local nonce of the sender after its own delegations of this list. -/
def countDelegations (sender : Address) (delegations : List (SignedAuthorization S))
    (nonce : Nat) : Nat :=
  delegations.foldl (fun nonce auth =>
    if auth.recoverAuthority = some sender then nonce + 1 else nonce) nonce

/-- The transaction for a call that is broadcast. -/
def transaction (broadcast : Broadcast) (call : CallInputs) : TransactionRequest S :=
  { sender := broadcast.newOrigin
    target := call.targetAddress
    value := call.transferValue
    input := call.input
    nonce := self.nonces broadcast.newOrigin
    chainId := config.chainId
    gas := if 21000 ≤ call.gasLimit && !self.dynamicGasLimit then some call.gasLimit else none
    authorizationList :=
      if self.activeDelegations.isEmpty then none else some self.activeDelegations }

/-- The call is recorded, with the pending delegations. -/
def record (broadcast : Broadcast) (call : CallInputs) : State S :=
  let sender := broadcast.newOrigin
  let nonce := countDelegations sender self.activeDelegations (self.nonces sender)
  { self with
    broadcastableTransactions :=
      self.broadcastableTransactions ++ [self.transaction config broadcast call]
    activeDelegations := []
    nonces := Function.update self.nonces sender (if config.isolate then nonce else nonce + 1) }

/-- `call_with_executor`, for a call from this depth. A static call is not recorded. -/
def call (depth : Nat) (call : CallInputs) : State S :=
  match self.broadcast with
  | none => self
  | some broadcast =>
    if depth = broadcast.depth ∧ call.caller = broadcast.originalCaller then
      let self := if call.isStatic then self else self.record config broadcast call
      { self with txCaller := broadcast.newOrigin, dynamicGasLimit := false }
    else { self with dynamicGasLimit := false }

/-- `call_end`, back at this depth. -/
def callEnd (depth : Nat) : State S :=
  match self.broadcast with
  | none => self
  | some broadcast =>
    if depth = broadcast.depth then
      { self with
        txCaller := broadcast.originalOrigin
        broadcast := if broadcast.singleCall then none else some broadcast }
    else self

/-- `set_gas_limit_type`, before an opcode. -/
def setGasLimitType (isDynamic : Bool) : State S :=
  if self.broadcast.isSome then { self with dynamicGasLimit := isDynamic } else self

end State

/-! ### Scripts -/

/-- What a script does. Calls may be nested, and a cheatcode may be called at any depth. -/
inductive Event
  | cheatcode (depth : Nat) (caller : Address) (cheatcode : Cheatcode)
  | opcode (isDynamic : Bool)
  | call (depth : Nat) (inputs : CallInputs)
  | callEnd (depth : Nat)

/-- A cheatcode that fails reverts, and changes nothing. -/
def State.apply (config : Config) (self : State S) : Event → State S
  | .cheatcode depth caller cheatcode =>
    match self.applyCheatcode config depth caller cheatcode with
    | .ok self => self
    | .error _ => self
  | .opcode isDynamic => self.setGasLimitType isDynamic
  | .call depth inputs => self.call config depth inputs
  | .callEnd depth => self.callEnd depth

/-- The state when a script starts, with the nonces of the chain. -/
def State.initial (nonces : Address → Nat) (delegates : Address → Option Address)
    (wallets : Wallets) (txCaller : Address) : State S :=
  { nonces := nonces
    delegates := delegates
    txCaller := txCaller
    wallets := wallets
    activeDelegations := []
    broadcast := none
    dynamicGasLimit := false
    broadcastableTransactions := [] }

end BaseAnvil.Cheats.Delegation

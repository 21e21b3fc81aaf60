import BaseAnvil.Lib.Run
import BaseAnvil.Script.Send

/-!
# BaseAnvil.Script.Broadcast

Broadcasting a sequence over any number of runs of `forge script --broadcast` and
`--resume` (`BundledState` of `script/src/broadcast.rs`, `ScriptProgress::wait_for_pending` of
`script/src/progress.rs`).

A run loads the saved sequence, waits for what is pending, skips as many transactions as there are
receipts, and sends the others in batches. The sends of a batch are concurrent, and so are the
checks of pending transactions. Which of them completes next, and with what answer, is an event.

The machine keeps a log, which the program does not have: the values the results are about are
read from it. So is the position of a task, which says which transaction of the sequence the task
was made from.
-/

namespace BaseAnvil.Script

open Pool (Address TxHash)

/-- Why a broadcast does not begin. -/
inductive BroadcastError
  | usesDefaultSender
  | noAssociatedWallet (missing unlocked : Finset Address)
  | notUnlocked (sender : Address)
  | noMatchingSigner (sender : Address)
  | provider (message : String)

/-- How to send all transactions. -/
inductive SendTransactionsKind
  | unlocked (addresses : Finset Address)
  | raw (wallets : Finset Address)

/-- How to send the transaction of one sender. -/
def SendTransactionsKind.forSender (addr : Address) (tx : TransactionRequest) :
    SendTransactionsKind → Except BroadcastError SendTransactionKind
  | .unlocked addresses =>
    if addr ∈ addresses then .ok (.unlocked tx) else .error (.notUnlocked addr)
  | .raw wallets => if addr ∈ wallets then .ok (.raw tx addr) else .error (.noMatchingSigner addr)

/-- The fees of all transactions of a run. -/
inductive Fees
  | legacy (gasPrice : Nat)
  | eip1559 (maxFeePerGas maxPriorityFeePerGas : Nat)

/-- `Config::DEFAULT_SENDER`. -/
def defaultSender : Address := 0x1804c8AB1F12E6bbf3894d4083f33e07309d1f38

/-- The arguments of one run, what is known of the chain, and what the provider says about fees. -/
structure RunArgs where
  unlocked : Bool
  /-- The addresses whose wallets are at hand. -/
  wallets : Finset Address
  slow : Bool
  skipSimulation : Bool
  batchSize : Nat
  gasEstimateMultiplier : UInt64
  legacy : Bool
  withGasPrice : Option Nat
  priorityGasPrice : Option Nat
  /-- Senders that the sequences of other chains need. -/
  otherSenders : Finset Address
  chainIsLegacy : UInt64 → Bool
  hasDifferentGasCalc : UInt64 → Bool
  hasBatchSupport : UInt64 → Bool
  gasPrice : Except String Nat
  /-- The maximum fee, and the maximum priority fee. -/
  estimatedFees : Except String (Nat × Nat)

/-- A send in flight. -/
structure Task where
  position : Nat
  kind : SendTransactionKind
  isFixedGasLimit : Bool
  attempt : Nat
  originalRes : Option String
  /-- What the provider answered to the earlier attempts, which the program does not keep. -/
  answered : List Answers

/-- Where the loop over the batches stands: the position for the next hash, and what is to be
sent after the batch in flight. -/
structure Loop where
  options : SendOptions
  batchSize : Nat
  index : Nat
  tasks : List Task

namespace Task

variable (options : SendOptions) (self : Task) (answers : Answers)

/-- One attempt: the first one prepares the transaction and sends it, the others send it. -/
def run : Except String TxHash × List Call :=
  if self.attempt = 0 then self.kind.prepareAndSend options self.isFixedGasLimit answers
  else self.kind.send answers

/-- The task after an attempt that failed. -/
def retry (error : String) : Task :=
  { self with
    attempt := self.attempt + 1
    originalRes := self.originalRes.or (some error)
    answered := self.answered ++ [answers] }

end Task

namespace RunArgs

variable (args : RunArgs) (sequence : ScriptSequence)

/-- The senders of unsigned transactions. -/
def requiredAddresses : Finset Address :=
  (sequence.transactions.filterMap fun tx => match tx.transaction with
    | .signed _ => none
    | .unsigned tx => some tx.sender).toFinset ∪ args.otherSenders

def sendKind : Except BroadcastError SendTransactionsKind :=
  let required := args.requiredAddresses sequence
  if defaultSender ∈ required then .error .usesDefaultSender
  else if args.unlocked then .ok (.unlocked required)
  else if required ⊆ args.wallets then .ok (.raw args.wallets)
  else .error (.noAssociatedWallet (required \ args.wallets) args.wallets)

/-- The one-time gas price estimation. -/
def fees : Except BroadcastError Fees :=
  match args.chainIsLegacy sequence.chain || args.legacy, args.withGasPrice,
      args.priorityGasPrice with
  | true, some gasPrice, _ => .ok (.legacy gasPrice)
  | true, none, _ => (args.gasPrice.map Fees.legacy).mapError .provider
  | false, some maxFee, some maxPriorityFee => .ok (.eip1559 maxFee maxPriorityFee)
  | false, withGasPrice, priorityGasPrice =>
    match args.estimatedFees with
    | .error _ => .error (.provider ("Failed to estimate EIP1559 fees. This chain might not " ++
        "support EIP1559, try adding --legacy to your command."))
    | .ok estimated =>
      .ok (.eip1559 (withGasPrice.getD estimated.1) (priorityGasPrice.getD estimated.2))

/-- The request as it is sent: for the chain, with its kind and its fees set. -/
def complete (chain : UInt64) (fees : Fees) (tx : TransactionRequest) : TransactionRequest :=
  let tx := { tx with chainId := some chain, kind := some (tx.kind.getD .create) }
  match fees with
  | .legacy gasPrice => { tx with gasPrice := some gasPrice }
  | .eip1559 maxFee maxPriorityFee =>
    { tx with maxFeePerGas := some maxFee, maxPriorityFeePerGas := some maxPriorityFee }

/-- The task for the transaction at a position. -/
def task (kind : SendTransactionsKind) (fees : Fees) (chain : UInt64)
    (entry : TransactionWithMetadata × Nat) : Except BroadcastError Task :=
  let made (kind : SendTransactionKind) : Task :=
    { position := entry.2, kind := kind, isFixedGasLimit := entry.1.isFixedGasLimit, attempt := 0,
      originalRes := none, answered := [] }
  match entry.1.transaction with
  | .signed tx => .ok (made (.signed tx))
  | .unsigned tx => (kind.forSender tx.sender (complete chain fees tx)).map made

/-- The tasks of a run, for all but the first `already` transactions. -/
def tasks (kind : SendTransactionsKind) (fees : Fees) (already : Nat) :
    Except BroadcastError (List Task) :=
  (sequence.transactions.zipIdx.drop already).mapM (task kind fees sequence.chain)

def estimateViaRpc : Bool := args.hasDifferentGasCalc sequence.chain || args.skipSimulation

def sequentialBroadcast : Bool :=
  args.estimateViaRpc sequence || args.slow || (args.requiredAddresses sequence).card != 1 ||
    !args.hasBatchSupport sequence.chain

/-- The loop before its first batch. -/
def loop (already : Nat) (tasks : List Task) : Loop where
  options :=
    { sequentialBroadcast := args.sequentialBroadcast sequence
      estimateViaRpc := args.estimateViaRpc sequence
      gasEstimateMultiplier := args.gasEstimateMultiplier }
  batchSize := if args.sequentialBroadcast sequence then 1 else args.batchSize
  index := already
  tasks := tasks

end RunArgs

/-- What `check_tx_status` finds. -/
inductive Outcome
  | success (receipt : Receipt)
  | revert (receipt : Receipt)
  | dropped
  /-- The receipt is still pending (`PendingReceiptError`). -/
  | pendingReceipt
  | error (message : String)
deriving DecidableEq, Repr

/-- What a run is doing. -/
inductive Phase
  /-- `wait_for_pending`, with the hashes not checked yet and whether there was an error: at the
  begin of a run, or after a batch. -/
  | waiting (remaining : List TxHash) (failed : Bool) (loop : Option Loop)
  /-- A batch is being sent. -/
  | sending (buffer : List Task) (loop : Loop)

/-- A run, with the sequence it has in memory. -/
structure Process where
  args : RunArgs
  sequence : ScriptSequence
  phase : Phase

/-- What happened. -/
inductive Entry
  /-- A run computed `already_broadcasted`. -/
  | already (count : Nat) (sequence : ScriptSequence)
  /-- One attempt of a task. If it returns a hash then `add_pending(index, hash)` is next. -/
  | attempt (index : Nat) (options : SendOptions) (task : Task) (answers : Answers)

/-- The file, the run there may be, and what happened so far. -/
structure Machine where
  saved : ScriptSequence
  process : Option Process
  log : List Entry

/-- What can happen next. Attempts and checks of one batch complete in any order. -/
inductive Event
  | start (args : RunArgs)
  /-- The check of a pending transaction completes. -/
  | check (hash : TxHash) (outcome : Outcome)
  /-- The attempt of the task in this place of the buffer completes. -/
  | complete (slot : Nat) (answers : Answers)
  /-- The run ends for another reason: an error in the sequence of another chain. -/
  | quit
  /-- The run is killed. -/
  | kill

/-- What `wait_for_pending` does to the sequence when a check completes. -/
def ScriptSequence.check (self : ScriptSequence) (hash : TxHash) : Outcome → ScriptSequence
  | .success receipt => (self.removePending receipt.transactionHash).addReceipt receipt
  | .revert receipt => self.removePending receipt.transactionHash
  | .dropped => self.removePending hash
  | .pendingReceipt => self.removePending hash
  | .error _ => self

namespace Outcome

/-- Whether it makes `wait_for_pending` fail. -/
def isError : Outcome → Bool
  | .revert _ => true
  | .error _ => true
  | _ => false

/-- A receipt is the one that was asked for. -/
def For (hash : TxHash) : Outcome → Prop
  | .success receipt => receipt.transactionHash = hash
  | .revert receipt => receipt.transactionHash = hash
  | _ => True

instance (hash : TxHash) : DecidablePred (For hash)
  | .success _ => inferInstanceAs (Decidable (_ = _))
  | .revert _ => inferInstanceAs (Decidable (_ = _))
  | .dropped => .isTrue trivial
  | .pendingReceipt => .isTrue trivial
  | .error _ => .isTrue trivial

end Outcome

namespace Machine

variable (m : Machine) (args : RunArgs) (sequence : ScriptSequence)

/-- The run ends. The sequence is saved when it is dropped, also on an error. -/
def stop : Machine := { m with saved := sequence.save, process := none }

/-- Something to remember happens. -/
def note (entry : Entry) : Machine := { m with log := m.log ++ [entry] }

/-- The run goes on in this phase. -/
def goOn (phase : Phase) : Machine := { m with process := some ⟨args, sequence, phase⟩ }

/-- The next batch, if there is one. No batch can have size zero, which `chunks` panics on. -/
def nextBatch (loop : Loop) : Machine :=
  if loop.tasks = [] ∨ loop.batchSize = 0 then m.stop sequence
  else
    m.goOn args sequence (.sending (loop.tasks.take loop.batchSize)
      { loop with tasks := loop.tasks.drop loop.batchSize })

/-- `broadcast`. -/
def beginBroadcast : Machine :=
  match args.sendKind sequence with
  | .error _ => m.stop sequence
  | .ok kind =>
    let already := sequence.receipts.length
    let m := m.note (.already already sequence)
    if already < sequence.transactions.length then
      match args.fees sequence with
      | .error _ => m.stop sequence
      | .ok fees =>
        match RunArgs.tasks sequence kind fees already with
        | .error _ => m.stop sequence
        | .ok tasks => m.nextBatch args sequence (args.loop sequence already tasks)
    else m.stop sequence

/-- Everything pending was checked. At the begin of a run the sequence is saved even if there
were errors; after a batch an error ends the run. -/
def finishWait (failed : Bool) (loop : Option Loop) : Machine :=
  if failed then m.stop sequence
  else
    let m := { m with saved := sequence.save }
    match loop with
    | none => m.beginBroadcast args sequence.save
    | some loop => m.nextBatch args sequence.save loop

/-- `wait_for_pending`. -/
def startWait (loop : Option Loop) : Machine :=
  if sequence.pending = [] then m.finishWait args sequence false loop
  else m.goOn args sequence (.waiting sequence.pending false loop)

/-- A check completes. -/
def checked (remaining : List TxHash) (failed : Bool) (loop : Option Loop) (hash : TxHash)
    (outcome : Outcome) : Machine :=
  let sequence := sequence.check hash outcome
  let failed := failed || outcome.isError
  let remaining := remaining.erase hash
  if remaining = [] then m.finishWait args sequence failed loop
  else m.goOn args sequence (.waiting remaining failed loop)

/-- A hash was returned: it is recorded at the next position, whichever task it is for. -/
def sent (rest : List Task) (loop : Loop) (hash : TxHash) : Machine :=
  let sequence := (sequence.addPending loop.index hash).save
  let m := { m with saved := sequence }
  let loop := { loop with index := loop.index + 1 }
  if rest = [] then m.startWait args sequence (some loop)
  else m.goOn args sequence (.sending rest loop)

/-- An attempt completes. A task that failed comes back, four times at most. -/
def completed (buffer : List Task) (loop : Loop) (slot : Nat) (task : Task) (answers : Answers) :
    Machine :=
  let m := m.note (.attempt loop.index loop.options task answers)
  match (task.run loop.options answers).1 with
  | .ok hash => m.sent args sequence (buffer.eraseIdx slot) loop hash
  | .error e =>
    if task.attempt ≤ 3 then
      m.goOn args sequence (.sending (buffer.eraseIdx slot ++ [task.retry answers e]) loop)
    else m.stop sequence

/-- One event. Ten checks at most are under way at a time. -/
def step (event : Event) : Option Machine :=
  match event, m.process with
  | .start args, none => some (m.startWait args m.saved none)
  | .check hash outcome, some ⟨args, sequence, .waiting remaining failed loop⟩ =>
    if (remaining.take 10).contains hash ∧ outcome.For hash then
      some (m.checked args sequence remaining failed loop hash outcome)
    else none
  | .complete slot answers, some ⟨args, sequence, .sending buffer loop⟩ =>
    buffer[slot]?.map fun task => m.completed args sequence buffer loop slot task answers
  | .quit, some process => some (m.stop process.sequence)
  | .kill, some _ => some { m with process := none }
  | _, _ => none

/-- The step as a relation. -/
def Step (m : Machine) (event : Event) (m' : Machine) : Prop := m.step event = some m'

/-- A sequence that was not broadcast yet. -/
def initial (transactions : List TransactionWithMetadata) (chain : UInt64) : Machine where
  saved :=
    { transactions := transactions.map fun tx => { tx with hash := none }
      receipts := []
      pending := []
      chain := chain }
  process := none
  log := []

end Machine

end BaseAnvil.Script

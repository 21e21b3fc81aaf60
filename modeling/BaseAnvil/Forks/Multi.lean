import BaseAnvil.Forks.Backend

/-!
# BaseAnvil.Forks.Multi

The handler of the forks (`evm/core/src/fork/multi.rs`).

One handler serves all tests. It keeps the forks that were created, by identifier, and the
tasks that are creating forks. A task asks a remote provider, so when it is ready, and with
what answer, is up to the caller of `advance`. Clones of a fork share the counter that
their identifiers are made with: a fork holds the place of its counter. The handlers that
fetch data in the background and the periodic flush of their caches are left out.
-/

namespace BaseAnvil.Forks

open Lib Chain

namespace ForkId

/-- Returns the identifier for a Fork from a URL and block number. -/
def new (url : String) (num : Option UInt64) : ForkId :=
  match num with
  | some n => ⟨url ++ "@" ++ ("0x" ++ String.ofList (Nat.toDigits 16 n.toNat))⟩
  | none => ⟨url ++ "@" ++ "latest"⟩

/-- The identifier of another consumer of the same fork. -/
def suffixed (id : ForkId) (n : Nat) : ForkId := ⟨id.id ++ "-" ++ n.repr⟩

end ForkId

/-- Represents a _fork_ of a remote chain. Of the options of the EVM, the block. -/
structure CreateFork where
  url : String
  env : Env
  forkBlockNumber : Option UInt64

def Env.mapBlockEnv (f : BlockEnv → BlockEnv) (env : Env) : Env :=
  { env with evmEnv := { env.evmEnv with blockEnv := f env.evmEnv.blockEnv } }

/-- Tracks the created Fork. -/
structure CreatedFork where
  opts : CreateFork
  backend : DatabaseRef
  /-- The place of the counter. -/
  numSenders : Nat

/-- The channel that a request is answered on. -/
abbrev Sender := Nat

/-- `Request`, with the channel for the answer where the handler keeps it for later. -/
inductive Request
  | createFork (fork : CreateFork) (sender : Sender)
  | getFork (id : ForkId)
  | rollFork (id : ForkId) (block : UInt64) (sender : Sender)
  | getEnv (id : ForkId)
  | updateBlock (id : ForkId) (number timestamp : U256)
  | updateEnv (id : ForkId) (env : BlockEnv)
  | shutDown
  | getForkUrl (id : ForkId)

inductive Response
  | created (sender : Sender) (res : Except String (ForkId × DatabaseRef × Env))
  | fork (backend : Option DatabaseRef)
  | env (env : Option Env)
  | done
  | url (url : Option String)

/-- A task that establishes a new fork. -/
structure ForkTask where
  fork : CreateFork
  inProgress : ForkId
  sender : Sender
  additional : List Sender

/-- What a task gets from the provider. -/
structure Provided where
  env : Env
  /-- The number of the block, which the environment may not have. -/
  number : UInt64
  backend : DatabaseRef

structure MultiForkHandler where
  pendingTasks : List ForkTask
  forks : HashMap ForkId CreatedFork
  /-- The counters of consumers, a `usize` each. -/
  counters : List Nat

namespace MultiForkHandler

def new : MultiForkHandler := ⟨[], ∅, []⟩

/-- The counter that a fork shares with its clones. -/
def counter (h : MultiForkHandler) (fork : CreatedFork) : Nat := h.counters.getD fork.numSenders 0

/-- Increment senders and return unique identifier of the fork. -/
def incSenders (h : MultiForkHandler) (fork : CreatedFork) (forkId : ForkId) :
    ForkId × MultiForkHandler :=
  (forkId.suffixed (h.counter fork),
    { h with counters := h.counters.set fork.numSenders (h.counter fork + 1) })

/-- Adds a sender to the first task for the given id, if any. -/
def joinTask (id : ForkId) (sender : Sender) : List ForkTask → Option (List ForkTask)
  | [] => none
  | task :: tasks =>
    if task.inProgress = id then
      some ({ task with additional := task.additional ++ [sender] } :: tasks)
    else (joinTask id sender tasks).map (task :: ·)

def createFork (h : MultiForkHandler) (fork : CreateFork) (sender : Sender) : MultiForkHandler :=
  let forkId := ForkId.new fork.url fork.forkBlockNumber
  match joinTask forkId sender h.pendingTasks with
  | some pendingTasks => { h with pendingTasks := pendingTasks }
  | none => { h with pendingTasks := h.pendingTasks ++ [⟨fork, forkId, sender, []⟩] }

/-- The loop of `insert_new_fork`: notifies all additional senders. -/
def notifyAdditional (fork : CreatedFork) (forkId : ForkId) :
    MultiForkHandler → List Sender → List Response × MultiForkHandler
  | h, [] => ([], h)
  | h, sender :: senders =>
    let (nextForkId, h) := h.incSenders fork forkId
    let h := { h with forks := h.forks.insert nextForkId fork }
    let (responses, h) := notifyAdditional fork forkId h senders
    (.created sender (.ok (nextForkId, fork.backend, fork.opts.env)) :: responses, h)

def insertNewFork (h : MultiForkHandler) (forkId : ForkId) (fork : CreatedFork) (sender : Sender)
    (additional : List Sender) : List Response × MultiForkHandler :=
  let h := { h with forks := h.forks.insert forkId fork }
  let (responses, h) := notifyAdditional fork forkId h additional
  (.created sender (.ok (forkId, fork.backend, fork.opts.env)) :: responses, h)

/-- Changes the block environment of a fork, if it is there. -/
def modifyBlockEnv (h : MultiForkHandler) (id : ForkId) (f : BlockEnv → BlockEnv) :
    MultiForkHandler :=
  match h.forks.lookup id with
  | none => h
  | some fork =>
    let opts := { fork.opts with env := fork.opts.env.mapBlockEnv f }
    { h with forks := h.forks.insert id { fork with opts := opts } }

/-- Update the fork's block entire env. -/
def updateEnv (h : MultiForkHandler) (id : ForkId) (env : BlockEnv) : MultiForkHandler :=
  h.modifyBlockEnv id fun _ => env

/-- Update fork block number and timestamp. -/
def updateBlock (h : MultiForkHandler) (id : ForkId) (number timestamp : U256) : MultiForkHandler :=
  h.modifyBlockEnv id fun env => { env with number := number, timestamp := timestamp }

def getEnv (h : MultiForkHandler) (id : ForkId) : Option Env :=
  (h.forks.lookup id).map (·.opts.env)

def onRequest (h : MultiForkHandler) : Request → List Response × MultiForkHandler
  | .createFork fork sender => ([], h.createFork fork sender)
  | .getFork id => ([.fork ((h.forks.lookup id).map (·.backend))], h)
  | .rollFork id block sender => match h.forks.lookup id with
      | some fork => ([], h.createFork { fork.opts with forkBlockNumber := some block } sender)
      | none => ([.created sender (.error ("No matching fork exists for " ++ id.id))], h)
  | .getEnv id => ([.env (h.getEnv id)], h)
  | .updateBlock id number timestamp => ([], h.updateBlock id number timestamp)
  | .updateEnv id env => ([], h.updateEnv id env)
  | .shutDown => ([.done], { h with forks := ∅ })
  | .getForkUrl id => ([.url ((h.forks.lookup id).map (·.opts.url))], h)

/-- Creates a new fork, from what the provider answers. -/
def establish (h : MultiForkHandler) (fork : CreateFork) (provided : Provided) :
    (ForkId × CreatedFork) × MultiForkHandler :=
  ((.new fork.url (some provided.number),
      ⟨{ fork with env := provided.env }, provided.backend, h.counters.length⟩),
    { h with counters := h.counters ++ [1] })

/-- What is done when a task succeeds. -/
def finish (h : MultiForkHandler) (task : ForkTask) (provided : Provided) :
    List Response × MultiForkHandler :=
  let ((forkId, fork), h) := h.establish task.fork provided
  match h.forks.lookup forkId with
  -- the fork is there already, as it is by now
  | some fork =>
    let (forkId, h) := h.incSenders fork forkId
    h.insertNewFork forkId fork task.sender task.additional
  | none => h.insertNewFork forkId fork task.sender task.additional

/-- One round of the loop of `poll` that advances all tasks: the task at `n` is ready with an
answer, or it is not. -/
def advance (h : MultiForkHandler) (n : Nat) (ready : Option (Except String Provided)) :
    Option (List Response × MultiForkHandler) :=
  h.pendingTasks[n]?.map fun task =>
    let h := { h with pendingTasks := swapRemove h.pendingTasks n }
    match ready with
    | none => ([], { h with pendingTasks := h.pendingTasks ++ [task] })
    | some (.error err) => ((task.sender :: task.additional).map (.created · (.error err)), h)
    | some (.ok provided) => h.finish task provided

/-- The requests that have arrived. -/
def receive (h : MultiForkHandler) : List Request → List Response × MultiForkHandler
  | [] => ([], h)
  | req :: reqs =>
    let (responses, h) := h.onRequest req
    let (responses', h) := h.receive reqs
    (responses ++ responses', h)

/-- All tasks below `n`, from the last one on. -/
def advanceAll (ready : Nat → Option (Except String Provided)) :
    MultiForkHandler → Nat → Option (List Response × MultiForkHandler)
  | h, 0 => some ([], h)
  | h, n + 1 => do
      let (responses, h) ← h.advance n (ready n)
      let (responses', h) ← advanceAll ready h n
      some (responses ++ responses', h)

/-- `poll`: receives new requests, then advances all tasks. -/
def poll (h : MultiForkHandler) (requests : List Request)
    (ready : Nat → Option (Except String Provided)) :
    Option (List Response × MultiForkHandler) := do
  let (responses, h) := h.receive requests
  let (responses', h) ← advanceAll ready h h.pendingTasks.length
  some (responses ++ responses', h)

end MultiForkHandler

end BaseAnvil.Forks

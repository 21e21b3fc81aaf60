import BaseAnvil.Cheats.ExpectCall

/-!
# BaseAnvil.Cheats.ExpectEmit

Expected logs: `vm.expectEmit` and what is done with every log.

The expectations form a queue. One that has been declared is filled with the next log, the
template. From then on the logs are compared with the first expectation that has not been
found; once found, it goes to the back of the queue.

Where the source panics, the functions here have no result: removing from the queue or inserting
into it at a place that is not there, and counting for an expectation that is not filled. The
texts that say how a log differs from the expected one are a parameter.
-/

namespace BaseAnvil.Cheats

open Lib
open Pool (Address B256)

/-! ### Logs and expectations -/

/-- `LogData`: no opcode has more than four topics. -/
structure RawLog where
  topics : List B256
  data : Bytes
  length_topics_le : topics.length ≤ 4
deriving DecidableEq

structure Log where
  address : Address
  data : RawLog
deriving DecidableEq

structure ExpectedEmit where
  depth : Nat
  log : Option RawLog
  /-- One for each topic, and the last one for the data. -/
  checks : Vector Bool 5
  address : Option Address
  anonymous : Bool
  found : Bool
  count : UInt64
  mismatchError : Option String

/-- The texts that are kept for a log that does not match: `get_emit_mismatch_message`, with the
events decoded, and the one for another emitter. -/
structure EmitMessages where
  mismatch : Vector Bool 5 → RawLog → RawLog → Bool → String
  emitter : Address → Address → String

/-- `checks_topics_and_data`. -/
def checksTopicsAndData (checks : Vector Bool 5) (expected log : RawLog) : Bool :=
  if h : log.topics.length = expected.topics.length then
    (List.finRange log.topics.length).all (fun i =>
      !checks.get ⟨i, by have := log.length_topics_le; omega⟩ ||
        log.topics.get i == expected.topics.get (i.cast h)) &&
      (!checks.get 4 || expected.data == log.data)
  else
    false

/-- How often which log was seen that passes the checks against the expected one. -/
structure LogCountMap where
  checks : Vector Bool 5
  expectedLog : RawLog
  map : HashMap RawLog UInt64

namespace LogCountMap

def new (expectedEmit : ExpectedEmit) : Option LogCountMap :=
  expectedEmit.log.map fun log => ⟨expectedEmit.checks, log, ∅⟩

def satisfiesChecks (m : LogCountMap) (log : RawLog) : Bool :=
  checksTopicsAndData m.checks m.expectedLog log

def insert (m : LogCountMap) (log : RawLog) : LogCountMap :=
  match m.map.lookup log with
  | some count => { m with map := m.map.insert log (count + 1) }
  | none =>
    if m.satisfiesChecks log then { m with map := m.map.insert log 1 } else m

/-- The sum wraps, as it does without overflow checks. -/
def countUnchecked (m : LogCountMap) : UInt64 := UInt64.ofNat (m.map.sumBy UInt64.toNat)

def count (m : LogCountMap) (log : RawLog) : UInt64 :=
  if m.satisfiesChecks log then m.countUnchecked else 0

end LogCountMap

/-! ### The queue -/

/-- The expectations, each with how often it was seen from which address. -/
abbrev ExpectedEmitTracker := List (ExpectedEmit × HashMap Address LogCountMap)

/-- `VecDeque::remove`. -/
def removeAt {α : Type} (queue : List α) (index : Nat) : Option (α × List α) :=
  queue[index]?.map (·, queue.eraseIdx index)

/-- `VecDeque::insert`, which panics past the end. -/
def insertAt {α : Type} (queue : List α) (index : Nat) (a : α) : Option (List α) :=
  if index ≤ queue.length then some (queue.insertIdx index a) else none

namespace ExpectedEmitTracker

/-- `expect_emit`. What has been found stays at the back of the queue. -/
def expectEmit (queue : ExpectedEmitTracker) (depth : Nat) (checks : Vector Bool 5)
    (address : Option Address) (anonymous : Bool) (count : UInt64) :
    Option ExpectedEmitTracker :=
  let expectedEmit : ExpectedEmit := ⟨depth, none, checks, address, anonymous, false, count, none⟩
  match queue.findIdx? (·.1.found) with
  | some foundEmitPos => insertAt queue foundEmitPos (expectedEmit, ∅)
  | none => some (queue ++ [(expectedEmit, ∅)])

/-- The log is one that was expected not to be emitted. -/
def isUnwanted (log : Log) (expectedEmit : ExpectedEmit) : Bool :=
  expectedEmit.count == 0 && !expectedEmit.found &&
    expectedEmit.log.any (checksTopicsAndData expectedEmit.checks · log.data) &&
    (expectedEmit.address.isNone || expectedEmit.address == some log.address)

/-- If there is anything to fill, the last one that has not been found; otherwise the first one
that is waited for. -/
def indexToFillOrCheck (queue : ExpectedEmitTracker) : Nat :=
  if queue.any (·.1.log.isNone) then
    (queue.findIdx? (·.1.found)).getD queue.length - 1
  else
    (queue.findIdx? fun e => !e.1.found && e.1.count > 0).getD 0

/-- Count the log for its address. -/
def countLog (expectedEmit : ExpectedEmit) (countMap : HashMap Address LogCountMap) (log : Log) :
    Option (HashMap Address LogCountMap) :=
  match countMap.lookup log.address with
  | some logCountMap => some (countMap.insert log.address (logCountMap.insert log.data))
  | none =>
    (LogCountMap.new expectedEmit).map fun logCountMap =>
      if logCountMap.satisfiesChecks log.data then
        countMap.insert log.address (logCountMap.insert log.data)
      else
        countMap

/-- The log was seen often enough: from the expected address, or from the first address that
comes up. -/
def isCounted (ord : IterOrder Address) (expectedEmit : ExpectedEmit)
    (countMap : HashMap Address LogCountMap) (log : Log) : Bool :=
  match expectedEmit.address with
  | some emitter =>
    (countMap.lookup emitter).any fun logMap => logMap.count log.data ≥ expectedEmit.count
  | none =>
    (((ord.toList countMap.keys).filterMap countMap.lookup).find?
      (·.satisfiesChecks log.data)).any fun logMap =>
        logMap.count log.data ≥ expectedEmit.count

/-- Compare a filled expectation with a log. The source compares the checksummed texts of the
two addresses. -/
def check (messages : EmitMessages) (ord : IterOrder Address) (expectedEmit : ExpectedEmit)
    (expected : RawLog) (countMap : HashMap Address LogCountMap) (log : Log) : ExpectedEmit :=
  if !checksTopicsAndData expectedEmit.checks expected log.data then
    { expectedEmit with
      found := false
      mismatchError := some
        (messages.mismatch expectedEmit.checks expected log.data expectedEmit.anonymous) }
  else
    match expectedEmit.address.filter (· ≠ log.address) with
    | some address =>
      { expectedEmit with
        found := false
        mismatchError := some (messages.emitter address log.address) }
    | none => { expectedEmit with found := isCounted ord expectedEmit countMap log }

/-- What is done with the expectation taken out of the queue at `index`. -/
def fillOrCheck (messages : EmitMessages) (ord : IterOrder Address) (log : Log) (index : Nat)
    (expectedEmit : ExpectedEmit) (countMap : HashMap Address LogCountMap)
    (queue : ExpectedEmitTracker) : Option (ExpectedEmitTracker × Option String) :=
  match expectedEmit.log with
  | none =>
    if expectedEmit.anonymous || !log.data.topics.isEmpty then
      (insertAt queue index ({ expectedEmit with log := some log.data }, countMap)).map (·, none)
    else
      some (queue, some "use vm.expectEmitAnonymous to match anonymous events")
  | some expected =>
    (countLog expectedEmit countMap log).map fun countMap =>
      let checked := check messages ord expectedEmit expected countMap log
      (if checked.found then queue ++ [(checked, countMap)] else (checked, countMap) :: queue,
        none)

/-- `handle_expect_emit`, with the reason for a failure if there is one. -/
def handleExpectEmit (messages : EmitMessages) (ord : IterOrder Address)
    (queue : ExpectedEmitTracker) (log : Log) : Option (ExpectedEmitTracker × Option String) :=
  if queue.all (·.1.found) then
    some (queue, none)
  else if queue.any (isUnwanted log ·.1) then
    some (queue, some "log emitted but expected 0 times")
  else if !queue.any (·.1.log.isNone) && queue.all (fun e => e.1.found || e.1.count == 0) then
    some (queue, none)
  else
    (removeAt queue (indexToFillOrCheck queue)).bind fun removed =>
      fillOrCheck messages ord log (indexToFillOrCheck queue) removed.1.1 removed.1.2 removed.2

/-- The hooks `log` and `log_full`. -/
def log (messages : EmitMessages) (ord : IterOrder Address) (queue : ExpectedEmitTracker)
    (log : Log) : Option (ExpectedEmitTracker × Option String) :=
  if queue.isEmpty then some (queue, none) else handleExpectEmit messages ord queue log

/-! ### Sequences of cheatcodes and logs -/

inductive EmitOp
  | expectEmit (depth : Nat) (checks : Vector Bool 5) (address : Option Address)
      (anonymous : Bool) (count : UInt64)
  | log (log : Log)

/-- One step, unless it panics. -/
def exec (messages : EmitMessages) (ord : IterOrder Address) (queue : ExpectedEmitTracker) :
    EmitOp → Option ExpectedEmitTracker
  | .expectEmit depth checks address anonymous count =>
    queue.expectEmit depth checks address anonymous count
  | .log l => (queue.log messages ord l).map (·.1)

/-- All steps, one after the other. -/
def execAll (messages : EmitMessages) (ord : IterOrder Address) (queue : ExpectedEmitTracker)
    (ops : List EmitOp) : Option ExpectedEmitTracker :=
  ops.foldlM (exec messages ord) queue

end ExpectedEmitTracker

end BaseAnvil.Cheats

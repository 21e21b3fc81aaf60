import BaseAnvil.Cheats.Prank
import BaseAnvil.Chain.Snapshots

/-!
# BaseAnvil.Cheats.ExpectCall

Expected calls: `vm.expectCall`, the counting of the calls and the verdict at the end.

The expectations are kept by callee and calldata. An entry has the value and the gas that the
calls are to have, how often they are expected, and how often they were seen. Every call goes
through all entries of its callee. When the outermost call returns without a revert, the
first entry whose counters do not agree becomes the test's error; here it is the entry that is
returned, of which the source makes the text.
-/

namespace BaseAnvil.Cheats

open Lib Finmap
open Pool (Address)
open Chain (U256)

abbrev Bytes := List UInt8

/-! ### The tracker -/

inductive ExpectedCallType
  /-- The call is expected to be made at least once. -/
  | nonCount
  /-- The exact number of calls expected. -/
  | count
deriving DecidableEq

structure ExpectedCallData where
  value : Option U256
  gas : Option UInt64
  minGas : Option UInt64
  count : UInt64
  callType : ExpectedCallType
deriving DecidableEq

/-- By callee and calldata: what is expected, and how often it was seen. -/
abbrev ExpectedCallTracker := HashMap Address (HashMap Bytes (ExpectedCallData × UInt64))

/-- The orders in which the two levels of the tracker are walked. -/
structure TrackerOrder where
  addresses : IterOrder Address
  calldatas : IterOrder Bytes

/-- What a call of `vm.expectCall` or `vm.expectCallMinGas` gives. -/
structure Expectation where
  callee : Address
  data : Bytes
  msgValue : Option U256
  gas : Option UInt64
  minGas : Option UInt64
  count : Option UInt64
deriving DecidableEq

/-- What the hook reads of `CallInputs`. -/
structure Call where
  targetAddress : Address
  bytecodeAddress : Address
  input : Bytes
  transferValue : Option U256
  gasLimit : UInt64
deriving DecidableEq

/-- If the value of the call is not zero, the machine adds a stipend to its gas. -/
def positiveValueCostStipend (value : Option U256) : UInt64 :=
  if value.any (0 < ·) then 2300 else 0

namespace ExpectedCallTracker

/-- `expect_call`. The entry of the callee is there afterwards even if this fails. The
addition to the gas wraps, as it does without overflow checks. -/
def expectCall (tracker : ExpectedCallTracker) (target : Address) (calldata : Bytes)
    (value : Option U256) (gas minGas : Option UInt64) (count : UInt64)
    (callType : ExpectedCallType) : Except String Unit × ExpectedCallTracker :=
  let expecteds := (tracker.lookup target).getD ∅
  let gas := gas.map (· + positiveValueCostStipend value)
  let minGas := minGas.map (· + positiveValueCostStipend value)
  let new := tracker.insert target
    (expecteds.insert calldata (⟨value, gas, minGas, count, callType⟩, 0))
  match callType, expecteds.lookup calldata with
  | .count, none => (.ok (), new)
  | .count, some _ =>
    (.error "counted expected calls can only bet set once", tracker.insert target expecteds)
  | .nonCount, none => (.ok (), new)
  | .nonCount, some (expected, actualCount) =>
    if expected.callType = .nonCount then
      (.ok (), tracker.insert target
        (expecteds.insert calldata ({ expected with count := expected.count + 1 }, actualCount)))
    else
      (.error "cannot overwrite a counted expectCall with a non-counted expectCall",
        tracker.insert target expecteds)

/-- The cheatcodes: without a count one more call is expected, with a count that many. -/
def expect (tracker : ExpectedCallTracker) (e : Expectation) :
    Except String Unit × ExpectedCallTracker :=
  tracker.expectCall e.callee e.data e.msgValue e.gas e.minGas (e.count.getD 1)
    (if e.count.isSome then .count else .nonCount)

end ExpectedCallTracker

/-- The test by which the hook takes a call to the callee for an expected one. -/
def ExpectedCallData.sees (expected : ExpectedCallData) (calldata : Bytes) (call : Call) : Bool :=
  calldata.length ≤ call.input.length &&
    calldata == call.input.take calldata.length &&
    expected.value.all (some · == call.transferValue) &&
    expected.gas.all (· == call.gasLimit) &&
    expected.minGas.all (· ≤ call.gasLimit)

/-- `failed` at the end of the outermost call. -/
def ExpectedCallData.failed (expected : ExpectedCallData) (actualCount : UInt64) : Bool :=
  match expected.callType with
  | .count => expected.count != actualCount
  | .nonCount => expected.count > actualCount

namespace ExpectedCallTracker

/-- Match every partial or full calldata. -/
def countCall (call : Call) (expecteds : HashMap Bytes (ExpectedCallData × UInt64)) :
    List Bytes → HashMap Bytes (ExpectedCallData × UInt64)
  | [] => expecteds
  | calldata :: rest =>
    match expecteds.lookup calldata with
    | some (expected, actualCount) =>
      if expected.sees calldata call then
        countCall call (expecteds.insert calldata (expected, actualCount + 1)) rest
      else
        countCall call expecteds rest
    | none => countCall call expecteds rest

/-- The expected calls' part in `Cheatcodes::call_with_executor`. -/
def call (ord : TrackerOrder) (tracker : ExpectedCallTracker) (inputs : Call) :
    ExpectedCallTracker :=
  if isCheatcodeCall inputs.targetAddress then tracker
  else
    match tracker.lookup inputs.bytecodeAddress with
    | none => tracker
    | some expecteds => tracker.insert inputs.bytecodeAddress
        (countCall inputs expecteds (ord.calldatas.toList expecteds.keys))

/-- The first entry of a callee that fails. -/
def firstFailed (expecteds : HashMap Bytes (ExpectedCallData × UInt64)) :
    List Bytes → Option (Bytes × ExpectedCallData × UInt64)
  | [] => none
  | calldata :: rest =>
    match expecteds.lookup calldata with
    | some (expected, actualCount) =>
      if expected.failed actualCount then some (calldata, expected, actualCount)
      else firstFailed expecteds rest
    | none => firstFailed expecteds rest

/-- The expected calls' part in `Cheatcodes::call_end`, for the outermost call and if it did
not revert: the entry that is reported, if any. -/
def callEnd (ord : TrackerOrder) (tracker : ExpectedCallTracker) :
    Option (Address × Bytes × ExpectedCallData × UInt64) :=
  (ord.addresses.toList tracker.keys).findSome? fun address =>
    (tracker.lookup address).bind fun calldatas =>
      (firstFailed calldatas (ord.calldatas.toList calldatas.keys)).map (address, ·)

/-- The tracker after a number of cheatcodes, failed ones among them. -/
def expectAll (tracker : ExpectedCallTracker) (es : List Expectation) : ExpectedCallTracker :=
  es.foldl (fun tracker e => (tracker.expect e).2) tracker

/-- The tracker after a number of calls. -/
def callAll (ord : TrackerOrder) (tracker : ExpectedCallTracker) (calls : List Call) :
    ExpectedCallTracker :=
  calls.foldl (fun tracker inputs => tracker.call ord inputs) tracker

/-- A test that makes these expectations, and then these calls, passes as far as expected
calls go. -/
def Passes (ord : TrackerOrder) (es : List Expectation) (calls : List Call) : Prop :=
  callEnd ord (callAll ord (expectAll ∅ es) calls) = none

instance (ord : TrackerOrder) (es : List Expectation) (calls : List Call) :
    Decidable (Passes ord es calls) :=
  inferInstanceAs (Decidable (_ = none))

end ExpectedCallTracker

/-! ### One entry through a test -/

/-- The call is one that the entry of a callee and a calldata counts. -/
def ExpectedCallData.counts (expected : ExpectedCallData) (target : Address) (calldata : Bytes)
    (call : Call) : Bool :=
  !isCheatcodeCall call.targetAddress && call.bytecodeAddress == target &&
    expected.sees calldata call

/-- The data of an entry that is made for the expectation. -/
def Expectation.toData (e : Expectation) : ExpectedCallData where
  value := e.msgValue
  gas := e.gas.map (· + positiveValueCostStipend e.msgValue)
  minGas := e.minGas.map (· + positiveValueCostStipend e.msgValue)
  count := e.count.getD 1
  callType := if e.count.isSome then .count else .nonCount

namespace ExpectedCallTracker

/-- The entry of a callee and a calldata. -/
def entry (tracker : ExpectedCallTracker) (target : Address) (calldata : Bytes) :
    Option (ExpectedCallData × UInt64) :=
  (tracker.lookup target).bind (·.lookup calldata)

variable {tracker : ExpectedCallTracker} {ord : TrackerOrder} {target target' : Address}
  {calldata calldata' : Bytes}

theorem entry_insert :
    entry (tracker.insert target expecteds) target' calldata' =
      if target' = target then expecteds.lookup calldata' else entry tracker target' calldata' := by
  unfold entry
  rw [HashMap.lookup_insert_ite]
  split <;> rfl

theorem lookup_getD_empty :
    ((tracker.lookup target).getD ∅).lookup calldata = entry tracker target calldata := by
  unfold entry
  cases tracker.lookup target with
  | none => exact lookup_empty calldata
  | some expecteds => rfl

theorem entry_insert_getD :
    entry (tracker.insert target ((tracker.lookup target).getD ∅)) target' calldata' =
      entry tracker target' calldata' := by
  rw [entry_insert, lookup_getD_empty]
  split
  · rename_i h
    rw [h]
  · rfl

theorem entry_insert_insert (e : ExpectedCallData × UInt64) :
    entry (tracker.insert target (((tracker.lookup target).getD ∅).insert calldata e))
        target' calldata' =
      if target' = target ∧ calldata' = calldata then some e
      else entry tracker target' calldata' := by
  rw [entry_insert, HashMap.lookup_insert_ite, lookup_getD_empty]
  by_cases htarget : target' = target
  · by_cases hcalldata : calldata' = calldata <;> simp [htarget, hcalldata]
  · simp [htarget]

variable {e : Expectation}

/-- A first expectation makes the entry. -/
theorem entry_expect_of_none (h : entry tracker e.callee e.data = none) :
    entry (tracker.expect e).2 e.callee e.data = some (e.toData, 0) := by
  have hlook : ((tracker.lookup e.callee).getD ∅).lookup e.data = none := by
    rw [lookup_getD_empty, h]
  obtain ⟨callee, data, msgValue, gas, minGas, count⟩ := e
  cases count <;> simp [expect, expectCall, hlook, entry_insert_insert, Expectation.toData]

/-- A further one adds to the count, if neither has a count of its own. -/
theorem entry_expect_of_some {x : ExpectedCallData} {n : UInt64}
    (h : entry tracker e.callee e.data = some (x, n)) :
    entry (tracker.expect e).2 e.callee e.data =
      some (if e.count = none ∧ x.callType = .nonCount then { x with count := x.count + 1 } else x,
        n) := by
  have hlook : ((tracker.lookup e.callee).getD ∅).lookup e.data = some (x, n) := by
    rw [lookup_getD_empty, h]
  obtain ⟨callee, data, msgValue, gas, minGas, count⟩ := e
  cases count with
  | some n =>
    simp only [expect, expectCall, hlook, Option.isSome_some, if_true, entry_insert_getD]
    simpa using h
  | none =>
    by_cases htype : x.callType = .nonCount
    · simp [expect, expectCall, hlook, htype, entry_insert_insert]
    · simpa [expect, expectCall, hlook, htype, entry_insert_getD] using h

theorem entry_expect_of_ne (h : ¬ (target = e.callee ∧ calldata = e.data)) :
    entry (tracker.expect e).2 target calldata = entry tracker target calldata := by
  unfold expect expectCall
  dsimp only
  split
  · rw [entry_insert_insert, if_neg h]
  · rw [entry_insert_getD]
  · rw [entry_insert_insert, if_neg h]
  · split
    · rw [entry_insert_insert, if_neg h]
    · rw [entry_insert_getD]

variable {keys : List Bytes}

theorem lookup_countCall (inputs : Call) (hnodup : keys.Nodup)
    (expecteds : HashMap Bytes (ExpectedCallData × UInt64)) :
    (countCall inputs expecteds keys).lookup calldata =
      if calldata ∈ keys then
        (expecteds.lookup calldata).map fun e =>
          (e.1, if e.1.sees calldata inputs then e.2 + 1 else e.2)
      else expecteds.lookup calldata := by
  induction keys generalizing expecteds with
  | nil => simp [countCall]
  | cons key keys ih =>
    have ih' := ih (List.nodup_cons.mp hnodup).2
    have hnotMem := (List.nodup_cons.mp hnodup).1
    rw [countCall]
    by_cases hkey : calldata = key
    · subst hkey
      cases hlook : expecteds.lookup calldata with
      | none => simp [ih', hnotMem, hlook]
      | some e =>
        obtain ⟨expected, actualCount⟩ := e
        dsimp only
        split <;> rename_i hsees <;>
          simp [ih', hnotMem, hlook, hsees, lookup_insert]
    · cases hlook : expecteds.lookup key with
      | none => simp [ih', hkey]
      | some e =>
        obtain ⟨expected, actualCount⟩ := e
        dsimp only
        split <;> simp [ih', hkey, lookup_insert_of_ne]

/-- A call is counted by the entries of its callee that take it for an expected one. -/
theorem entry_call (inputs : Call) :
    entry (tracker.call ord inputs) target calldata =
      (entry tracker target calldata).map fun e =>
        (e.1, if e.1.counts target calldata inputs then e.2 + 1 else e.2) := by
  unfold call ExpectedCallData.counts
  cases hcheat : isCheatcodeCall inputs.targetAddress with
  | true => simp
  | false =>
    by_cases htarget : inputs.bytecodeAddress = target
    · subst htarget
      cases hlook : tracker.lookup inputs.bytecodeAddress with
      | none => simp [entry, hlook]
      | some expecteds =>
        simp only [Bool.false_eq_true, if_false, entry_insert, if_true,
          lookup_countCall inputs (ord.calldatas.nodup _), ord.calldatas.mem_toList,
          mem_keys]
        unfold entry
        rw [hlook, Option.bind_some]
        split
        · simp
        · rename_i hmem
          rw [lookup_eq_none.mpr hmem, Option.map_none]
    · cases hlook : tracker.lookup inputs.bytecodeAddress with
      | none => simp [htarget]
      | some expecteds => simp [htarget, entry_insert, Ne.symm htarget]

theorem entry_callAll (calls : List Call) :
    entry (callAll ord tracker calls) target calldata =
      (entry tracker target calldata).map fun e =>
        (e.1, e.2 + UInt64.ofNat (calls.countP (e.1.counts target calldata))) := by
  induction calls using List.reverseRecOn with
  | nil => simp [callAll]
  | append_singleton calls inputs ih =>
    rw [callAll, List.foldl_append, List.foldl_cons, List.foldl_nil, entry_call]
    rw [callAll] at ih
    rw [ih]
    cases entry tracker target calldata with
    | none => rfl
    | some e =>
      simp only [Option.map_some, List.countP_append, List.countP_singleton]
      split <;> simp [UInt64.ofNat_add, UInt64.add_assoc]

theorem firstFailed_eq_none {expecteds : HashMap Bytes (ExpectedCallData × UInt64)} :
    firstFailed expecteds keys = none ↔
      ∀ calldata ∈ keys, ∀ e, expecteds.lookup calldata = some e → e.1.failed e.2 = false := by
  induction keys with
  | nil => simp [firstFailed]
  | cons key keys ih =>
    rw [firstFailed, List.forall_mem_cons]
    cases hlook : expecteds.lookup key with
    | none => simp [ih]
    | some e =>
      obtain ⟨expected, actualCount⟩ := e
      cases hfailed : expected.failed actualCount with
      | true => simp [hfailed]
      | false => simp [hfailed, ih]

/-- Nothing is reported if and only if no entry fails. -/
theorem callEnd_eq_none :
    callEnd ord tracker = none ↔
      ∀ target calldata e, entry tracker target calldata = some e → e.1.failed e.2 = false := by
  unfold callEnd entry
  simp only [List.findSome?_eq_none_iff, ord.addresses.mem_toList, mem_keys,
    Option.bind_eq_none_iff, Option.map_eq_none_iff, firstFailed_eq_none,
    ord.calldatas.mem_toList]
  constructor
  · intro h target calldata e he
    obtain ⟨expecteds, hlook, hlook'⟩ := Option.bind_eq_some_iff.mp he
    exact h target (mem_of_lookup_eq_some hlook) expecteds hlook calldata
      (mem_of_lookup_eq_some hlook') e hlook'
  · intro h target _ expecteds hlook calldata _ e hlook'
    exact h target calldata e (by rw [hlook, Option.bind_some, hlook'])

end ExpectedCallTracker

end BaseAnvil.Cheats

import BaseAnvil.Lib.HashMap
import BaseAnvil.Lib.Run

/-!
# BaseAnvil.Cheats.GasSnapshot

Gas snapshots of sections: `startSnapshotGas` and `stopSnapshotGas` (`cheatcodes/src/evm.rs`), and
the hook that meters the gas of a section opcode by opcode (`Cheatcodes::meter_gas_record` of
`cheatcodes/src/inspector.rs`).

The last part puts these into the frames of a test: a frame is entered, executes opcodes, some of
which call a cheatcode, and is left. What `total_gas_spent` is at an opcode is part of the event,
so it may be anything: pausing and resetting gas metering only change these numbers.
-/

namespace BaseAnvil.Cheats

open Lib

/-! ### The metering -/

structure GasRecord where
  group : String
  name : String
  /-- A `u64`. -/
  gasUsed : Nat
  depth : Nat
deriving DecidableEq, Repr

/-- `GasMetering`, as far as snapshots read or write it. -/
structure GasMetering where
  activeGasSnapshot : Option (String × String)
  recording : Bool
  /-- A `u64`: the gas spent at the last opcode that was metered. -/
  lastGasUsed : Nat
  gasRecords : List GasRecord
deriving DecidableEq, Repr

/-- `u64::saturating_add`. -/
def saturatingAdd (a b : Nat) : Nat := min (a + b) (2 ^ 64 - 1)

/-- The record after an opcode at its depth. The first opcode that is metered at all only sets
`last_gas_used`. -/
def GasRecord.metered (record : GasRecord) (gas last : Nat) : GasRecord :=
  if last ≠ 0 then { record with gasUsed := saturatingAdd record.gasUsed (gas - last) } else record

/-- The loop of `meter_gas_record` over the records, with `last_gas_used`. -/
def meterRecords (gas depth : Nat) : List GasRecord → Nat → List GasRecord × Nat
  | [], last => ([], last)
  | record :: records, last =>
    if depth = record.depth then
      let rest := meterRecords gas depth records gas
      (record.metered gas last :: rest.1, rest.2)
    else
      let rest := meterRecords gas depth records last
      (record :: rest.1, rest.2)

namespace GasMetering

variable (self : GasMetering)

def start : GasMetering := { self with recording := true }

def stop : GasMetering := { self with recording := false }

/-- `meter_gas_record`, for an opcode that will be executed. -/
def meterGasRecord (gas depth : Nat) : GasMetering :=
  let metered := meterRecords gas depth self.gasRecords self.lastGasUsed
  { self with gasRecords := metered.1, lastGasUsed := metered.2 }

end GasMetering

/-! ### The cheatcodes -/

/-- What the snapshot cheatcodes read and write. -/
structure SnapshotState where
  metering : GasMetering
  gasSnapshots : HashMap String (HashMap String String)
  /-- The name of `config.running_artifact`. -/
  runningArtifact : Option String

/-- What a cheatcode returns: an error, or a number (`none` for empty data). -/
abbrev SnapshotResult := Except String (Option Nat)

namespace SnapshotState

variable (self : SnapshotState)

/-- `derive_snapshot_name`. It panics if there is neither a group nor a running contract. -/
def deriveSnapshotName (group name : Option String) : Option (String × String) :=
  (group.or self.runningArtifact).map fun group => (group, name.getD "default")

/-- `inner_start_gas_snapshot`, called at this depth. -/
def innerStartGasSnapshot (depth : Nat) (group name : Option String) :
    Option (SnapshotResult × SnapshotState) :=
  match self.metering.activeGasSnapshot with
  | some active =>
    some (.error ("gas snapshot was already started with group: " ++ active.1 ++ " and name: " ++
      active.2), self)
  | none =>
    (self.deriveSnapshotName group name).map fun key =>
      let record : GasRecord := { group := key.1, name := key.2, gasUsed := 0, depth := depth }
      let metering := { self.metering with
        gasRecords := self.metering.gasRecords ++ [record]
        activeGasSnapshot := some key }
      (.ok none, { self with metering := metering.start })

/-- The group and name of the section to stop: as given, or else those of the active one. -/
def stopKey (group name : Option String) : Option (String × String) :=
  match group, name with
  | some group, some name => some (group, name)
  | _, _ => self.metering.activeGasSnapshot

/-- The snapshot of a section is written. -/
def insertSnapshot (key : String × String) (value : Nat) : SnapshotState :=
  let group := (self.gasSnapshots.lookup key.1).getD ∅
  { self with
    gasSnapshots := self.gasSnapshots.insert key.1 (group.insert key.2 (toString value)) }

/-- `inner_stop_gas_snapshot`. It panics if there is no name and no active section. -/
def innerStopGasSnapshot (group name : Option String) : Option (SnapshotResult × SnapshotState) :=
  (self.stopKey group name).map fun key =>
    match self.metering.gasRecords.find? fun r => r.group == key.1 && r.name == key.2 with
    | none =>
      (.error ("no gas snapshot was started with the name: " ++ key.2 ++ " in group: " ++ key.1),
        self)
    | some record =>
      -- 171 is the gas that the snapshot itself takes.
      let value := record.gasUsed - 171
      let metering := self.metering.stop
      let metering := { metering with
        gasRecords := metering.gasRecords.filter fun r => r.group != key.1 && r.name != key.2 }
      let metering :=
        if metering.activeGasSnapshot = some key then
          { metering with activeGasSnapshot := none }
        else metering
      (.ok (some value), { self.insertSnapshot key value with metering := metering })

end SnapshotState

/-- The cheatcodes, in all their overloads. -/
inductive SnapshotCall
  | startSnapshotGas0 (name : String)
  | startSnapshotGas1 (group name : String)
  | stopSnapshotGas0
  | stopSnapshotGas1 (name : String)
  | stopSnapshotGas2 (group name : String)
deriving DecidableEq, Repr

/-- `apply_stateful`. -/
def SnapshotCall.apply (state : SnapshotState) (depth : Nat) :
    SnapshotCall → Option (SnapshotResult × SnapshotState)
  | .startSnapshotGas0 name => state.innerStartGasSnapshot depth none (some name)
  | .startSnapshotGas1 group name => state.innerStartGasSnapshot depth (some group) (some name)
  | .stopSnapshotGas0 => state.innerStopGasSnapshot none none
  | .stopSnapshotGas1 name => state.innerStopGasSnapshot none (some name)
  | .stopSnapshotGas2 group name => state.innerStopGasSnapshot (some group) (some name)

/-! ### Frames -/

/-- The section that is being measured. The program does not keep this. -/
structure Measuring where
  /-- The frame it was started in. -/
  frame : Nat
  /-- `last_gas_used` when it was started. -/
  leftover : Nat
  /-- The gas spent by the frame at its first opcode after the start, and at its last one. -/
  steps : Option (Nat × Nat)
deriving DecidableEq, Repr

/-- A section that was stopped in the frame it was started in. -/
structure Measured where
  gasUsed : Nat
  first : Nat
  last : Nat
deriving DecidableEq, Repr

/-- A test, with its frames (the innermost one first), each known by its number. -/
structure SnapshotMachine where
  state : SnapshotState
  frames : List Nat
  entered : Nat
  current : Option Measuring
  measured : List Measured
  panicked : Bool

/-- What can happen to the inspector, in the frames of a test. -/
inductive SnapshotEvent
  /-- A call or create opens a frame. -/
  | enter
  | exit
  /-- An opcode, with the gas that its frame has spent, and whether the frame is already to end
  for another reason. -/
  | opcode (gas : UInt64) (finished : Bool)
  /-- An opcode that calls a cheatcode. -/
  | cheat (gas : UInt64) (call : SnapshotCall)
deriving DecidableEq, Repr

namespace Measuring

/-- The frame executes an opcode. -/
def note (gas : Nat) (self : Measuring) : Measuring :=
  { self with steps := some ((self.steps.map Prod.fst).getD gas, gas) }

end Measuring

namespace SnapshotMachine

variable (m : SnapshotMachine)

def depth : Nat := m.frames.length

/-- The section is being measured in the innermost frame. -/
def measuresHere (x : Measuring) : Prop := m.frames.head? = some x.frame

instance : DecidablePred m.measuresHere := fun _ => inferInstanceAs (Decidable (_ = _))

/-- The `step` hook. -/
def meter (gas : Nat) : SnapshotMachine :=
  { m with
    state := if m.state.metering.recording then
        { m.state with metering := m.state.metering.meterGasRecord gas m.depth }
      else m.state
    current := m.current.map fun x => if m.measuresHere x then x.note gas else x }

/-- A section was started. -/
def started (state : SnapshotState) : SnapshotMachine :=
  { m with
    state := state
    current := m.frames.head?.map fun frame =>
      { frame := frame, leftover := m.state.metering.lastGasUsed, steps := none } }

/-- A section was stopped. What it measured is noted if it was started in the same frame. -/
def stopped (state : SnapshotState) : SnapshotMachine :=
  { m with
    state := state
    current := none
    measured := m.measured ++ (m.current.toList.flatMap fun x =>
      if m.measuresHere x then
        m.state.metering.gasRecords.flatMap fun record =>
          x.steps.toList.map fun steps => ⟨record.gasUsed, steps.1, steps.2⟩
      else []) }

/-- A cheatcode is called. -/
def invoke (call : SnapshotCall) : SnapshotMachine :=
  match call.apply m.state m.depth with
  | none => { m with panicked := true }
  | some (.error _, state) => { m with state := state }
  | some (.ok none, state) => m.started state
  | some (.ok (some _), state) => m.stopped state

/-- One event. Nothing happens after a panic. -/
def step (event : SnapshotEvent) : Option SnapshotMachine :=
  if m.panicked then none
  else match event with
    | .enter => some { m with frames := m.entered :: m.frames, entered := m.entered + 1 }
    | .exit => if m.frames = [] then none else some { m with frames := m.frames.tail }
    | .opcode gas finished =>
      if m.frames = [] then none else some (if finished then m else m.meter gas.toNat)
    | .cheat gas call => if m.frames = [] then none else some ((m.meter gas.toNat).invoke call)

/-- The step as a relation. -/
def Step (m : SnapshotMachine) (event : SnapshotEvent) (m' : SnapshotMachine) : Prop :=
  m.step event = some m'

/-- The start of a test. -/
def initial (runningArtifact : Option String) : SnapshotMachine where
  state :=
    { metering :=
        { activeGasSnapshot := none
          recording := false
          lastGasUsed := 0
          gasRecords := [] }
      gasSnapshots := ∅
      runningArtifact := runningArtifact }
  frames := []
  entered := 0
  current := none
  measured := []
  panicked := false

end SnapshotMachine

end BaseAnvil.Cheats

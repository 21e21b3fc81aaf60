import BaseAnvil.Lib.Run
import BaseAnvil.Pool.Transaction

/-!
# BaseAnvil.Cheats.Prank

Pranks: calls and creates made under another sender.

The inspector keeps the pranks in a map keyed by call depth. The hooks that run before a
call and before a create look up the prank of the current depth, or of the closest smaller
one, and exchange the sender at the depth of the prank and `tx.origin` there and below. The
hooks that run afterwards put `tx.origin` back and drop a prank that was for a single call.

The last part gives the tree of calls and creates around these hooks: a machine whose stack
has one frame for each of them that has not returned.
-/

namespace BaseAnvil.Cheats

open Lib
open Pool (Address)

/-! ### The pranks of the inspector -/

/-- `CHEATCODE_ADDRESS`. -/
def cheatcodeAddress : Address := 0x7109709ECfa91a80626fF3989D68f67F5b1DD12D

/-- `HARDHAT_CONSOLE_ADDRESS`. -/
def hardhatConsoleAddress : Address := 0x000000000000000000636F6e736F6c652e6c6f67

/-- What a call to these addresses does is done by the inspector itself. -/
def isCheatcodeCall (target : Address) : Bool :=
  target == cheatcodeAddress || target == hardhatConsoleAddress

structure Prank where
  /-- Which of the pranks started so far it is. The source has no such field; nothing below
  reads it. -/
  serial : Nat
  prankCaller : Address
  /-- `tx.origin` when the prank was started. -/
  prankOrigin : Address
  newCaller : Address
  newOrigin : Option Address
  depth : Nat
  singleCall : Bool
  delegateCall : Bool
  used : Bool
deriving DecidableEq

/-- `Prank::first_time_applied`. -/
def Prank.firstTimeApplied (prank : Prank) : Option Prank :=
  if prank.used then none else some { prank with used := true }

/-- What the hooks read and write: the pranks by depth, and `ecx.tx.caller`. -/
structure PrankState where
  pranks : HashMap Nat Prank
  txCaller : Address
  /-- The number that the next prank gets. -/
  started : Nat
deriving DecidableEq

/-- `Cheatcodes::get_prank`: `range(..=depth).last()`. -/
def getPrank (pranks : HashMap Nat Prank) : Nat → Option Prank
  | 0 => pranks.lookup 0
  | depth + 1 => (pranks.lookup (depth + 1)).or (getPrank pranks depth)

inductive CallScheme
  | call
  | callCode
  | delegateCall
  | staticCall
deriving DecidableEq

structure CallInputs where
  scheme : CallScheme
  caller : Address
  targetAddress : Address
deriving DecidableEq

namespace PrankState

/-- If the prank was applied for the first time, then update. The prank goes under the
current depth, not under its own. -/
def markApplied (s : PrankState) (depth : Nat) (prank : Prank) (prankApplied : Bool) :
    PrankState :=
  match prankApplied, prank.firstTimeApplied with
  | true, some appliedPrank => { s with pranks := s.pranks.insert depth appliedPrank }
  | _, _ => s

/-- The block both hooks have: the sender, and the state, after a prank that may apply to
what `caller` is about to do. -/
def applyPrank (s : PrankState) (depth : Nat) (prank : Prank) (caller : Address) :
    Address × PrankState :=
  if prank.depth ≤ depth ∧ caller = prank.prankCaller then
    (if depth = prank.depth then prank.newCaller else caller,
      { s with txCaller := prank.newOrigin.getD s.txCaller }.markApplied depth prank
        (depth = prank.depth || prank.newOrigin.isSome))
  else
    (caller, s)

/-- The prank is for delegate calls and this is one, at its depth. -/
def delegates (depth : Nat) (prank : Prank) (call : CallInputs) : Bool :=
  prank.delegateCall && depth == prank.depth && call.scheme == .delegateCall

/-- The prank's part in `Cheatcodes::call_with_executor`. A mocked call is answered before
the pranks are looked at. -/
def call (s : PrankState) (depth : Nat) (inputs : CallInputs) (mocked : Bool) :
    CallInputs × PrankState :=
  if isCheatcodeCall inputs.targetAddress || mocked then
    (inputs, s)
  else
    match getPrank s.pranks depth with
    | none => (inputs, s)
    | some prank =>
      if delegates depth prank inputs then
        let applied := applyPrank { s with txCaller := prank.newOrigin.getD s.txCaller }
          depth prank prank.newCaller
        ({ inputs with targetAddress := prank.newCaller, caller := applied.1 }, applied.2)
      else
        let applied := s.applyPrank depth prank inputs.caller
        ({ inputs with caller := applied.1 }, applied.2)

/-- The prank's part in `Cheatcodes::create`. -/
def create (s : PrankState) (depth : Nat) (caller : Address) : Address × PrankState :=
  match getPrank s.pranks depth with
  | none => (caller, s)
  | some prank => s.applyPrank depth prank caller

/-- Clean up the prank of this depth. `rest` is what is left of the pranks when it was for a
single call. -/
def cleanUp (s : PrankState) (depth : Nat) (rest : HashMap Nat Prank) : PrankState :=
  match getPrank s.pranks depth with
  | none => s
  | some prank =>
    if depth = prank.depth then
      { s with
        txCaller := prank.prankOrigin
        pranks := if prank.singleCall then rest else s.pranks }
    else
      s

/-- The prank's part in `Cheatcodes::call_end`. -/
def callEnd (s : PrankState) (depth : Nat) (inputs : CallInputs) : PrankState :=
  if isCheatcodeCall inputs.targetAddress then s
  else s.cleanUp depth (s.pranks.erase depth)

/-- The prank's part in `Cheatcodes::create_end`: a prank for a single call takes all of
them along. -/
def createEnd (s : PrankState) (depth : Nat) : PrankState := s.cleanUp depth ∅

/-- Whether a prank may be started over the one that is in force, if any. -/
def checkCurrent (s : PrankState) (depth : Nat) (singleCall : Bool) : Except String Unit :=
  match getPrank s.pranks depth with
  | none => .ok ()
  | some current =>
    if ¬ current.used then
      .error "cannot overwrite a prank until it is applied at least once"
    else if singleCall ≠ current.singleCall then
      .error ("cannot override an ongoing prank with a single vm.prank; " ++
        "use vm.startPrank to override the current prank")
    else
      .ok ()

/-- `prank`, which `vm.prank` and `vm.startPrank` end in, when nothing is broadcast.
`hasCode` is what loading the account of the new caller gives: an error, or whether it has
code. -/
def prank (s : PrankState) (depth : Nat) (caller newCaller : Address)
    (newOrigin : Option Address) (singleCall delegateCall : Bool) (hasCode : Except String Bool) :
    Except String PrankState :=
  hasCode.bind fun hasCode =>
    if delegateCall && !hasCode then
      .error "cannot `prank` delegate call from an EOA"
    else
      (s.checkCurrent depth singleCall).map fun _ =>
        { s with
          started := s.started + 1
          pranks := s.pranks.insert depth
            ⟨s.started, caller, s.txCaller, newCaller, newOrigin, depth, singleCall,
              delegateCall, false⟩ }

/-- `vm.stopPrank`. -/
def stopPrank (s : PrankState) (depth : Nat) : PrankState :=
  { s with pranks := s.pranks.erase depth }

end PrankState

/-! ### Trees of calls and creates -/

/-- What a frame was entered by. A call ends with the inputs as the hook left them. -/
inductive Entry
  | call (inputs : CallInputs)
  | create
deriving DecidableEq

/-- A call or a create that has not returned. -/
structure Frame where
  entry : Entry
  /-- The prank for a single call that was in force for it, at its own depth. -/
  prank : Option Nat
  /-- `tx.origin` before the hook ran. -/
  origin : Address
deriving DecidableEq

/-- The hooks' state with the calls and creates under way, innermost first, and the pranks
for a single call that had their call or create return. -/
structure CallTree where
  state : PrankState
  stack : List Frame
  finished : Finset Nat
deriving DecidableEq

/-- One step of a tree. The sender of a call or create, and of a cheatcode, is whatever the
machine gives. -/
inductive CallOp
  | prank (caller newCaller : Address) (newOrigin : Option Address)
      (singleCall delegateCall : Bool) (hasCode : Except String Bool)
  | stopPrank
  | enterCall (inputs : CallInputs) (mocked : Bool)
  | enterCreate (caller : Address)
  | leave

namespace CallTree

/-- No call has been made and no prank started. -/
def start (origin : Address) : CallTree := ⟨⟨∅, origin, 0⟩, [], ∅⟩

/-- `ecx.journaled_state.depth()`. -/
def depth (t : CallTree) : Nat := t.stack.length

/-- The prank for a single call that was started at the current depth. -/
def single (t : CallTree) : Option Nat :=
  (getPrank t.state.pranks t.depth).bind fun prank =>
    if prank.depth = t.depth ∧ prank.singleCall then some prank.serial else none

def push (t : CallTree) (entry : Entry) (prank : Option Nat) (state : PrankState) : CallTree :=
  { t with state := state, stack := ⟨entry, prank, t.state.txCaller⟩ :: t.stack }

/-- The hook that runs when the frame above `rest` returns. -/
def ended (s : PrankState) (depth : Nat) : Entry → PrankState
  | .call inputs => s.callEnd depth inputs
  | .create => s.createEnd depth

/-- One step, if a frame is there to leave. A cheatcode that fails changes nothing. -/
def exec (t : CallTree) : CallOp → Option CallTree
  | .prank caller newCaller newOrigin singleCall delegateCall hasCode =>
    match t.state.prank t.depth caller newCaller newOrigin singleCall delegateCall hasCode with
    | .ok state => some { t with state := state }
    | .error _ => some t
  | .stopPrank => some { t with state := t.state.stopPrank t.depth }
  | .enterCall inputs mocked =>
    let called := t.state.call t.depth inputs mocked
    some (t.push (.call called.1)
      (if isCheatcodeCall inputs.targetAddress then none else t.single) called.2)
  | .enterCreate caller =>
    some (t.push .create t.single (t.state.create t.depth caller).2)
  | .leave =>
    match t.stack with
    | [] => none
    | frame :: rest =>
      some ⟨ended t.state rest.length frame.entry, rest,
        t.finished ∪ frame.prank.toFinset⟩

def Step (t : CallTree) (op : CallOp) (t' : CallTree) : Prop := t.exec op = some t'

end CallTree

end BaseAnvil.Cheats

import BaseAnvil.Lib.Word

/-!
# BaseAnvil.Chain.Time

The time manager (`eth/backend/time.rs`). The wall clock, in seconds since the
unix epoch, is the argument `now` of every function that reads it.
-/

namespace BaseAnvil.Chain

open Lib

/-- `i128::saturating_add`. -/
def I128.saturatingAdd (a b : Int) : Int :=
  max (-(2 ^ 127)) (min (a + b) (2 ^ 127 - 1))

/-- Manages block time. -/
@[ext] structure TimeManager where
  /-- The overall applied timestamp offset, an `i128`. -/
  offset : Int
  /-- The timestamp of the last block header. -/
  lastTimestamp : UInt64
  /-- The next timestamp to use, if one was set. -/
  nextExactTimestamp : Option UInt64
  /-- The interval to use when determining the next block's timestamp. -/
  interval : Option UInt64
  deriving Repr, DecidableEq

/-- A timestamp that cannot be set. -/
structure TimestampError where
  message : String
  deriving Repr, DecidableEq

namespace TimeManager

/-- Resets to the given timestamp: the offset and the exact next timestamp go,
the interval stays. -/
def reset (t : TimeManager) (now startTimestamp : UInt64) : TimeManager :=
  { t with
    lastTimestamp := startTimestamp
    offset := (startTimestamp.toNat : Int) - now.toNat
    nextExactTimestamp := none }

def new (now startTimestamp : UInt64) : TimeManager :=
  reset ⟨0, 0, none, none⟩ now startTimestamp

/-- Adds to the offset tracked so far. -/
def addOffset (t : TimeManager) (offset : Int) : Int × TimeManager :=
  let next := I128.saturatingAdd t.offset offset
  (next, { t with offset := next })

/-- Jumps forward in time by the given seconds. -/
def increaseTime (t : TimeManager) (seconds : UInt64) : Int × TimeManager :=
  t.addOffset seconds.toNat

/-- Sets the exact timestamp to use in the next block. -/
def setNextBlockTimestamp (t : TimeManager) (timestamp : UInt64) :
    Except TimestampError Unit × TimeManager :=
  if timestamp < t.lastTimestamp then
    (.error ⟨s!"{timestamp} is lower than previous block's timestamp"⟩, t)
  else (.ok (), { t with nextExactTimestamp := some timestamp })

/-- Sets an interval to use when computing the next timestamp. -/
def setBlockTimestampInterval (t : TimeManager) (interval : UInt64) : TimeManager :=
  { t with interval := some interval }

/-- Removes the interval if it exists. -/
def removeBlockTimestampInterval (t : TimeManager) : Bool × TimeManager :=
  (t.interval.isSome, { t with interval := none })

/-- The next timestamp and, when it was set exactly, the offset that goes with it. -/
def computeNextTimestamp (t : TimeManager) (now : UInt64) : UInt64 × Option Int :=
  let (nextTimestamp, updateOffset) :=
    match t.nextExactTimestamp, t.interval with
    | some next, _ => (next, true)
    | none, some interval => (U64.saturatingAdd t.lastTimestamp interval, false)
    -- the cast to `u64` truncates
    | none, none => (UInt64.ofInt (I128.saturatingAdd now.toNat t.offset), false)
  let nextTimestamp :=
    if nextTimestamp < t.lastTimestamp then t.lastTimestamp + 1 else nextTimestamp
  let nextOffset := if updateOffset then some ((nextTimestamp.toNat : Int) - now.toNat) else none
  (nextTimestamp, nextOffset)

/-- The next timestamp, which becomes the last one. -/
def nextTimestamp (t : TimeManager) (now : UInt64) : UInt64 × TimeManager :=
  let (nextTimestamp, nextOffset) := t.computeNextTimestamp now
  (nextTimestamp,
    { t with
      nextExactTimestamp := none
      offset := nextOffset.getD t.offset
      lastTimestamp := nextTimestamp })

/-- The timestamp for a call, which updates nothing. -/
def currentCallTimestamp (t : TimeManager) (now : UInt64) : UInt64 :=
  (t.computeNextTimestamp now).1

end TimeManager

end BaseAnvil.Chain

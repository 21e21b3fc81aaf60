import BaseAnvil.Chain.Time

/-!
# BaseAnvil.Chain.Clock

Timestamps do not go back, as long as the clock and the offset stay in range.

The time manager adds a signed offset to the wall clock, cuts the sum down to a `u64`
and, if this is before the last block, takes the second after the last block instead.
The sum can leave the range of a `u64` on either side, and the last block can be in the
last second there is. `Fits` says that neither happens at a reading of the clock, and it
is all that is needed: no other operation of the time manager can go wrong.
-/

namespace BaseAnvil.Chain

open Lib U64

/-! ### Checked arithmetic -/

/-- `i128 as u64`, unless this cuts something off. -/
def U64.ofI128? (i : Int) : Option UInt64 :=
  if 0 ≤ i ∧ i < 2 ^ 64 then some (UInt64.ofInt i) else none

/-- `u64::checked_add`. -/
def U64.checkedAdd (a b : UInt64) : Option UInt64 :=
  if a.toNat + b.toNat < 2 ^ 64 then some (a + b) else none

/-- `i128::checked_sub`. -/
def I128.checkedSub (a b : Int) : Option Int :=
  if -(2 ^ 127) ≤ a - b ∧ a - b < 2 ^ 127 then some (a - b) else none

theorem I128.checkedSub_toNat (a b : UInt64) :
    I128.checkedSub a.toNat b.toNat = some ((a.toNat : Int) - b.toNat) := by
  have ha := a.toNat_lt
  have hb := b.toNat_lt
  exact if_pos ⟨by omega, by omega⟩

variable {t : TimeManager} {now : UInt64}

namespace TimeManager

/-- `compute_next_timestamp`, with every operation checked that could overflow, or
truncate its operand. -/
def computeNextTimestampChecked (t : TimeManager) (now : UInt64) :
    Option (UInt64 × Option Int) := do
  let (nextTimestamp, updateOffset) ← match t.nextExactTimestamp, t.interval with
    | some next, _ => some (next, true)
    | none, some interval => some (U64.saturatingAdd t.lastTimestamp interval, false)
    | none, none => (U64.ofI128? (I128.saturatingAdd now.toNat t.offset)).map fun next =>
        (next, false)
  let nextTimestamp ←
    if nextTimestamp < t.lastTimestamp then U64.checkedAdd t.lastTimestamp 1 else some nextTimestamp
  let nextOffset ←
    if updateOffset then (I128.checkedSub nextTimestamp.toNat now.toNat).map some else some none
  some (nextTimestamp, nextOffset)

/-- What the clock reads, moved by the offset, is a timestamp, and there is a timestamp
after the last one if it is needed. -/
def Fits (t : TimeManager) (now : UInt64) : Prop :=
  t.nextExactTimestamp = none → t.interval = none →
    0 ≤ now.toNat + t.offset ∧ now.toNat + t.offset < 2 ^ 64 ∧
      (now.toNat + t.offset < t.lastTimestamp.toNat → t.lastTimestamp ≠ U64.max)

instance (t : TimeManager) (now : UInt64) : Decidable (t.Fits now) :=
  inferInstanceAs (Decidable (_ → _ → _ ∧ _ ∧ (_ → _)))

/-- An exact timestamp is not before the last block. -/
def Ahead (t : TimeManager) : Prop :=
  ∀ next, t.nextExactTimestamp = some next → t.lastTimestamp ≤ next

/-! ### One reading of the clock -/

theorem computeNextTimestamp_of_exact {next : UInt64} (hahead : t.Ahead)
    (hexact : t.nextExactTimestamp = some next) :
    t.computeNextTimestamp now = (next, some ((next.toNat : Int) - now.toNat)) := by
  have hle : ¬next < t.lastTimestamp := UInt64.not_lt.mpr (hahead next hexact)
  simp [computeNextTimestamp, hexact, hle]

section

variable (hexact : t.nextExactTimestamp = none)
include hexact

theorem computeNextTimestamp_of_interval {interval : UInt64}
    (hinterval : t.interval = some interval) :
    t.computeNextTimestamp now = (saturatingAdd t.lastTimestamp interval, none) := by
  have hle : ¬saturatingAdd t.lastTimestamp interval < t.lastTimestamp :=
    UInt64.not_lt.mpr (le_saturatingAdd _ _)
  simp [computeNextTimestamp, hexact, hinterval, hle]

theorem computeNextTimestamp_of_clock (hinterval : t.interval = none) :
    t.computeNextTimestamp now =
      (if UInt64.ofInt (I128.saturatingAdd now.toNat t.offset) < t.lastTimestamp then
        t.lastTimestamp + 1 else UInt64.ofInt (I128.saturatingAdd now.toNat t.offset), none) := by
  simp [computeNextTimestamp, hexact, hinterval]

theorem computeNextTimestampChecked_of_clock (hinterval : t.interval = none) :
    t.computeNextTimestampChecked now =
      (U64.ofI128? (I128.saturatingAdd now.toNat t.offset)).bind fun next =>
        (if next < t.lastTimestamp then U64.checkedAdd t.lastTimestamp 1 else some next).map
          fun next => (next, none) := by
  unfold computeNextTimestampChecked
  rw [hexact, hinterval]
  cases U64.ofI128? (I128.saturatingAdd now.toNat t.offset) with
  | none => rfl
  | some next =>
    by_cases hback : next < t.lastTimestamp
    · cases U64.checkedAdd t.lastTimestamp 1 <;> simp [hback]
    · simp [hback]

end

/-- The sum fits in a `u64` whether or not it was clamped to an `i128` before. -/
theorem saturatingAdd_mem_u64_iff (a b : Int) :
    0 ≤ I128.saturatingAdd a b ∧ I128.saturatingAdd a b < 2 ^ 64 ↔ 0 ≤ a + b ∧ a + b < 2 ^ 64 := by
  unfold I128.saturatingAdd
  omega

theorem saturatingAdd_of_mem {a b : Int} (h : 0 ≤ a + b ∧ a + b < 2 ^ 64) :
    I128.saturatingAdd a b = a + b := by
  unfold I128.saturatingAdd
  omega

theorem toNat_ofInt_of_mem {i : Int} (h : 0 ≤ i ∧ i < 2 ^ 64) :
    ((UInt64.ofInt i).toNat : Int) = i := by
  have hmod : i % 2 ^ 64 = i := Int.emod_eq_of_lt h.1 h.2
  have hlt : i.toNat < 2 ^ 64 := by omega
  rw [UInt64.ofInt, hmod, UInt64.toNat_ofNat_of_lt' hlt, Int.toNat_of_nonneg h.1]

theorem checkedAdd_one (a : UInt64) :
    U64.checkedAdd a 1 = if a = U64.max then none else some (a + 1) := by
  have ha := a.toNat_lt
  have hiff : a = U64.max ↔ ¬a.toNat + 1 < 2 ^ 64 := by
    rw [← UInt64.toNat_inj, toNat_max]
    omega
  rw [U64.checkedAdd, UInt64.toNat_one]
  by_cases h : a = U64.max
  · rw [if_neg (hiff.mp h), if_pos h]
  · rw [if_pos (not_not.mp (mt hiff.mpr h)), if_neg h]

/-- Checked, the computation succeeds where the reading fits, with the same result. -/
theorem computeNextTimestampChecked_eq (hahead : t.Ahead) :
    t.computeNextTimestampChecked now =
      if t.Fits now then some (t.computeNextTimestamp now) else none := by
  cases hexact : t.nextExactTimestamp with
  | some next =>
    have hfits : t.Fits now := fun h => absurd (hexact.symm.trans h) (Option.some_ne_none _)
    have hle : ¬next < t.lastTimestamp := UInt64.not_lt.mpr (hahead next hexact)
    rw [if_pos hfits, computeNextTimestamp_of_exact hahead hexact]
    simp [computeNextTimestampChecked, hexact, hle, I128.checkedSub_toNat]
  | none =>
    cases hinterval : t.interval with
    | some interval =>
      have hfits : t.Fits now := fun _ h => absurd (hinterval.symm.trans h) (Option.some_ne_none _)
      have hle : ¬saturatingAdd t.lastTimestamp interval < t.lastTimestamp :=
        UInt64.not_lt.mpr (le_saturatingAdd _ _)
      rw [if_pos hfits, computeNextTimestamp_of_interval hexact hinterval]
      simp [computeNextTimestampChecked, hexact, hinterval, hle]
    | none =>
      rw [computeNextTimestamp_of_clock hexact hinterval,
        computeNextTimestampChecked_of_clock hexact hinterval]
      by_cases hmem : 0 ≤ now.toNat + t.offset ∧ now.toNat + t.offset < 2 ^ 64
      · have hcast := toNat_ofInt_of_mem hmem
        rw [saturatingAdd_of_mem hmem, U64.ofI128?, if_pos hmem]
        generalize UInt64.ofInt (now.toNat + t.offset) = next at hcast
        have hfits : t.Fits now ↔ (next < t.lastTimestamp → t.lastTimestamp ≠ U64.max) := by
          have hlt : next < t.lastTimestamp ↔ now.toNat + t.offset < t.lastTimestamp.toNat := by
            rw [UInt64.lt_iff_toNat_lt]
            omega
          rw [hlt]
          exact ⟨fun h => (h hexact hinterval).2.2, fun h _ _ => ⟨hmem.1, hmem.2, h⟩⟩
        by_cases hback : next < t.lastTimestamp
        · by_cases hlast : t.lastTimestamp = U64.max
          · rw [hlast] at hback hfits ⊢
            simp [hback, hfits, checkedAdd_one]
          · simp [hback, hfits, hlast, checkedAdd_one]
        · simp [hback, hfits]
      · have hfits : ¬t.Fits now := fun h => hmem ⟨(h hexact hinterval).1, (h hexact hinterval).2.1⟩
        rw [U64.ofI128?, if_neg (mt (saturatingAdd_mem_u64_iff _ _).mp hmem), if_neg hfits]
        rfl

/-- Where the reading fits, the next timestamp is not before the last one. -/
theorem le_computeNextTimestamp (hahead : t.Ahead) (hfits : t.Fits now) :
    t.lastTimestamp ≤ (t.computeNextTimestamp now).1 := by
  cases hexact : t.nextExactTimestamp with
  | some next =>
    rw [computeNextTimestamp_of_exact hahead hexact]
    exact hahead next hexact
  | none =>
    cases hinterval : t.interval with
    | some interval =>
      rw [computeNextTimestamp_of_interval hexact hinterval]
      exact le_saturatingAdd _ _
    | none =>
      obtain ⟨hlo, hhi, hlast⟩ := hfits hexact hinterval
      have hcast := toNat_ofInt_of_mem ⟨hlo, hhi⟩
      rw [computeNextTimestamp_of_clock hexact hinterval, saturatingAdd_of_mem ⟨hlo, hhi⟩]
      split
      · rename_i hback
        rw [UInt64.lt_iff_toNat_lt] at hback
        have hne := hlast (by omega)
        exact UInt64.le_of_lt ((add_one_le_iff hne).mp (UInt64.le_refl _))
      · rename_i hback
        exact UInt64.not_lt.mp hback

end TimeManager

/-! ### Runs -/

/-- A call to the time manager, with what the clock reads if it looks at it. -/
inductive TimeOp
  | reset (now startTimestamp : UInt64)
  | increaseTime (seconds : UInt64)
  | setNextBlockTimestamp (timestamp : UInt64)
  | setBlockTimestampInterval (interval : UInt64)
  | removeBlockTimestampInterval
  | currentCallTimestamp (now : UInt64)
  | nextTimestamp (now : UInt64)
  deriving Repr, DecidableEq

namespace TimeOp

def isReset : TimeOp → Bool
  | .reset _ _ => true
  | _ => false

/-- The reading of the clock that a timestamp is computed from. -/
def reading : TimeOp → Option UInt64
  | .currentCallTimestamp now => some now
  | .nextTimestamp now => some now
  | _ => none

end TimeOp

namespace TimeManager

/-- The time manager after a call. -/
def exec (t : TimeManager) : TimeOp → TimeManager
  | .reset now startTimestamp => t.reset now startTimestamp
  | .increaseTime seconds => (t.increaseTime seconds).2
  | .setNextBlockTimestamp timestamp => (t.setNextBlockTimestamp timestamp).2
  | .setBlockTimestampInterval interval => t.setBlockTimestampInterval interval
  | .removeBlockTimestampInterval => t.removeBlockTimestampInterval.2
  | .currentCallTimestamp _ => t
  | .nextTimestamp now => (t.nextTimestamp now).2

def after (t : TimeManager) (ops : List TimeOp) : TimeManager := ops.foldl exec t

/-- What `next_timestamp` returns for this call. -/
def issuedBy (t : TimeManager) : TimeOp → Option UInt64
  | .nextTimestamp now => some (t.nextTimestamp now).1
  | _ => none

/-- What `next_timestamp` returns along the calls. -/
def issued (t : TimeManager) : List TimeOp → List UInt64
  | [] => []
  | op :: ops => (t.issuedBy op).toList ++ (t.exec op).issued ops

/-- `P` holds wherever a timestamp is computed from the clock. -/
def AtReadings (P : TimeManager → UInt64 → Prop) (t : TimeManager) : List TimeOp → Prop
  | [] => True
  | op :: ops => (∀ now ∈ op.reading, P t now) ∧ AtReadings P (t.exec op) ops

instance decidableAtReadings (P : TimeManager → UInt64 → Prop) [∀ t now, Decidable (P t now)] :
    ∀ (t : TimeManager) (ops : List TimeOp), Decidable (AtReadings P t ops)
  | _, [] => inferInstanceAs (Decidable True)
  | t, op :: ops =>
    -- only the reading is looked at, not every word
    @instDecidableAnd _ _ (Option.decidableForallMem op.reading)
      (decidableAtReadings P (t.exec op) ops)

/-- Timestamps behave along the calls `ops`, made from `t`. -/
structure Sound (t : TimeManager) (ops : List TimeOp) : Prop where
  /-- Those of the blocks do not go back. -/
  ordered : (t.lastTimestamp :: t.issued ops).Pairwise (· ≤ ·)
  /-- Nothing overflows and nothing is cut off. -/
  checked : AtReadings
    (fun t now => t.computeNextTimestampChecked now = some (t.computeNextTimestamp now)) t ops
  /-- A call sees the timestamp that a block would get at this time. -/
  agrees : ∀ before rest now, ops = before ++ rest →
    (t.after before).currentCallTimestamp now =
      (((t.after before).exec (.currentCallTimestamp now)).nextTimestamp now).1
  /-- An exact timestamp, once accepted and not replaced, is the next one. -/
  honoured : ∀ before timestamp between now rest,
    ops = before ++ .setNextBlockTimestamp timestamp :: (between ++ .nextTimestamp now :: rest) →
    ((t.after before).setNextBlockTimestamp timestamp).1 = .ok () →
    (∀ now', .nextTimestamp now' ∉ between) →
    (∀ other, .setNextBlockTimestamp other ∈ between → other < (t.after before).lastTimestamp) →
    ((t.after (before ++ .setNextBlockTimestamp timestamp :: between)).nextTimestamp now).1 =
      timestamp

theorem after_append (t : TimeManager) (ops ops' : List TimeOp) :
    t.after (ops ++ ops') = (t.after ops).after ops' := List.foldl_append

/-! ### One step -/

theorem ahead_new (now startTimestamp : UInt64) : (new now startTimestamp).Ahead :=
  fun _ h => absurd h.symm (Option.some_ne_none _)

theorem Ahead.exec (h : t.Ahead) (op : TimeOp) : (t.exec op).Ahead := by
  intro next hnext
  cases op with
  | setNextBlockTimestamp timestamp =>
    simp only [TimeManager.exec, setNextBlockTimestamp] at hnext ⊢
    split at hnext
    · rename_i hlt
      rw [if_pos hlt]
      exact h next hnext
    · rename_i hle
      cases hnext
      rw [if_neg hle]
      exact UInt64.not_lt.mp hle
  | reset | nextTimestamp => cases hnext
  | increaseTime | setBlockTimestampInterval | removeBlockTimestampInterval
  | currentCallTimestamp =>
    exact h next hnext

theorem Ahead.after (h : t.Ahead) (ops : List TimeOp) : (t.after ops).Ahead := by
  induction ops generalizing t with
  | nil => exact h
  | cons op ops ih => exact ih (h.exec op)

/-- A call other than a reset moves the last timestamp to what it issues, if anything. -/
theorem lastTimestamp_exec {op : TimeOp} (hop : op.isReset = false) :
    (t.exec op).lastTimestamp = (t.issuedBy op).getD t.lastTimestamp := by
  cases op with
  | reset => cases hop
  | setNextBlockTimestamp timestamp =>
    simp only [TimeManager.exec, setNextBlockTimestamp, issuedBy, Option.getD_none]
    split <;> rfl
  | _ => rfl

/-- What a call issues is computed from what the clock reads. -/
theorem le_of_issuedBy {op : TimeOp} {timestamp : UInt64} (hahead : t.Ahead)
    (hfits : ∀ now ∈ op.reading, t.Fits now) (h : t.issuedBy op = some timestamp) :
    t.lastTimestamp ≤ timestamp := by
  cases op with
  | nextTimestamp now =>
    cases h
    exact le_computeNextTimestamp hahead (hfits now rfl)
  | _ => cases h

/-! ### Whole runs -/

theorem atReadings_congr {P Q : TimeManager → UInt64 → Prop}
    (hiff : ∀ t now, t.Ahead → (P t now ↔ Q t now)) {t : TimeManager} (hahead : t.Ahead)
    (ops : List TimeOp) : AtReadings P t ops ↔ AtReadings Q t ops := by
  induction ops generalizing t with
  | nil => exact Iff.rfl
  | cons op ops ih =>
    exact and_congr (forall₂_congr fun now _ => hiff t now hahead) (ih (hahead.exec op))

theorem ordered_of_fits (hahead : t.Ahead) {ops : List TimeOp}
    (hops : ∀ op ∈ ops, op.isReset = false) (hfits : AtReadings Fits t ops) :
    (t.lastTimestamp :: t.issued ops).Pairwise (· ≤ ·) := by
  induction ops generalizing t with
  | nil => exact List.pairwise_singleton _ _
  | cons op ops ih =>
    obtain ⟨hop, hrest⟩ := List.forall_mem_cons.mp hops
    have hsorted := ih (hahead.exec op) hrest hfits.2
    rw [lastTimestamp_exec hop] at hsorted
    cases hissued : t.issuedBy op with
    | none =>
      rw [hissued] at hsorted
      rwa [issued, hissued]
    | some timestamp =>
      rw [hissued] at hsorted
      rw [issued, hissued]
      have hle := le_of_issuedBy hahead hfits.1 hissued
      refine List.pairwise_cons.mpr ⟨fun other hother => ?_, hsorted⟩
      rcases List.mem_cons.mp hother with rfl | hother
      · exact hle
      · exact UInt64.le_trans hle (List.rel_of_pairwise_cons hsorted hother)

/-- Calls that issue no timestamp and set none leave an exact one and the last one. -/
theorem exact_after {between : List TimeOp} (hops : ∀ op ∈ between, op.isReset = false)
    (hnext : ∀ now, .nextTimestamp now ∉ between)
    (hset : ∀ other, .setNextBlockTimestamp other ∈ between → other < t.lastTimestamp) :
    (t.after between).nextExactTimestamp = t.nextExactTimestamp ∧
      (t.after between).lastTimestamp = t.lastTimestamp := by
  induction between generalizing t with
  | nil => exact ⟨rfl, rfl⟩
  | cons op between ih =>
    have hone : (t.exec op).nextExactTimestamp = t.nextExactTimestamp ∧
        (t.exec op).lastTimestamp = t.lastTimestamp := by
      cases op with
      | reset => cases hops _ List.mem_cons_self
      | nextTimestamp now => exact absurd List.mem_cons_self (hnext now)
      | setNextBlockTimestamp other =>
        simp only [TimeManager.exec, setNextBlockTimestamp, if_pos (hset other List.mem_cons_self),
          and_self]
      | _ => exact ⟨rfl, rfl⟩
    have hrest := ih (fun op hop => hops op (List.mem_cons_of_mem _ hop))
      (fun now hmem => hnext now (List.mem_cons_of_mem _ hmem))
      (fun other hmem => hone.2 ▸ hset other (List.mem_cons_of_mem _ hmem))
    exact ⟨hrest.1.trans hone.1, hrest.2.trans hone.2⟩

theorem nextTimestamp_of_set {timestamp : UInt64} (hahead : t.Ahead)
    (hok : (t.setNextBlockTimestamp timestamp).1 = .ok ()) {between : List TimeOp}
    (hops : ∀ op ∈ between, op.isReset = false) (hnext : ∀ now, .nextTimestamp now ∉ between)
    (hset : ∀ other, .setNextBlockTimestamp other ∈ between → other < t.lastTimestamp) :
    ((t.after (.setNextBlockTimestamp timestamp :: between)).nextTimestamp now).1 = timestamp := by
  have hle : ¬timestamp < t.lastTimestamp := fun hlt => by
    simp [setNextBlockTimestamp, hlt] at hok
  have hexec : t.exec (.setNextBlockTimestamp timestamp) =
      { t with nextExactTimestamp := some timestamp } := by
    simp only [TimeManager.exec, setNextBlockTimestamp, if_neg hle]
  have hahead' := (hahead.exec (.setNextBlockTimestamp timestamp)).after between
  show (((t.exec (.setNextBlockTimestamp timestamp)).after between).computeNextTimestamp now).1 = _
  rw [hexec] at hahead' ⊢
  have hexact := (@exact_after { t with nextExactTimestamp := some timestamp } between
    hops hnext hset).1
  rw [computeNextTimestamp_of_exact hahead' hexact]

/-- **Timestamps.** However a time manager came about, along every sequence of calls
without a reset its timestamps behave if and only if at every reading of the clock the
reading fits. -/
theorem sound_iff_fits (now startTimestamp : UInt64) (history ops : List TimeOp)
    (hops : ∀ op ∈ ops, op.isReset = false) :
    Sound ((new now startTimestamp).after history) ops ↔
      AtReadings Fits ((new now startTimestamp).after history) ops := by
  have hahead := (ahead_new now startTimestamp).after history
  generalize (new now startTimestamp).after history = t at hahead
  have hchecked := @atReadings_congr
    (fun t now => t.computeNextTimestampChecked now = some (t.computeNextTimestamp now)) Fits
    (fun t now h => by simp [computeNextTimestampChecked_eq h]) t hahead ops
  refine ⟨fun h => hchecked.mp h.checked, fun h => ?_⟩
  refine ⟨ordered_of_fits hahead hops h, hchecked.mpr h, fun _ _ _ _ => rfl, ?_⟩
  intro before timestamp between now rest heq hok hnext hset
  rw [after_append]
  refine nextTimestamp_of_set (hahead.after before) hok (fun op hop => hops op ?_) hnext hset
  rw [heq]
  simp [hop]

/-- The clock steps back by fifty seconds between an exact timestamp and the next block. -/
theorem sound_iff_fits_clock_back :
    Sound ((new 1000 900).after [.setBlockTimestampInterval 5])
      [.nextTimestamp 1010, .removeBlockTimestampInterval, .setNextBlockTimestamp 2000,
        .currentCallTimestamp 1020, .nextTimestamp 1020, .increaseTime 10, .nextTimestamp 970] ∧
    ((new 1000 900).after [.setBlockTimestampInterval 5]).issued
      [.nextTimestamp 1010, .removeBlockTimestampInterval, .setNextBlockTimestamp 2000,
        .currentCallTimestamp 1020, .nextTimestamp 1020, .increaseTime 10, .nextTimestamp 970] =
      [905, 2000, 2001] :=
  ⟨(sound_iff_fits 1000 900 [.setBlockTimestampInterval 5] _ (by decide)).mpr (by decide +kernel),
    by decide +kernel⟩

/-- A chain that starts ninety seconds before the clock gets a timestamp far in the future
when the clock steps back by a hundred, and a chain in the last second there is goes back
to the first. -/
theorem timestamps_out_of_range :
    (new 100 10).issued [.nextTimestamp 0] = [18446744073709551526] ∧
    ¬Sound (new 100 10) [.nextTimestamp 0] ∧
    (new 100 U64.max).issued [.nextTimestamp 100, .increaseTime 1, .nextTimestamp 100] =
      [U64.max, 0] ∧
    ¬Sound (new 100 U64.max) [.nextTimestamp 100, .increaseTime 1, .nextTimestamp 100] := by
  refine ⟨by decide +kernel, fun h => ?_, by decide +kernel, fun h => ?_⟩
  · exact absurd h.checked (by decide +kernel)
  · exact absurd h.ordered (by decide +kernel)

end TimeManager

end BaseAnvil.Chain

import BaseAnvil.Cheats.GasSnapshot

/-!
# BaseAnvil.Cheats.GasSnapshotSound

What a gas snapshot measures.

There is at most one section at a time, and the record of the active section is the only one. But
`last_gas_used` is not reset when a section ends: the first opcode of the next section adds what
the frame has spent since the last opcode of the earlier one. And stopping without naming a
section panics if none is active.
-/

namespace BaseAnvil.Cheats

open Lib SnapshotState GasRecord GasMetering

namespace SnapshotMachine

/-- No call panicked, there is at most one record, it is that of the active section, and the
sections measured so far are the difference of what their frame had spent. -/
structure Sound (m : SnapshotMachine) : Prop where
  total : m.panicked = false
  single : m.state.metering.gasRecords.length ≤ 1
  active : m.state.metering.activeGasSnapshot.isSome ↔ m.state.metering.gasRecords ≠ []
  exact : ∀ x ∈ m.measured, x.gasUsed + x.first = x.last

/-- What the frame of a section has spent is not zero and does not fall. (Only resetting the gas
metering makes it fall.) -/
def Grows (m : SnapshotMachine) : SnapshotEvent → Prop
  | .opcode gas _ | .cheat gas _ => ∀ x, m.current = some x → m.measuresHere x →
      0 < gas.toNat ∧ ∀ steps ∈ x.steps, steps.2 ≤ gas.toNat
  | _ => True

/-- No gas was spent between the last opcode metered before the section and its first one. -/
def Unaffected (m : SnapshotMachine) : Prop :=
  ∀ x, m.current = some x → m.measuresHere x → ∀ steps ∈ x.steps,
    x.leftover = 0 ∨ steps.1 ≤ x.leftover

end SnapshotMachine

/-- The call does not panic, and if it stops a section in the frame that started it, an earlier
section has not left anything behind. -/
def SnapshotCall.Clean (m : SnapshotMachine) : SnapshotCall → Prop
  | .startSnapshotGas0 _ =>
    m.state.metering.activeGasSnapshot.isSome ∨ m.state.runningArtifact.isSome
  | .startSnapshotGas1 _ _ => True
  | .stopSnapshotGas0 | .stopSnapshotGas1 _ =>
    m.state.metering.activeGasSnapshot.isSome ∧ m.Unaffected
  | .stopSnapshotGas2 group name =>
    m.state.metering.activeGasSnapshot = some (group, name) → m.Unaffected

/-- The event panics nowhere and is not affected by an earlier section; the opcode that calls a
cheatcode is metered before the call. -/
def SnapshotMachine.Clean (m : SnapshotMachine) : SnapshotEvent → Prop
  | .cheat gas call => call.Clean (m.meter gas.toNat)
  | _ => True

/-! ### The section being measured -/

variable {record : GasRecord} {gas : Nat} {x : Measuring}

namespace Measuring

/-- What the first opcode of the section adds. -/
def carried (x : Measuring) (first : Nat) : Nat := if x.leftover = 0 then 0 else first - x.leftover

theorem carried_le (x : Measuring) (first : Nat) : x.carried first ≤ first := by
  unfold carried
  split <;> omega

theorem carried_eq_zero (x : Measuring) (first : Nat) :
    x.carried first = 0 ↔ x.leftover = 0 ∨ first ≤ x.leftover := by
  unfold carried
  split <;> omega

/-- The record has what the frame has spent since the first opcode, and what that one added. -/
def Follows (record : GasRecord) (last : Nat) (x : Measuring) : Prop :=
  match x.steps with
  | none => record.gasUsed = 0 ∧ last = x.leftover
  | some (first, now) =>
    record.gasUsed + first = now + x.carried first ∧ last = now ∧ 0 < now ∧ first ≤ now ∧
      now < 2 ^ 64

variable {last : Nat}

theorem follows_none (h : x.steps = none) :
    x.Follows record last ↔ record.gasUsed = 0 ∧ last = x.leftover := by
  simp [Follows, h]

theorem follows_some {first now : Nat} (h : x.steps = some (first, now)) :
    x.Follows record last ↔
      record.gasUsed + first = now + x.carried first ∧ last = now ∧ 0 < now ∧ first ≤ now ∧
        now < 2 ^ 64 := by
  simp [Follows, h]

/-- An opcode of the frame that is metered. -/
theorem Follows.note (h : x.Follows record last) (hbound : gas < 2 ^ 64) (hpos : 0 < gas)
    (hgrows : ∀ steps ∈ x.steps, steps.2 ≤ gas) :
    (x.note gas).Follows (record.metered gas last) gas := by
  cases hsteps : x.steps with
  | none =>
    have hnote : (x.note gas).steps = some (gas, gas) := by simp [Measuring.note, hsteps]
    obtain ⟨hzero, rfl⟩ := (follows_none hsteps).mp h
    refine (follows_some hnote).mpr ⟨?_, rfl, hpos, le_rfl, hbound⟩
    change (record.metered gas x.leftover).gasUsed + gas = gas + x.carried gas
    unfold metered carried
    by_cases hleft : x.leftover = 0
    · rw [if_pos hleft, if_neg (not_not.mpr hleft), hzero]
      omega
    · rw [if_neg hleft, if_pos hleft]
      simp only [saturatingAdd, hzero]
      omega
  | some steps =>
    obtain ⟨first, now⟩ := steps
    have hle : now ≤ gas := hgrows (first, now) hsteps
    have hcarried := x.carried_le first
    have hnote : (x.note gas).steps = some (first, gas) := by simp [Measuring.note, hsteps]
    obtain ⟨hsum, rfl, hnow, hfirst, -⟩ := (follows_some hsteps).mp h
    refine (follows_some hnote).mpr ⟨?_, rfl, hpos, hfirst.trans hle, hbound⟩
    change (record.metered gas last).gasUsed + first = gas + x.carried first
    rw [metered, if_pos hnow.ne']
    simp only [saturatingAdd]
    omega

end Measuring

/-! ### The invariant -/

namespace SnapshotMachine

/-- The section was started at the depth of its record, if its frame is still there. -/
def Placed (frames : List Nat) (entered : Nat) (record : GasRecord) (x : Measuring) : Prop :=
  x.frame < entered ∧ (x.frame ∈ frames →
    ∃ above below, frames = above ++ x.frame :: below ∧ below.length + 1 = record.depth)

/-- Either there is no section, or there is one, with its record. -/
inductive Tracks (m : SnapshotMachine) : Prop
  | idle : m.state.metering.activeGasSnapshot = none → m.state.metering.gasRecords = [] →
      m.state.metering.recording = false → m.current = none → Tracks m
  | measuring (record : GasRecord) (x : Measuring) :
      m.state.metering.activeGasSnapshot = some (record.group, record.name) →
      m.state.metering.gasRecords = [record] → m.state.metering.recording = true →
      m.current = some x → Placed m.frames m.entered record x →
      (x.frame ∈ m.frames → x.Follows record m.state.metering.lastGasUsed) → Tracks m

structure Inv (m : SnapshotMachine) : Prop where
  nodup : m.frames.Nodup
  bounded : ∀ frame ∈ m.frames, frame < m.entered
  tracks : m.Tracks

variable {m m' : SnapshotMachine}

section

variable (h : Placed m.frames m.entered record x)
include h

/-- The frame of a section that is the innermost one is at the depth of the record. -/
theorem Placed.depth_eq (hnodup : m.frames.Nodup) (hhere : m.measuresHere x) :
    m.depth = record.depth := by
  have hmem : x.frame ∈ m.frames := List.mem_of_head? hhere
  obtain ⟨above, below, hframes, hdepth⟩ := h.2 hmem
  cases above with
  | nil => simp [depth, hframes, ← hdepth]
  | cons frame above =>
    have heq : frame = x.frame := by simpa [measuresHere, hframes] using hhere
    rw [hframes, List.cons_append, List.nodup_cons, heq] at hnodup
    exact absurd (by simp) hnodup.1

/-- No other frame at that depth is there while the frame of the section is. -/
theorem Placed.measuresHere (hmem : x.frame ∈ m.frames) (hdepth : m.depth = record.depth) :
    m.measuresHere x := by
  obtain ⟨above, below, hframes, heq⟩ := h.2 hmem
  have hlength : above.length = 0 := by
    simp only [depth, hframes, List.length_append, List.length_cons] at hdepth
    omega
  rw [List.length_eq_zero_iff] at hlength
  simp [SnapshotMachine.measuresHere, hframes, hlength]

theorem Placed.enter : Placed (m.entered :: m.frames) (m.entered + 1) record x := by
  refine ⟨Nat.lt_succ_of_lt h.1, fun hmem => ?_⟩
  rcases List.mem_cons.mp hmem with heq | hmem
  · exact absurd h.1 (heq ▸ lt_irrefl _)
  · obtain ⟨above, below, hframes, hdepth⟩ := h.2 hmem
    exact ⟨m.entered :: above, below, by rw [hframes]; rfl, hdepth⟩

theorem Placed.exit (hnodup : m.frames.Nodup) : Placed m.frames.tail m.entered record x := by
  refine ⟨h.1, fun hmem => ?_⟩
  obtain ⟨above, below, hframes, hdepth⟩ := h.2 (List.mem_of_mem_tail hmem)
  cases above with
  | nil =>
    rw [hframes, List.nil_append, List.nodup_cons] at hnodup
    rw [hframes] at hmem
    exact absurd hmem hnodup.1
  | cons frame above => exact ⟨above, below, by rw [hframes]; rfl, hdepth⟩

end

variable {last : Nat}

@[simp] theorem group_metered : (record.metered gas last).group = record.group := by
  unfold metered
  split <;> rfl

@[simp] theorem name_metered : (record.metered gas last).name = record.name := by
  unfold metered
  split <;> rfl

@[simp] theorem depth_metered : (record.metered gas last).depth = record.depth := by
  unfold metered
  split <;> rfl

variable {depth : Nat}

theorem meterRecords_singleton :
    meterRecords gas depth [record] last =
      if depth = record.depth then ([record.metered gas last], gas) else ([record], last) := by
  unfold meterRecords
  split <;> rfl

/-- The section is tracked as long as only frames come and go. -/
theorem Tracks.of_frames (h : m.Tracks) (hmetering : m'.state.metering = m.state.metering)
    (hcurrent : m'.current = m.current)
    (hplaced : ∀ record x, Placed m.frames m.entered record x →
      Placed m'.frames m'.entered record x ∧ (x.frame ∈ m'.frames → x.frame ∈ m.frames)) :
    m'.Tracks := by
  cases h with
  | idle hactive hrecords hrecording hnone =>
    rw [← hmetering] at hactive hrecords hrecording
    exact .idle hactive hrecords hrecording (hcurrent.trans hnone)
  | measuring record x hactive hrecords hrecording hsome hold hfollows =>
    rw [← hmetering] at hactive hrecords hrecording hfollows
    obtain ⟨hnew, hmem⟩ := hplaced record x hold
    exact .measuring record x hactive hrecords hrecording (hcurrent.trans hsome) hnew
      fun hin => hfollows (hmem hin)

/-- A metered opcode leaves a section tracked if what it makes of the record is. -/
theorem tracks_meter (hrecording : m.state.metering.recording = true)
    (hactive : m.state.metering.activeGasSnapshot = some (record.group, record.name))
    (hmetered : m.state.metering.meterGasRecord gas m.depth =
      { m.state.metering with gasRecords := [record], lastGasUsed := last })
    (hcurrent : (m.meter gas).current = some x) (hplaced : Placed m.frames m.entered record x)
    (hfollows : x.frame ∈ m.frames → x.Follows record last) : (m.meter gas).Tracks := by
  have hmetering : (m.meter gas).state.metering =
      { m.state.metering with gasRecords := [record], lastGasUsed := last } := by
    simp [SnapshotMachine.meter, hrecording, hmetered]
  refine .measuring record x ?_ ?_ ?_ hcurrent hplaced fun hmem => ?_ <;> rw [hmetering]
  · exact hactive
  · exact hrecording
  · exact hfollows hmem

/-- An opcode keeps the invariant. -/
theorem Inv.meter (h : m.Inv) (hbound : gas < 2 ^ 64)
    (hgrows : ∀ x, m.current = some x → m.measuresHere x →
      0 < gas ∧ ∀ steps ∈ x.steps, steps.2 ≤ gas) : (m.meter gas).Inv := by
  refine ⟨h.nodup, h.bounded, ?_⟩
  cases h.tracks with
  | idle hactive hrecords hrecording hcurrent =>
    refine .idle ?_ ?_ ?_ ?_ <;>
      simp [SnapshotMachine.meter, hactive, hrecords, hrecording, hcurrent]
  | measuring record x hactive hrecords hrecording hcurrent hplaced hfollows =>
    have hmetered : m.state.metering.meterGasRecord gas m.depth = { m.state.metering with
        gasRecords := [if m.depth = record.depth
          then record.metered gas m.state.metering.lastGasUsed else record]
        lastGasUsed := if m.depth = record.depth then gas
          else m.state.metering.lastGasUsed } := by
      rw [meterGasRecord, hrecords, meterRecords_singleton]
      split <;> rfl
    by_cases hhere : m.measuresHere x
    · have hmem : x.frame ∈ m.frames := List.mem_of_head? hhere
      obtain ⟨hpos, hsteps⟩ := hgrows x hcurrent hhere
      have hnote := (hfollows hmem).note hbound hpos hsteps
      rw [if_pos (hplaced.depth_eq h.nodup hhere), if_pos (hplaced.depth_eq h.nodup hhere)]
        at hmetered
      have hcurrent' : (m.meter gas).current = some (x.note gas) := by
        simp [SnapshotMachine.meter, hcurrent, hhere]
      refine tracks_meter hrecording ?_ hmetered hcurrent' ⟨hplaced.1, fun hmem => ?_⟩
        fun _ => hnote
      · rw [group_metered, name_metered, hactive]
      · rw [depth_metered]
        exact hplaced.2 hmem
    · have hcurrent' : (m.meter gas).current = some x := by
        simp [SnapshotMachine.meter, hcurrent, hhere]
      by_cases hdepth : m.depth = record.depth
      · have hgone : x.frame ∉ m.frames := fun hmem => hhere (hplaced.measuresHere hmem hdepth)
        rw [if_pos hdepth, if_pos hdepth] at hmetered
        refine tracks_meter hrecording ?_ hmetered hcurrent'
          ⟨hplaced.1, fun hmem => absurd hmem hgone⟩ fun hmem => absurd hmem hgone
        rw [group_metered, name_metered, hactive]
      · rw [if_neg hdepth, if_neg hdepth] at hmetered
        exact tracks_meter hrecording hactive hmetered hcurrent' hplaced hfollows

/-! ### Cheatcodes -/

/-- Nothing panicked, and what was measured is right. -/
def Right (m : SnapshotMachine) : Prop :=
  m.panicked = false ∧ ∀ x ∈ m.measured, x.gasUsed + x.first = x.last

/-- The metering with one section, just started. -/
def startedMetering (metering : GasMetering) (key : String × String) (depth : Nat) : GasMetering :=
  { metering with
    gasRecords := [⟨key.1, key.2, 0, depth⟩]
    activeGasSnapshot := some key
    recording := true }

/-- The metering after its section was stopped. -/
def stoppedMetering (metering : GasMetering) : GasMetering :=
  { metering with gasRecords := [], activeGasSnapshot := none, recording := false }

/-- Everything a cheatcode can do. -/
inductive Invoked (m : SnapshotMachine) (call : SnapshotCall) : SnapshotMachine → Prop
  | panicked : ¬call.Clean m → Invoked m call { m with panicked := true }
  | failed : call.Clean m → Invoked m call m
  | started (key : String × String) : m.current = none → call.Clean m →
      Invoked m call (m.started
        { m.state with metering := startedMetering m.state.metering key m.depth })
  | stopped (state : SnapshotState) : m.current.isSome →
      state.metering = stoppedMetering m.state.metering → (call.Clean m ↔ m.Unaffected) →
      Invoked m call (m.stopped state)

variable {state : SnapshotState}

/-- A start with no section: it panics if there is no group, or opens a section. -/
theorem apply_start_idle {group name : Option String}
    (hactive : state.metering.activeGasSnapshot = none)
    (hrecords : state.metering.gasRecords = []) :
    state.innerStartGasSnapshot depth group name =
      (state.deriveSnapshotName group name).map fun key =>
        (.ok none, { state with metering := startedMetering state.metering key depth }) := by
  simp [innerStartGasSnapshot, hactive, hrecords, start, startedMetering]

/-- A stop while there is a section: it stops it, or there is none of that name. -/
theorem apply_stop_measuring {record : GasRecord} {group name : Option String}
    {key : String × String}
    (hactive : state.metering.activeGasSnapshot = some (record.group, record.name))
    (hrecords : state.metering.gasRecords = [record]) (hkey : state.stopKey group name = some key) :
    (key = (record.group, record.name) →
      ∃ state', state'.metering = stoppedMetering state.metering ∧
      state.innerStopGasSnapshot group name = some (.ok (some (record.gasUsed - 171)), state')) ∧
    (key ≠ (record.group, record.name) →
      ∃ e, state.innerStopGasSnapshot group name = some (.error e, state)) := by
  obtain ⟨keyGroup, keyName⟩ := key
  constructor
  · intro heq
    cases heq
    simp [innerStopGasSnapshot, hkey, hrecords, hactive, stop,
      stoppedMetering]
  · intro hne
    have hfind : ¬(record.group = keyGroup ∧ record.name = keyName) := by
      rintro ⟨rfl, rfl⟩
      exact hne rfl
    simp [innerStopGasSnapshot, hkey, hrecords, hfind]

section

variable {group name : Option String}

/-- A start fails, panics, or opens a section. -/
theorem Tracks.invoked_start (h : m.Tracks)
    (hcall : call.apply m.state m.depth = m.state.innerStartGasSnapshot m.depth group name)
    (hclean : call.Clean m ↔ m.state.metering.activeGasSnapshot.isSome ∨
      (m.state.deriveSnapshotName group name).isSome) : Invoked m call (m.invoke call) := by
  cases h with
  | idle hactive hrecords _ hcurrent =>
    rw [apply_start_idle hactive hrecords] at hcall
    rw [hactive, Option.isSome_none, Bool.false_eq_true, false_or] at hclean
    cases hkey : m.state.deriveSnapshotName group name with
    | none =>
      have hinvoke : m.invoke call = { m with panicked := true } := by
        simp [invoke, hcall, hkey]
      rw [hinvoke]
      exact .panicked (by simp [hclean, hkey])
    | some key =>
      have hinvoke : m.invoke call = m.started
          { m.state with metering := startedMetering m.state.metering key m.depth } := by
        simp [invoke, hcall, hkey]
      rw [hinvoke]
      exact .started key hcurrent (by simp [hclean, hkey])
  | measuring record x hactive _ _ _ _ _ =>
    have hinvoke : m.invoke call = m := by
      simp [invoke, hcall, innerStartGasSnapshot, hactive]
    rw [hinvoke]
    exact .failed (by simp [hclean, hactive])

/-- A stop fails, panics, or ends the section. -/
theorem Tracks.invoked_stop (h : m.Tracks)
    (hcall : call.apply m.state m.depth = m.state.innerStopGasSnapshot group name)
    (hclean : call.Clean m ↔ ∃ key, m.state.stopKey group name = some key ∧
      (m.state.metering.activeGasSnapshot = some key → m.Unaffected)) :
    Invoked m call (m.invoke call) := by
  cases hkey : m.state.stopKey group name with
  | none =>
    have hinvoke : m.invoke call = { m with panicked := true } := by
      simp [invoke, hcall, innerStopGasSnapshot, hkey]
    rw [hinvoke]
    exact .panicked (by simp [hclean, hkey])
  | some key =>
    simp only [hkey, Option.some.injEq, exists_eq_left'] at hclean
    cases h with
    | idle hactive hrecords _ _ =>
      have hinvoke : m.invoke call = m := by
        simp [invoke, hcall, innerStopGasSnapshot, hkey, hrecords]
      rw [hinvoke]
      exact .failed (by simp [hclean, hactive])
    | measuring record x hactive hrecords _ hcurrent _ _ =>
      have hstop := apply_stop_measuring hactive hrecords hkey
      by_cases heq : key = (record.group, record.name)
      · obtain ⟨state, hstate, happly⟩ := hstop.1 heq
        have hinvoke : m.invoke call = m.stopped state := by simp [invoke, hcall, happly]
        rw [hinvoke]
        refine .stopped state (by simp [hcurrent]) hstate ?_
        simp [hclean, hactive, heq]
      · obtain ⟨e, happly⟩ := hstop.2 heq
        have hinvoke : m.invoke call = m := by simp [invoke, hcall, happly]
        rw [hinvoke]
        refine .failed (hclean.mpr fun hsome => absurd ?_ heq)
        exact (Option.some.inj (hactive.symm.trans hsome)).symm

end

variable {call : SnapshotCall}

theorem Tracks.invoked (h : m.Tracks) (call : SnapshotCall) : Invoked m call (m.invoke call) := by
  cases call with
  | startSnapshotGas0 | startSnapshotGas1 =>
    refine h.invoked_start rfl ?_
    simp [SnapshotCall.Clean, deriveSnapshotName]
  | stopSnapshotGas0 | stopSnapshotGas1 =>
    refine h.invoked_stop rfl ?_
    cases hactive : m.state.metering.activeGasSnapshot <;>
      simp [SnapshotCall.Clean, stopKey, hactive]
  | stopSnapshotGas2 group name =>
    refine h.invoked_stop rfl ?_
    simp [SnapshotCall.Clean, stopKey]

/-- A cheatcode keeps the invariant. -/
theorem Inv.invoke (h : m.Inv) (hframes : m.frames ≠ []) (call : SnapshotCall) :
    (m.invoke call).Inv := by
  have hinvoked := h.tracks.invoked call
  generalize m.invoke call = m' at hinvoked
  cases hinvoked with
  | panicked _ =>
    exact ⟨h.nodup, h.bounded, h.tracks.of_frames rfl rfl fun _ _ hplaced => ⟨hplaced, id⟩⟩
  | failed _ => exact h
  | started key _ _ =>
    obtain ⟨frame, below, hcons⟩ := List.exists_cons_of_ne_nil hframes
    refine ⟨h.nodup, h.bounded, .measuring ⟨key.1, key.2, 0, m.depth⟩
      ⟨frame, m.state.metering.lastGasUsed, none⟩ rfl rfl rfl ?_ ?_ ?_⟩
    · simp [started, hcons]
    · refine ⟨h.bounded frame (by simp [hcons]), fun _ => ⟨[], below, hcons, ?_⟩⟩
      simp [depth, hcons]
    · exact fun _ => (Measuring.follows_none rfl).mpr ⟨rfl, rfl⟩
  | stopped state _ hstate _ =>
    refine ⟨h.nodup, h.bounded, .idle ?_ ?_ ?_ rfl⟩ <;>
      simp [stopped, hstate, stoppedMetering]

/-- What is measured when a section is stopped is right exactly if nothing was left behind. -/
theorem Inv.right_stopped (h : m.Inv) (hcurrent : m.current.isSome) :
    (m.stopped state).Right ↔ m.Right ∧ m.Unaffected := by
  cases h.tracks with
  | idle _ _ _ hnone => simp [hnone] at hcurrent
  | measuring record x _ hrecords _ hx _ hfollows =>
    have hmeasured : (∀ y ∈ (m.stopped state).measured, y.gasUsed + y.first = y.last) ↔
        (∀ y ∈ m.measured, y.gasUsed + y.first = y.last) ∧ m.Unaffected := by
      by_cases hhere : m.measuresHere x
      · have hmem : x.frame ∈ m.frames := List.mem_of_head? hhere
        cases hsteps : x.steps with
        | none =>
          simp [stopped, Unaffected, hx, hhere, hrecords, hsteps]
        | some steps =>
          obtain ⟨first, now⟩ := steps
          obtain ⟨hsum, -⟩ := (Measuring.follows_some hsteps).mp (hfollows hmem)
          have hright : record.gasUsed + first = now ↔ x.leftover = 0 ∨ first ≤ x.leftover := by
            rw [← x.carried_eq_zero first]
            omega
          simp [stopped, Unaffected, hx, hhere, hrecords, hsteps, or_imp,
            forall_and, hright]
      · simp [stopped, Unaffected, hx, hhere]
    exact (and_congr_right fun _ => hmeasured).trans and_assoc.symm

theorem Inv.right_invoke (h : m.Inv) :
    (m.invoke call).Right ↔ m.Right ∧ call.Clean m := by
  have hinvoked := h.tracks.invoked call
  generalize m.invoke call = m' at hinvoked
  cases hinvoked with
  | panicked hclean => simp [Right, hclean]
  | failed hclean => simp [hclean]
  | started key _ hclean => simp [Right, started, hclean]
  | stopped state hcurrent _ hclean => rw [h.right_stopped hcurrent, hclean]

/-! ### Runs -/

variable {event : SnapshotEvent}

theorem Inv.step (h : m.Inv) (hgrows : m.Grows event) (hstep : Step m event m') :
    m'.Inv ∧ (m'.Right ↔ m.Right ∧ m.Clean event) := by
  unfold Step SnapshotMachine.step at hstep
  split at hstep
  · cases hstep
  · cases event with
    | enter =>
      cases hstep
      refine ⟨⟨?_, ?_, ?_⟩, by simp [Right, Clean]⟩
      · exact List.nodup_cons.mpr ⟨fun hmem => lt_irrefl _ (h.bounded _ hmem), h.nodup⟩
      · intro frame hframe
        rcases List.mem_cons.mp hframe with rfl | hmem
        · exact Nat.lt_succ_self _
        · exact Nat.lt_succ_of_lt (h.bounded frame hmem)
      · refine h.tracks.of_frames rfl rfl fun record x hplaced => ⟨hplaced.enter, fun hmem => ?_⟩
        rcases List.mem_cons.mp hmem with heq | hmem
        · exact absurd hplaced.1 (heq ▸ lt_irrefl _)
        · exact hmem
    | exit =>
      dsimp only at hstep
      split at hstep
      · cases hstep
      · cases hstep
        refine ⟨⟨h.nodup.tail, fun frame hmem => h.bounded frame (List.mem_of_mem_tail hmem), ?_⟩,
          by simp [Right, Clean]⟩
        exact h.tracks.of_frames rfl rfl fun _ _ hplaced =>
          ⟨hplaced.exit h.nodup, List.mem_of_mem_tail⟩
    | opcode gas finished =>
      dsimp only at hstep
      split at hstep
      · cases hstep
      · cases hstep
        cases finished with
        | true => exact ⟨h, by simp [Clean]⟩
        | false =>
          exact ⟨h.meter gas.toNat_lt hgrows, by simp [Right, Clean, SnapshotMachine.meter]⟩
    | cheat gas call =>
      dsimp only at hstep
      split at hstep
      · cases hstep
      · rename_i hframes
        cases hstep
        have hmetered := h.meter gas.toNat_lt hgrows
        exact ⟨hmetered.invoke hframes call, hmetered.right_invoke⟩

theorem step_deterministic (m : SnapshotMachine) (event : SnapshotEvent) (m₁ m₂ : SnapshotMachine)
    (h₁ : Guarded Grows Step m event m₁) (h₂ : Guarded Grows Step m event m₂) : m₁ = m₂ :=
  Option.some.inj (h₁.2.symm.trans h₂.2)

theorem Inv.sound_iff (h : m.Inv) : m.Sound ↔ m.Right := by
  refine ⟨fun hsound => ⟨hsound.total, hsound.exact⟩, fun hright => ⟨hright.1, ?_, ?_, hright.2⟩⟩
  · cases h.tracks with
    | idle _ hrecords _ _ => simp [hrecords]
    | measuring record x _ hrecords _ _ _ _ => simp [hrecords]
  · cases h.tracks with
    | idle hactive hrecords _ _ => simp [hactive, hrecords]
    | measuring record x hactive hrecords _ _ _ _ => simp [hactive, hrecords]

/-- **Gas sections.** Where the gas of a section's frame grows, sections measure themselves and
nothing panics exactly if all calls were clean: no section that is stopped began with what its frame
spent after an earlier one, and none is stopped without its name while there is none. -/
theorem sound_iff_clean {runningArtifact : Option String} {events : List SnapshotEvent}
    (h : Run (Guarded Grows Step) (initial runningArtifact) events m) :
    m.Sound ↔ Run.Along (Guarded Grows Step) (initial runningArtifact) events Clean := by
  have hinv₀ : (initial runningArtifact).Inv :=
    ⟨List.nodup_nil, fun _ hmem => absurd hmem List.not_mem_nil, .idle rfl rfl rfl rfl⟩
  have hinv : m.Inv := h.keeps hinv₀ fun hI hs => (hI.step hs.1 hs.2).1
  rw [hinv.sound_iff]
  exact h.along_iff_of_invariant (I := Inv) (G := Right) step_deterministic hinv₀
    (fun _ _ _ hI hs => (hI.step hs.1 hs.2).1)
    ⟨rfl, fun _ hmem => absurd hmem List.not_mem_nil⟩ fun _ _ _ hI hs => (hI.step hs.1 hs.2).2

/-- One section, from 1100 to 1500. -/
def sampleSection : List SnapshotEvent :=
  [.enter, .cheat 1000 (.startSnapshotGas1 "g" "a"), .opcode 1100 false,
    .cheat 1500 .stopSnapshotGas0]

/-- Another one later on in the frame, from 5100 to 5200. -/
def sampleLater : List SnapshotEvent :=
  [.opcode 2000 false, .cheat 5000 (.startSnapshotGas1 "g" "b"), .opcode 5100 false,
    .cheat 5200 .stopSnapshotGas0]

/-- Whether the gas grows, as a test. -/
def growsTest (m : SnapshotMachine) : SnapshotEvent → Bool
  | .opcode gas _ | .cheat gas _ => m.current.all fun x =>
    decide (0 < gas.toNat) && x.steps.all fun steps => decide (steps.2 ≤ gas.toNat)
  | _ => true

theorem grows_of_test (h : growsTest m event = true) : m.Grows event := by
  have hgas (gas : UInt64) (hall : (m.current.all fun x =>
      decide (0 < gas.toNat) && x.steps.all fun steps => decide (steps.2 ≤ gas.toNat)) = true) :
      ∀ x, m.current = some x → m.measuresHere x →
        0 < gas.toNat ∧ ∀ steps ∈ x.steps, steps.2 ≤ gas.toNat := by
    intro x hx _
    cases hsteps : x.steps <;> simpa [hx, hsteps] using hall
  cases event with
  | enter => trivial
  | exit => trivial
  | opcode gas finished => exact hgas gas h
  | cheat gas call => exact hgas gas h

/-- One section in a frame of its own measures what is spent in it. -/
theorem sound_iff_clean_section :
    ∃ m, Run (Guarded Grows Step) (initial (some "Test")) sampleSection m ∧
      (m.Sound ↔
        Run.Along (Guarded Grows Step) (initial (some "Test")) sampleSection Clean) :=
  ⟨_, Run.guarded_of_foldlM (fun _ _ => grows_of_test) rfl,
    sound_iff_clean (Run.guarded_of_foldlM (fun _ _ => grows_of_test) rfl)⟩

/-- The second section also counts what the frame has spent since the first one; and a stop
without a section panics. -/
theorem not_sound_later :
    (∃ m, Run (Guarded Grows Step) (initial (some "Test")) (sampleSection ++ sampleLater) m ∧
      ⟨3700, 5100, 5200⟩ ∈ m.measured ∧ ¬m.Sound) ∧
    ∃ m, Run (Guarded Grows Step) (initial (some "Test")) [.enter, .cheat 100 .stopSnapshotGas0] m ∧
      ¬m.Sound := by
  constructor
  · refine ⟨_, Run.guarded_of_foldlM (fun _ _ => grows_of_test) rfl, ?_, ?_⟩
    · exact List.mem_append_right _ List.mem_cons_self
    · intro h
      exact absurd (h.exact ⟨3700, 5100, 5200⟩ (List.mem_append_right _ List.mem_cons_self))
        (by decide)
  · refine ⟨_, Run.guarded_of_foldlM (fun _ _ => grows_of_test) rfl, ?_⟩
    intro h
    exact absurd h.total (by decide)

end SnapshotMachine

end BaseAnvil.Cheats

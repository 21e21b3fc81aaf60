import BaseAnvil.Chain.Backend
import BaseAnvil.Chain.StateCache
import BaseAnvil.Lib.Loop

/-!
# BaseAnvil.Chain.Eviction

Whether `enforce_limits` ends.

Its loops pop from a queue until the queue is shorter than a limit, and a round on an empty
queue changes nothing. So they end exactly if no limit is zero, which the options of the node
allow for the states in memory.
-/

namespace BaseAnvil.Chain

open Lib

/-- `PruneStateHistoryConfig::from_args`: the option may come without a number. -/
def PruneStateHistoryConfig.fromArgs (val : Option (Option Nat)) : PruneStateHistoryConfig :=
  (val.map fun maxMemoryHistory => ⟨true, maxMemoryHistory⟩).getD ⟨false, none⟩

namespace InMemoryBlockStates

/-- The cache that `Backend::with_genesis` sets up, before any block time is known. -/
def configured (config : PruneStateHistoryConfig) (maxPersistedStates : Option Nat) :
    InMemoryBlockStates :=
  if config.enabled then
    ((config.maxMemoryHistory.map fun limit => new limit 0).getD default).memoryOnly
  else
    (maxPersistedStates.map fun limit => new defaultHistoryLimit limit).getD default

/-! ### The loops -/

def memoryFull (s : InMemoryBlockStates) : Bool := s.inMemoryLimit ≤ s.present.length

/-- A round of the first loop. -/
def evictOldest (ord : DbOrder) (s : InMemoryBlockStates) : InMemoryBlockStates :=
  match s.present with
  | [] => s
  | hash :: rest =>
    match s.states.lookup hash with
    | none => { s with present := rest }
    | some state =>
      let s := { s with present := rest, states := s.states.erase hash }
      if s.isMemoryOnly then s
      else
        let (stateSnapshot, state) := state.clearIntoStateSnapshot ord
        { s with
          diskCache := s.diskCache.insert hash stateSnapshot
          onDiskStates := s.onDiskStates.insert hash state
          oldestOnDisk := s.oldestOnDisk ++ [hash] }

def diskFull (s : InMemoryBlockStates) : Bool :=
  !s.isMemoryOnly && s.maxOnDiskLimit ≤ s.oldestOnDisk.length

/-- A round of the second loop. -/
def purgeOldest (s : InMemoryBlockStates) : InMemoryBlockStates :=
  match s.oldestOnDisk with
  | [] => s
  | hash :: rest =>
    { s with
      oldestOnDisk := rest
      onDiskStates := s.onDiskStates.erase hash
      diskCache := s.diskCache.erase hash }

/-- `enforce_limits` ends, and in this state. -/
def EnforcesLimits (ord : DbOrder) (s t : InMemoryBlockStates) : Prop :=
  ∃ m, Loop memoryFull (evictOldest ord) s m ∧ Loop diskFull purgeOldest m t

/-- What an operation calls `enforce_limits` on, if it does. -/
def enforced (s : InMemoryBlockStates) : StatesOp → Option (DbOrder × InMemoryBlockStates)
  | .insert ord _ _ => some (ord, { s with inMemoryLimit := s.nextLimit })
  | .updateIntervalMineBlockTime ord blockTime =>
    if blockTime ≤ 2 then some (ord, { s with inMemoryLimit := defaultHistoryLimit * 3 })
    else none
  | .clear => none

variable {ord : DbOrder} {s t : InMemoryBlockStates}

/-! ### The loops and the functions -/

theorem enforceMemoryLimit_of_full (h : s.memoryFull = true) :
    s.enforceMemoryLimit ord = (s.evictOldest ord).enforceMemoryLimit ord := by
  have hfull : s.inMemoryLimit ≤ s.present.length := of_decide_eq_true h
  cases hpresent : s.present with
  | nil => rw [evictOldest, hpresent]
  | cons hash rest =>
    rw [enforceMemoryLimit, if_pos hfull, evictOldest, hpresent]
    dsimp only
    cases s.states.lookup hash with
    | none => rfl
    | some state =>
      dsimp only
      split <;> rfl

/-- A round pops the queue and changes no limit. -/
theorem length_evictOldest : (s.evictOldest ord).present.length = s.present.length - 1 := by
  unfold evictOldest
  split
  · rename_i hempty
    rw [hempty]
    rfl
  · rename_i hpresent
    rw [hpresent]
    split
    · rfl
    · dsimp only
      split <;> rfl

theorem sameLimits_evictOldest : s.SameLimits (s.evictOldest ord) := by
  unfold evictOldest
  split
  · exact ⟨rfl, rfl, rfl⟩
  · split
    · exact ⟨rfl, rfl, rfl⟩
    · dsimp only
      split <;> exact ⟨rfl, rfl, rfl⟩

theorem sameLimits_purgeOldest : s.SameLimits s.purgeOldest := by
  unfold purgeOldest
  split <;> exact ⟨rfl, rfl, rfl⟩

theorem enforceMemoryLimit_eq_some_iff :
    s.enforceMemoryLimit ord = some t ↔ Loop memoryFull (evictOldest ord) s t := by
  constructor
  · intro h
    induction hn : s.present.length using Nat.strongRecOn generalizing s with
    | ind n ih =>
      cases hguard : s.memoryFull with
      | false =>
        rw [enforceMemoryLimit, if_neg (of_decide_eq_false hguard)] at h
        cases h
        exact .done hguard
      | true =>
        cases hpresent : s.present with
        | nil =>
          -- the function has no result on an empty queue
          rw [enforceMemoryLimit, if_pos (of_decide_eq_true hguard)] at h
          split at h <;> simp_all
        | cons hash rest =>
          rw [enforceMemoryLimit_of_full hguard] at h
          refine .next hguard (ih _ ?_ h rfl)
          rw [length_evictOldest, ← hn, hpresent]
          exact Nat.lt_succ_self _
  · intro h
    induction h with
    | done hguard => rw [enforceMemoryLimit, if_neg (of_decide_eq_false hguard)]
    | next hguard _ ih => rw [enforceMemoryLimit_of_full hguard, ih]

theorem loop_enforceDiskLimit : Loop diskFull purgeOldest s s.enforceDiskLimit := by
  fun_induction enforceDiskLimit s with
  | case1 s hfull hempty =>
    -- the limit is not zero, so the queue is not empty
    simp [isMemoryOnly, hempty] at hfull
  | case2 s hfull hash rest hdisk =>
    rename_i ih
    refine .next hfull ?_
    rw [purgeOldest, hdisk]
    exact ih
  | case3 s hroom => exact .done (Bool.eq_false_iff.mpr hroom)

theorem enforceLimits_ends (h : s.enforceLimits ord = some t) : EnforcesLimits ord s t := by
  obtain ⟨m, hm, rfl⟩ := Option.map_eq_some_iff.mp h
  exact ⟨m, enforceMemoryLimit_eq_some_iff.mp hm, loop_enforceDiskLimit⟩

theorem EnforcesLimits.sameLimits (h : EnforcesLimits ord s t) : s.SameLimits t := by
  have htrans : ∀ {s' s'' : InMemoryBlockStates}, s.SameLimits s' → s'.SameLimits s'' →
      s.SameLimits s'' :=
    fun h h' => ⟨h'.1.trans h.1, h'.2.1.trans h.2.1, h'.2.2.trans h.2.2⟩
  obtain ⟨m, hmemory, hdisk⟩ := h
  refine hdisk.invariant (fun _ h _ => htrans h sameLimits_purgeOldest) ?_
  exact hmemory.invariant (fun _ h _ => htrans h sameLimits_evictOldest)
    ⟨rfl, rfl, rfl⟩

/-! ### When they end -/

/-- Both limits on states in memory leave room. -/
def HasRoom (s : InMemoryBlockStates) : Prop := 1 ≤ s.minInMemoryLimit ∧ 1 ≤ s.inMemoryLimit

theorem exists_enforcesLimits (h : 1 ≤ s.inMemoryLimit) : ∃ t, EnforcesLimits ord s t := by
  obtain ⟨m, hm⟩ : ∃ m, Loop memoryFull (evictOldest ord) s m := by
    refine Loop.exists_of_measure (fun s => 1 ≤ s.inMemoryLimit) (fun s => s.present.length)
      (fun s hlimit hfull => ⟨sameLimits_evictOldest.1.symm ▸ hlimit, ?_⟩) h
    have hle : s.inMemoryLimit ≤ s.present.length := of_decide_eq_true hfull
    rw [length_evictOldest]
    omega
  exact ⟨_, m, hm, loop_enforceDiskLimit⟩

/-- With a limit of zero the first loop goes on when nothing is left. -/
theorem not_exists_enforcesLimits (h : s.inMemoryLimit = 0) : ¬∃ t, EnforcesLimits ord s t := by
  rintro ⟨_, m, hm, -⟩
  refine Loop.not_of_invariant (fun s => s.inMemoryLimit = 0) (fun s hzero => ⟨?_, ?_⟩) h ⟨m, hm⟩
  · exact decide_eq_true (hzero ▸ Nat.zero_le _)
  · exact sameLimits_evictOldest.1.trans hzero

theorem HasRoom.enforced (h : s.HasRoom) (op : StatesOp) :
    ∀ call ∈ s.enforced op, 1 ≤ call.2.inMemoryLimit := by
  intro call hcall
  cases op with
  | insert ord hash state =>
    cases hcall
    show 1 ≤ s.nextLimit
    have hmin := h.1
    have hlimit := h.2
    unfold nextLimit
    split <;> omega
  | updateIntervalMineBlockTime ord blockTime =>
    obtain ⟨-, heq⟩ := Option.ite_none_right_eq_some.mp hcall
    cases heq
    exact Nat.le_of_ble_eq_true rfl
  | clear => cases hcall

theorem HasRoom.step {op : StatesOp} {s' : InMemoryBlockStates} (h : s.HasRoom)
    (hstep : s.StatesStep op s') : s'.HasRoom := by
  have hlimit := h.enforced op
  cases op with
  | insert ord hash state =>
    rw [StatesStep, exec, insert_eq] at hstep
    obtain ⟨t, ht, rfl⟩ := Option.map_eq_some_iff.mp hstep
    have hsame := (enforceLimits_ends ht).sameLimits
    exact ⟨hsame.2.1.symm ▸ h.1, hsame.1.symm ▸ hlimit _ rfl⟩
  | updateIntervalMineBlockTime ord blockTime =>
    rw [StatesStep, exec, updateIntervalMineBlockTime] at hstep
    split at hstep
    · have hsame := (enforceLimits_ends hstep).sameLimits
      exact ⟨hsame.2.1.symm ▸ h.1, hsame.1.symm ▸ Nat.le_of_ble_eq_true rfl⟩
    · cases hstep
      exact h
  | clear =>
    cases hstep
    exact h

/-- Only `--prune-history 0` sets up a cache without room. -/
theorem hasRoom_configured {pruneHistory : Option (Option Nat)} (h : pruneHistory ≠ some (some 0))
    (maxPersistedStates : Option Nat) :
    (configured (.fromArgs pruneHistory) maxPersistedStates).HasRoom := by
  rcases pruneHistory with _ | _ | limit
  · cases maxPersistedStates <;> exact ⟨Nat.le_of_ble_eq_true rfl, Nat.le_of_ble_eq_true rfl⟩
  · exact ⟨Nat.le_of_ble_eq_true rfl, Nat.le_of_ble_eq_true rfl⟩
  · have hlimit : 1 ≤ limit := Nat.one_le_iff_ne_zero.mpr fun hzero => h (hzero ▸ rfl)
    exact ⟨le_min hlimit (by decide), hlimit⟩

/-- **Eviction.** In whatever order states are inserted and the block time is set, `enforce_limits`
ends whenever it is called, unless the node was started with `--prune-history 0`. The loop goes on
as long as there are at least as many states as the limit says. -/
theorem enforcesLimits_iff (pruneHistory : Option (Option Nat)) (maxPersistedStates : Option Nat) :
    (∀ ops s op, Run StatesStep (configured (.fromArgs pruneHistory) maxPersistedStates) ops s →
      ∀ call ∈ s.enforced op, ∃ t, EnforcesLimits call.1 call.2 t) ↔
    pruneHistory ≠ some (some 0) := by
  constructor
  · rintro h rfl
    -- the first state that is inserted
    have hends := h [] _ (.insert ascendingDbOrder 0 .empty) .nil _ rfl
    exact not_exists_enforcesLimits rfl hends
  · intro hne ops s op hrun call hcall
    have hroom : s.HasRoom :=
      hrun.keeps (hasRoom_configured hne maxPersistedStates) HasRoom.step
    exact exists_enforcesLimits (hroom.enforced op call hcall)

/-- `--prune-history 0`: the state of the genesis block is never inserted. -/
theorem not_enforcesLimits : ∃ call ∈ (configured (.fromArgs (some (some 0))) none).enforced
    (.insert ascendingDbOrder 0 .empty), ¬∃ t, EnforcesLimits call.1 call.2 t :=
  ⟨_, rfl, not_exists_enforcesLimits rfl⟩

end InMemoryBlockStates

end BaseAnvil.Chain

import BaseAnvil.Forks.Backend

/-!
# BaseAnvil.Forks.Runs

Sequences of operations on a backend, and what each operation leaves as it is.

Selecting a fork is the long one, and most of what it does is not of interest to the
snapshots: it touches neither them nor the in-memory database, and no fork goes away or
moves (`SameSnapshots`). The fork in use is there in every state that is reached, and so
is the place of every fork that a snapshot was taken of (`Wf`).
-/

namespace BaseAnvil.Forks

open Lib Chain BackendInner
open Pool (Address)

/-- An operation, with what it is handed by the EVM and by the handler of the forks. -/
inductive BackendOp
  | createFork (response : Except ForkError (ForkId × DatabaseRef))
  | selectFork (ord : DbOrder) (id : LocalForkId) (env : Env) (active : JournaledState)
      (responses : Backend.SelectResponses)
  | snapshotState (journaledState : JournaledState) (env : Env)
  | revertState (id : U256) (currentState : JournaledState) (current : Env)
      (action : RevertStateSnapshotAction)
  | deleteStateSnapshot (id : U256)

namespace Backend

/-- The backend after an operation, if it returns. -/
def exec (host : Host) (b : Backend) : BackendOp → Option Backend
  | .createFork response => some (b.createFork host response).2
  | .selectFork ord id env active responses =>
    (b.selectFork host ord id env active responses).map (·.2.1)
  | .snapshotState journaledState env => (b.snapshotState journaledState env).map (·.2)
  | .revertState id currentState current action =>
    some (b.revertState host id currentState current action).2.1
  | .deleteStateSnapshot id => some (b.deleteStateSnapshot id).2

def Step (host : Host) (b : Backend) (op : BackendOp) (b' : Backend) : Prop :=
  b.exec host op = some b'

/-- The same snapshots and the same in-memory database, and every fork is where it was. -/
structure SameSnapshots (b b' : Backend) : Prop where
  stateSnapshots : b'.inner.stateSnapshots = b.inner.stateSnapshots
  memDb : b'.memDb = b.memDb
  length : b.inner.forks.length ≤ b'.inner.forks.length
  getFork : ∀ idx, (b.inner.getFork idx).isSome → (b'.inner.getFork idx).isSome

theorem SameSnapshots.refl (b : Backend) : SameSnapshots b b :=
  ⟨rfl, rfl, Nat.le_refl _, fun _ h => h⟩

theorem SameSnapshots.trans {b b' b'' : Backend} (h : SameSnapshots b b')
    (h' : SameSnapshots b' b'') : SameSnapshots b b'' where
  stateSnapshots := h'.stateSnapshots.trans h.stateSnapshots
  memDb := h'.memDb.trans h.memDb
  length := Nat.le_trans h.length h'.length
  getFork idx hidx := h'.getFork idx (h.getFork idx hidx)

end Backend

/-! ### Forks in place -/

variable {idx : ForkLookupIndex}

namespace BackendInner

variable {i : BackendInner} {fork : Fork}

theorem lt_of_getFork (h : (i.getFork idx).isSome) : idx < i.forks.length := by
  by_contra hle
  rw [getFork, List.getElem?_eq_none (Nat.not_lt.mp hle)] at h
  cases h

theorem getFork_setFork (hidx : idx < i.forks.length) (fork : Fork) (k : ForkLookupIndex) :
    (i.setFork idx fork).getFork k = if k = idx then some fork else i.getFork k := by
  unfold getFork setFork
  by_cases hk : k = idx
  · subst hk
    simp [hidx]
  · simp [hk, Ne.symm hk]

/-- The gap that a fork leaves. -/
theorem getFork_gap (k : ForkLookupIndex) :
    ({ i with forks := i.forks.set idx none } : BackendInner).getFork k =
      if k = idx then none else i.getFork k := by
  unfold getFork
  by_cases hk : k = idx
  · subst hk
    rw [if_pos rfl, List.getElem?_set_self']
    cases i.forks[k]? <;> rfl
  · rw [if_neg hk, List.getElem?_set_ne (Ne.symm hk)]

theorem isSome_getFork_setFork {k : ForkLookupIndex} (h : (i.getFork k).isSome) :
    ((i.setFork idx fork).getFork k).isSome := by
  have hk := lt_of_getFork h
  unfold getFork setFork
  by_cases hkeq : k = idx
  · subst hkeq
    simp [hk]
  · rw [List.getElem?_set_ne (Ne.symm hkeq)]
    exact h

@[simp] theorem length_setFork :
    (i.setFork idx fork).forks.length = i.forks.length := by
  simp [setFork]

end BackendInner

variable {host : Host} {b b' : Backend} {op : BackendOp}

namespace Backend

/-- Writing to the place of a fork. -/
theorem sameSnapshots_setFork (fork : Fork) :
    SameSnapshots b { b with inner := b.inner.setFork idx fork } where
  stateSnapshots := rfl
  memDb := rfl
  length := by simp
  getFork k hk := isSome_getFork_setFork hk

/-! ### Selecting a fork -/

theorem initForks_isSome (host : Host) (init : JournaledState) (loaded : List (Address × Account))
    (forks : List (Option Fork)) :
    (initForks host init loaded forks).2.map Option.isSome = forks.map Option.isSome := by
  fun_induction initForks host init loaded forks with
  | case1 => rfl
  | case2 rest res rest' heq ih =>
    rw [heq] at ih
    simp [ih]
  | case3 fork rest err db heq => rfl
  | case4 fork rest journaledState db heq res rest' heq' ih =>
    rw [heq'] at ih
    simp [ih]

theorem sameSnapshots_prepareInitJournalState (host : Host) (ord : DbOrder) (b : Backend) :
    SameSnapshots b (b.prepareInitJournalState host ord).2 := by
  unfold prepareInitJournalState
  generalize (CacheDb.entries ord.addresses b.forkInitJournaledState.state).filter _ = loaded
  have hmap := initForks_isSome host b.forkInitJournaledState loaded b.inner.forks
  have hlength := congrArg List.length hmap
  rw [List.length_map, List.length_map] at hlength
  refine ⟨rfl, rfl, Nat.le_of_eq hlength.symm, fun idx hidx => ?_⟩
  have hat := congrArg (·[idx]?) hmap
  simp only [List.getElem?_map] at hat
  unfold getFork at hidx ⊢
  cases hold : b.inner.forks[idx]? with
  | none =>
    rw [hold] at hidx
    cases hidx
  | some old =>
    rw [hold] at hidx hat
    obtain ⟨new, hnew, hsome⟩ := Option.map_eq_some_iff.mp hat
    show ((initForks host b.forkInitJournaledState loaded b.inner.forks).2[idx]?.join).isSome
    rw [hnew]
    exact hsome.trans hidx

variable {active journaledState current : JournaledState} {caller : Address} {ord : DbOrder}
  {res : Except ForkError Unit} {env : Env} {id : U256} {action : RevertStateSnapshotAction}
  {snapshot : BackendStateSnapshot}

theorem sameSnapshots_recordJournal
    (h : b.recordJournal host ord idx caller active = some (res, b')) :
    SameSnapshots b b' ∧ b'.activeForkIds = b.activeForkIds := by
  obtain ⟨memDb, init, activeForkIds, inner⟩ := b
  cases activeForkIds with
  | some ids =>
    simp only [recordJournal, Option.bind_eq_bind, Option.bind_eq_some_iff] at h
    obtain ⟨activeFork, -, targetFork, -, h⟩ := h
    cases h
    exact ⟨(sameSnapshots_setFork _).trans (sameSnapshots_setFork _), rfl⟩
  | none =>
    have hprep := sameSnapshots_prepareInitJournalState host ord ⟨memDb, active, none, inner⟩
    have hids : (prepareInitJournalState host ord ⟨memDb, active, none, inner⟩).2.activeForkIds =
      none := rfl
    simp only [recordJournal] at h
    generalize prepareInitJournalState host ord ⟨memDb, active, none, inner⟩ = prepared
      at h hprep hids
    obtain ⟨_ | _, b₁⟩ := prepared
    all_goals
      cases h
      exact ⟨⟨hprep.stateSnapshots, hprep.memDb, hprep.length, hprep.getFork⟩, hids⟩

variable {id : LocalForkId}

/-- Handing over from an active fork: its database loads the persistent accounts, and what it
then has of them is merged into the target. -/
theorem handOver_of_active {activeIdx : ForkLookupIndex}
    (hactive : b.activeForkIds = some (id, activeIdx))
    (h : b.handOver host ord idx caller active = some (b', journaledState)) :
    ∃ fork activeFork, b.inner.getFork idx = some fork ∧ idx ≠ activeIdx ∧
      b.inner.getFork activeIdx = some activeFork ∧
      let persistent := ord.addresses.toList b.inner.persistentAccounts
      let synced := syncPersistent host ord activeFork.db fork.journaledState persistent
      let ready := orInsertCaller host caller active { synced.2 with depth := active.depth } fork.db
      let merged := mergeAccountData persistent synced.1.cache active ⟨ready.2, ready.1⟩
      journaledState = merged.journaledState ∧ b'.activeForkIds = b.activeForkIds ∧
      b'.memDb = b.memDb ∧
      b'.inner = ({ b.inner with forks := b.inner.forks.set idx none }.setFork activeIdx
        { activeFork with db := synced.1 }).setFork idx merged := by
  obtain ⟨memDb, init, activeForkIds, inner⟩ := b
  cases hactive
  simp only [handOver, Option.bind_eq_bind, Option.bind_eq_some_iff, takeFork,
    Option.map_eq_some_iff] at h
  obtain ⟨_, ⟨fork, hfork, rfl⟩, _, ⟨activeFork, hactiveFork, rfl⟩, activeDb, hdb, h⟩ := h
  rw [getFork_gap] at hactiveFork
  have hne : idx ≠ activeIdx := by
    rintro rfl
    rw [if_pos rfl] at hactiveFork
    cases hactiveFork
  have hkeep : inner.getFork activeIdx = some activeFork := by
    rwa [if_neg hne.symm] at hactiveFork
  have hlt : activeIdx < inner.forks.length := lt_of_getFork (by rw [hkeep]; rfl)
  have hlt' : activeIdx < ({ inner with forks := inner.forks.set idx none } :
      BackendInner).forks.length := by
    simpa using hlt
  dsimp only [db] at hdb
  rw [getFork_setFork hlt', if_pos rfl] at hdb
  cases hdb
  cases h
  exact ⟨fork, activeFork, hfork, hne, hkeep, rfl, rfl, rfl, rfl⟩

/-- Handing over from the in-memory database. -/
theorem handOver_of_none (hactive : b.activeForkIds = none)
    (h : b.handOver host ord idx caller active = some (b', journaledState)) :
    ∃ fork, b.inner.getFork idx = some fork ∧
      let persistent := ord.addresses.toList b.inner.persistentAccounts
      let ready := orInsertCaller host caller active
        { fork.journaledState with depth := active.depth } fork.db
      let merged := mergeAccountData persistent b.memDb.cache active ⟨ready.2, ready.1⟩
      journaledState = merged.journaledState ∧ b'.activeForkIds = b.activeForkIds ∧
      b'.memDb = b.memDb ∧
      b'.inner = { b.inner with forks := b.inner.forks.set idx none }.setFork idx merged := by
  obtain ⟨memDb, init, activeForkIds, inner⟩ := b
  cases hactive
  simp only [handOver, Option.bind_eq_bind, Option.bind_eq_some_iff, takeFork,
    Option.map_eq_some_iff] at h
  obtain ⟨_, ⟨fork, hfork, rfl⟩, _, heq, activeDb, hdb, h⟩ := h
  cases heq
  cases hdb
  cases h
  exact ⟨fork, hfork, rfl, rfl, rfl, rfl⟩

/-- A fork is put back where it was taken from. -/
theorem sameSnapshots_refill {fork merged : Fork} {inner : BackendInner}
    (hfork : b.inner.getFork idx = some fork) (hmem : b'.memDb = b.memDb)
    (hsnap : inner.stateSnapshots = b.inner.stateSnapshots)
    (hlength : inner.forks.length = b.inner.forks.length)
    (hothers : ∀ k, k ≠ idx → (b.inner.getFork k).isSome → (inner.getFork k).isSome)
    (hinner : b'.inner = inner.setFork idx merged) :
    SameSnapshots b b' ∧ (b'.inner.getFork idx).isSome := by
  have hlt : idx < inner.forks.length := by
    rw [hlength]
    exact lt_of_getFork (by rw [hfork]; rfl)
  have hget := getFork_setFork hlt merged
  refine ⟨⟨?_, hmem, ?_, fun k hk => ?_⟩, ?_⟩
  · rw [hinner]
    exact hsnap
  · rw [hinner, length_setFork, hlength]
  · rw [hinner, hget]
    split
    · rfl
    · rename_i hne
      exact hothers k hne hk
  · rw [hinner, hget, if_pos rfl]
    rfl

theorem sameSnapshots_handOver
    (h : b.handOver host ord idx caller active = some (b', journaledState)) :
    SameSnapshots b b' ∧ (b'.inner.getFork idx).isSome := by
  cases hactive : b.activeForkIds with
  | none =>
    obtain ⟨fork, hfork, -, -, hmem, hinner⟩ := handOver_of_none hactive h
    refine sameSnapshots_refill hfork hmem ?_ ?_ ?_ hinner
    · rfl
    · simp
    · intro k hk hsome
      rwa [getFork_gap, if_neg hk]
  | some ids =>
    obtain ⟨fork, activeFork, hfork, -, -, -, -, hmem, hinner⟩ := handOver_of_active hactive h
    refine sameSnapshots_refill hfork hmem ?_ ?_ ?_ hinner
    · rfl
    · simp
    · intro k hk hsome
      refine isSome_getFork_setFork ?_
      rwa [getFork_gap, if_neg hk]

variable {responses : SelectResponses}

/-- How selecting a fork ends: nothing is done, it fails halfway, or the fork is handed over to. -/
theorem selectFork_inv {env' : Env}
    (h : b.selectFork host ord id env active responses = some (res, b', env', journaledState)) :
    (b' = b ∧ journaledState = active ∧ (res = .ok () → b.isActiveFork id)) ∨
    (∃ idx err, res = .error err ∧
      b.recordJournal host ord idx env.tx.caller active = some (.error err, b')) ∨
    ∃ idx forkEnv b₁ b₂, ¬b.isActiveFork id ∧ b.findFork id responses = .ok (idx, forkEnv) ∧
      b.recordJournal host ord idx env.tx.caller active = some (.ok (), b₁) ∧
      b₁.handOver host ord idx env.tx.caller active = some (b₂, journaledState) ∧
      b' = { b₂ with activeForkIds := some (id, idx) } := by
  unfold selectFork at h
  by_cases hactive : b.isActiveFork id
  · rw [if_pos hactive] at h
    cases h
    exact Or.inl ⟨rfl, rfl, fun _ => hactive⟩
  · rw [if_neg hactive] at h
    cases hfind : b.findFork id responses with
    | error err =>
      rw [hfind] at h
      cases h
      exact Or.inl ⟨rfl, rfl, nofun⟩
    | ok found =>
      obtain ⟨idx, forkEnv⟩ := found
      rw [hfind] at h
      dsimp only at h
      cases hrecord : b.recordJournal host ord idx env.tx.caller active with
      | none =>
        rw [hrecord] at h
        cases h
      | some recorded =>
        obtain ⟨_ | _, b₁⟩ := recorded
        · rw [hrecord] at h
          cases h
          exact Or.inr (Or.inl ⟨idx, _, rfl, hrecord⟩)
        · rw [hrecord] at h
          obtain ⟨⟨b₂, j₂⟩, hover, heq⟩ := Option.map_eq_some_iff.mp h
          cases heq
          exact Or.inr (Or.inr ⟨idx, forkEnv, b₁, b₂, hactive, rfl, hrecord, hover, rfl⟩)

/-- A fork that was not selected stays as it is, one that was is there. -/
theorem selectFork_cases {env' : Env}
    (h : b.selectFork host ord id env active responses = some (res, b', env', journaledState)) :
    SameSnapshots b b' ∧ (b'.activeForkIds = b.activeForkIds ∨
      ∃ idx, b'.activeForkIds = some (id, idx) ∧ (b'.inner.getFork idx).isSome) := by
  rcases selectFork_inv h with ⟨rfl, -, -⟩ | ⟨idx, err, -, hrecord⟩ |
    ⟨idx, forkEnv, b₁, b₂, -, -, hrecord, hover, rfl⟩
  · exact ⟨.refl b', Or.inl rfl⟩
  · obtain ⟨hsame, hids⟩ := sameSnapshots_recordJournal hrecord
    exact ⟨hsame, Or.inl hids⟩
  · obtain ⟨hsame, -⟩ := sameSnapshots_recordJournal hrecord
    obtain ⟨hsame', hsome⟩ := sameSnapshots_handOver hover
    have htrans := hsame.trans hsame'
    exact ⟨⟨htrans.stateSnapshots, htrans.memDb, htrans.length, htrans.getFork⟩,
      Or.inr ⟨idx, rfl, hsome⟩⟩

/-! ### Well-formed backends -/

/-- The fork in use is there, and so is the place of every fork in a snapshot. -/
structure Wf (b : Backend) : Prop where
  active : ∀ id idx, b.activeForkIds = some (id, idx) → (b.inner.getFork idx).isSome
  snapshots : ∀ k snapshot id forkId idx fork, b.inner.stateSnapshots.get k = some snapshot →
    snapshot.db = .forked id forkId idx fork → idx < b.inner.forks.length

theorem wf_new (persistentAccounts : Finset Address) (fork : Option (ForkId × DatabaseRef)) :
    (new host persistentAccounts fork).Wf := by
  have hnone : ∀ k, (new host persistentAccounts fork).inner.stateSnapshots.get k = none := by
    intro k
    cases fork <;> exact Finmap.lookup_empty k
  refine ⟨fun id idx h => ?_, fun k _ _ _ _ _ h => nomatch (hnone k).symm.trans h⟩
  cases fork with
  | none => cases h
  | some fork =>
    cases h
    rfl

theorem Wf.same (h : b.Wf) (hsame : SameSnapshots b b')
    (hids : b'.activeForkIds = b.activeForkIds ∨
      ∃ id idx, b'.activeForkIds = some (id, idx) ∧ (b'.inner.getFork idx).isSome) : b'.Wf where
  active id idx hid := by
    rcases hids with heq | ⟨id', idx', heq, hsome⟩
    · exact hsame.getFork idx (h.active id idx (heq ▸ hid))
    · cases hid.symm.trans heq
      exact hsome
  snapshots k snapshot id forkId idx fork hk hdb := by
    rw [hsame.stateSnapshots] at hk
    exact Nat.lt_of_lt_of_le (h.snapshots k snapshot id forkId idx fork hk hdb) hsame.length

theorem sameSnapshots_createFork (response : Except ForkError (ForkId × DatabaseRef)) :
    SameSnapshots b (b.createFork host response).2 ∧
      (b.createFork host response).2.activeForkIds = b.activeForkIds := by
  cases response with
  | error err => exact ⟨.refl b, rfl⟩
  | ok answer =>
    refine ⟨⟨rfl, rfl, by simp [createFork, insertNewFork], fun idx hidx => ?_⟩, rfl⟩
    have hlt := lt_of_getFork hidx
    unfold getFork at hidx ⊢
    show ((b.inner.forks ++ _)[idx]?.join).isSome
    rwa [List.getElem?_append_left hlt]

variable {j : JournaledState}

/-- The snapshot that is taken, and nothing else changes. -/
theorem snapshotState_eq_some (h : b.snapshotState j env = some (id, b')) :
    ∃ db, b.createDbSnapshot = some db ∧ id = b.inner.stateSnapshots.id ∧
      b' = { b with inner := { b.inner with
        stateSnapshots := (b.inner.stateSnapshots.insert ⟨db, j, env⟩).2 } } := by
  obtain ⟨db, hdb, heq⟩ := Option.map_eq_some_iff.mp h
  cases heq
  exact ⟨db, hdb, rfl, rfl⟩

theorem createDbSnapshot_forked {forkId : ForkId} {fork : Fork}
    (h : b.createDbSnapshot = some (.forked id forkId idx fork)) :
    b.activeForkIds = some (id, idx) ∧ b.inner.getFork idx = some fork := by
  unfold createDbSnapshot at h
  cases hactive : b.activeForkIds with
  | none =>
    rw [hactive] at h
    cases h
  | some ids =>
    obtain ⟨id', idx'⟩ := ids
    rw [hactive] at h
    simp only [Option.bind_eq_bind, Option.bind_eq_some_iff] at h
    obtain ⟨fork', hfork, forkId', -, heq⟩ := h
    cases heq
    exact ⟨rfl, hfork⟩

theorem Wf.snapshotState (h : b.Wf) (hsnap : b.snapshotState j env = some (id, b')) : b'.Wf := by
  obtain ⟨db, hdb, -, rfl⟩ := snapshotState_eq_some hsnap
  refine ⟨h.active, fun k snapshot id forkId idx fork hk hforked => ?_⟩
  rw [StateSnapshots.get_insert] at hk
  split at hk
  · cases hk
    subst hforked
    obtain ⟨-, hfork⟩ := createDbSnapshot_forked hdb
    have hsome : (b.inner.getFork idx).isSome := by rw [hfork]; rfl
    exact lt_of_getFork hsome
  · exact h.snapshots k snapshot id forkId idx fork hk hforked

/-- The backend that a revert to a snapshot starts to restore. -/
def reverting (b : Backend) (id : U256) (current : JournaledState)
    (action : RevertStateSnapshotAction) (snapshot : BackendStateSnapshot) : Backend :=
  { b with
    inner := { b.inner with
      stateSnapshots := match action with
        | .revertKeep => (b.inner.stateSnapshots.removeAt id).2.insertAt snapshot id
        | .revertRemove => (b.inner.stateSnapshots.removeAt id).2
      hasStateSnapshotFailure := b.inner.hasStateSnapshotFailure || failed current } }

theorem revertState_of_none (h : b.inner.stateSnapshots.get id = none) :
    b.revertState host id current env action = (none, b, env) := by
  unfold revertState
  rw [show b.inner.stateSnapshots.removeAt id = (none, _) from Prod.ext h rfl]

section

variable (h : b.inner.stateSnapshots.get id = some snapshot)
include h

theorem revertState_of_some :
    b.revertState host id current env action =
      (some ((b.reverting id current action snapshot).restore host current env
          (snapshot.merge current)).1,
        ((b.reverting id current action snapshot).restore host current env
          (snapshot.merge current)).2,
        updateCurrentEnvWithForkEnv env snapshot.env) := by
  unfold revertState
  rw [show b.inner.stateSnapshots.removeAt id = (some snapshot, _) from Prod.ext h rfl]
  cases action <;> rfl

theorem get_reverting {k : U256} :
    (b.reverting id current action snapshot).inner.stateSnapshots.get k =
      if k = id ∧ action = .revertRemove then none else b.inner.stateSnapshots.get k := by
  cases action with
  | revertRemove =>
    show (b.inner.stateSnapshots.removeAt id).2.get k = _
    rw [StateSnapshots.get_removeAt]
    simp
  | revertKeep =>
    show ((b.inner.stateSnapshots.removeAt id).2.insertAt snapshot id).get k = _
    rw [StateSnapshots.get_insertAt, StateSnapshots.get_removeAt]
    by_cases hk : k = id
    · simp [hk, h]
    · simp [hk]

end

/-- Putting a snapshot back leaves the others and moves no fork. -/
theorem stateSnapshots_restore :
    (b.restore host current env snapshot).2.inner.stateSnapshots = b.inner.stateSnapshots ∧
      (b.restore host current env snapshot).2.inner.forks.length = b.inner.forks.length := by
  unfold restore
  cases snapshot.db with
  | inMemory memDb => exact ⟨rfl, rfl⟩
  | forked id forkId idx fork => exact ⟨rfl, length_setFork⟩

/-- What a revert leaves of the snapshots. -/
theorem stateSnapshots_revertState (id : U256) (k : U256) :
    (b.revertState host id current env action).2.1.inner.stateSnapshots.get k =
      if k = id ∧ action = .revertRemove then none else b.inner.stateSnapshots.get k := by
  cases hsnap : b.inner.stateSnapshots.get id with
  | none =>
    rw [revertState_of_none hsnap]
    split
    · rename_i hk
      rw [hk.1]
      exact hsnap
    · rfl
  | some snapshot =>
    rw [revertState_of_some hsnap, stateSnapshots_restore.1, get_reverting hsnap]

theorem id_revertState (id : U256) :
    (b.revertState host id current env action).2.1.inner.stateSnapshots.id =
      b.inner.stateSnapshots.id := by
  cases hsnap : b.inner.stateSnapshots.get id with
  | none => rw [revertState_of_none hsnap]
  | some snapshot =>
    rw [revertState_of_some hsnap, stateSnapshots_restore.1]
    cases action <;> rfl

theorem Wf.restore (h : b.Wf)
    (hidx : ∀ id forkId idx fork, snapshot.db = .forked id forkId idx fork →
      idx < b.inner.forks.length) : (b.restore host current env snapshot).2.Wf := by
  obtain ⟨hsnap, hlength⟩ := stateSnapshots_restore
  refine ⟨?_, fun k s id forkId idx fork hk hdb => ?_⟩
  · unfold Backend.restore
    cases hdb : snapshot.db with
    | inMemory memDb => exact h.active
    | forked id forkId idx fork =>
      intro id' idx' heq
      cases heq
      have hlt := hidx id forkId idx fork hdb
      show ((setFork { b.inner with
        issuedLocalForkIds := _, createdForks := _ } idx _).getFork idx).isSome
      rw [getFork_setFork (by exact hlt), if_pos rfl]
      rfl
  · rw [hlength]
    exact h.snapshots k s id forkId idx fork (hsnap ▸ hk) hdb

theorem Wf.revertState (h : b.Wf) (id : U256) (current : JournaledState) (env : Env)
    (action : RevertStateSnapshotAction) : (b.revertState host id current env action).2.1.Wf := by
  cases hsnap : b.inner.stateSnapshots.get id with
  | none =>
    rw [revertState_of_none hsnap]
    exact h
  | some snapshot =>
    have hreverting : (b.reverting id current action snapshot).Wf := by
      refine ⟨h.active, fun k s id' forkId idx fork hk hdb => ?_⟩
      rw [get_reverting hsnap, Option.ite_none_left_eq_some] at hk
      exact h.snapshots k s id' forkId idx fork hk.2 hdb
    rw [revertState_of_some hsnap]
    exact hreverting.restore fun id' forkId idx fork hdb =>
      h.snapshots id snapshot id' forkId idx fork hsnap hdb

theorem Wf.step (h : b.Wf) (hstep : Step host b op b') : b'.Wf := by
  cases op with
  | createFork response =>
    cases hstep
    obtain ⟨hsame, hids⟩ := sameSnapshots_createFork response
    exact h.same hsame (Or.inl hids)
  | selectFork ord id env active responses =>
    obtain ⟨⟨res, b₁, env', j⟩, hselect, rfl⟩ := Option.map_eq_some_iff.mp hstep
    obtain ⟨hsame, hids | ⟨idx, hids⟩⟩ := selectFork_cases hselect
    · exact h.same hsame (Or.inl hids)
    · exact h.same hsame (Or.inr ⟨id, idx, hids⟩)
  | snapshotState j env =>
    obtain ⟨⟨id, b₁⟩, hsnap, rfl⟩ := Option.map_eq_some_iff.mp hstep
    exact h.snapshotState hsnap
  | revertState id current env action =>
    cases hstep
    exact h.revertState id current env action
  | deleteStateSnapshot id =>
    cases hstep
    refine ⟨h.active, fun k s id' forkId idx fork hk hdb => ?_⟩
    replace hk : (b.inner.stateSnapshots.removeAt id).2.get k = some s := hk
    rw [StateSnapshots.get_removeAt, Option.ite_none_left_eq_some] at hk
    exact h.snapshots k s id' forkId idx fork hk.2 hdb

/-- Every backend that is reached is well formed. -/
theorem wf_of_run {persistentAccounts : Finset Address} {fork : Option (ForkId × DatabaseRef)}
    {ops : List BackendOp} (h : Run (Step host) (new host persistentAccounts fork) ops b) : b.Wf :=
  h.keeps (wf_new persistentAccounts fork) Wf.step

/-! ### The snapshots along a run -/

end Backend

/-- The snapshot that an operation takes, with its id. -/
def BackendOp.taking (b : Backend) : BackendOp → Option (U256 × BackendStateSnapshot)
  | .snapshotState journaledState env =>
    b.createDbSnapshot.map fun db => (b.inner.stateSnapshots.id, ⟨db, journaledState, env⟩)
  | _ => none

/-- The snapshot that an operation removes, if it is there. -/
def BackendOp.removed : BackendOp → Option U256
  | .revertState id _ _ .revertRemove => some id
  | .deleteStateSnapshot id => some id
  | _ => none

namespace Backend

/-- An operation takes a snapshot under the next id, or it issues none and removes one at most. -/
theorem Step.snapshots (h : Step host b op b') :
    (∃ snapshot, op.taking b = some (b.inner.stateSnapshots.id, snapshot) ∧
      b'.inner.stateSnapshots = (b.inner.stateSnapshots.insert snapshot).2) ∨
    (op.taking b = none ∧ b'.inner.stateSnapshots.id = b.inner.stateSnapshots.id ∧
      ∀ k, b'.inner.stateSnapshots.get k =
        if op.removed = some k then none else b.inner.stateSnapshots.get k) := by
  cases op with
  | createFork response =>
    cases h
    obtain ⟨hsame, -⟩ := sameSnapshots_createFork response
    exact Or.inr ⟨rfl, by rw [hsame.stateSnapshots], fun k => by rw [hsame.stateSnapshots]; rfl⟩
  | selectFork ord id env active responses =>
    obtain ⟨⟨res, b₁, env', j⟩, hselect, rfl⟩ := Option.map_eq_some_iff.mp h
    obtain ⟨hsame, -⟩ := selectFork_cases hselect
    exact Or.inr ⟨rfl, by rw [hsame.stateSnapshots], fun k => by rw [hsame.stateSnapshots]; rfl⟩
  | snapshotState j env =>
    obtain ⟨⟨id, b₁⟩, hsnap, rfl⟩ := Option.map_eq_some_iff.mp h
    obtain ⟨db, hdb, -, rfl⟩ := snapshotState_eq_some hsnap
    exact Or.inl ⟨⟨db, j, env⟩, by simp [BackendOp.taking, hdb], rfl⟩
  | revertState id current env action =>
    cases h
    refine Or.inr ⟨rfl, id_revertState id, fun k => ?_⟩
    rw [stateSnapshots_revertState]
    cases action <;> simp [BackendOp.removed, eq_comm]
  | deleteStateSnapshot id =>
    cases h
    refine Or.inr ⟨rfl, rfl, fun k => ?_⟩
    show (b.inner.stateSnapshots.removeAt id).2.get k = _
    rw [StateSnapshots.get_removeAt]
    simp [BackendOp.removed, eq_comm]

end Backend

/-! ### Samples -/

/-- A `CacheDB` that keeps code nowhere but with the accounts. -/
def sampleOps : CacheDbOps where
  keccak256 _ := 0
  new db := ⟨.empty, db⟩
  asRef d := d.cache.readThrough d.db
  loadAccount d address := (.ok ((d.cache.accounts.lookup address).getD ⟨.default 0, .none, ∅⟩), d)
  basic d address := (.ok ((d.cache.accounts.lookup address).bind (·.existing)), d)
  insertAccountInfo d address info :=
    { d with cache := { d.cache with
      accounts := d.cache.accounts.insert address ⟨info, .none, ∅⟩ } }
  loadAccount_of_some h := by simp [h]
  loadAccount_of_ne _ := rfl
  basic_of_ne _ := rfl
  insertAccountInfo_of_ne hne := Finmap.lookup_insert_of_ne _ hne
  basicRef_of_some h := by simp [CacheDb.readThrough, h]
  storageRef_of_slot h hslot := by simp [CacheDb.readThrough, h, hslot]
  basicRef_insertAccountInfo hne := by simp [CacheDb.readThrough, Finmap.lookup_insert_of_ne _ hne]
  storageRef_insertAccountInfo {_ address _} a slot h := by
    by_cases hne : a = address
    · simp [CacheDb.readThrough, hne, h]
    · simp [CacheDb.readThrough, Finmap.lookup_insert_of_ne _ hne]
  codeByHashRef_insertAccountInfo _ := rfl

def sampleHost : Host := { sampleOps with emptyBlockHash _ := 0, isExistingPrecompile _ := false }

def sampleDb : DatabaseRef := .emptyDbWrapper 0 fun _ => 0

def sampleEnv : Env where
  evmEnv := ⟨⟨1, 0, 1, 30000000, 0, 0, none, none⟩, ⟨1, .prague, false, false, none⟩⟩
  tx := ⟨0xCA, none⟩

end BaseAnvil.Forks

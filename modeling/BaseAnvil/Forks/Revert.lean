import BaseAnvil.Forks.Runs

/-!
# BaseAnvil.Forks.Revert

What a revert to a snapshot restores.

A read goes to the journaled state first and to the active database below it. A snapshot
of a fork brings back the fork as it was, makes it the active one again and sees to it
that the caller has an account. A snapshot of the in-memory database brings back that
database and leaves the active fork alone: if a fork was selected in between, reads still
go to the fork.
-/

namespace BaseAnvil.Forks

open Lib Chain Finmap
open Pool (B256 Address)

namespace Backend

/-! ### Reading -/

section Reads

variable (host : Host) (b : Backend) (j : JournaledState)

/-- The account that the EVM sees; `none` where the source panics. -/
def readBasic (address : Address) : Option (Except DatabaseError (Option AccountInfo)) :=
  match j.state.lookup address with
  | some acc => some (.ok (some acc.info))
  | none => b.db.map fun d => (host.asRef d).basicRef address

/-- The slot that the EVM sees. A created account has no slots below the journaled state. -/
def readStorage (address : Address) (slot : U256) : Option (Except DatabaseError U256) :=
  match j.state.lookup address with
  | some acc => match acc.storage.lookup slot with
      | some value => some (.ok value.presentValue)
      | none => if acc.created then some (.ok 0)
        else b.db.map fun d => (host.asRef d).storageRef address slot
  | none => b.db.map fun d => (host.asRef d).storageRef address slot

def readCode (codeHash : B256) : Option (Except DatabaseError Bytecode) :=
  b.db.map fun d => (host.asRef d).codeByHashRef codeHash

/-- The revert to a snapshot taken here inserts the caller. -/
def InsertsCaller (caller : Address) : Prop := b.activeForkIds ≠ none ∧ j.state.lookup caller = none

end Reads

/-- A hash under which the code of an account that is inserted may be stored: the one that comes
with the account, or that of its code. -/
def IsCodeHash (host : Host) (current : JournaledState) (address : Address) (codeHash : B256) :
    Prop :=
  ∃ acc code, current.state.lookup address = some acc ∧ acc.info.code = some code ∧
    (codeHash = acc.info.codeHash ∨ codeHash = host.keccak256 code)

/-- The fork that is active in `b'` is that of `b`, and all reads are as they were, but for
the caller and its code where the revert inserts it, as it is in `current`. -/
structure Restored (host : Host) (caller : Address) (current : JournaledState) (b : Backend)
    (j : JournaledState) (b' : Backend) (j' : JournaledState) : Prop where
  active : b'.activeForkId = b.activeForkId
  basic : ∀ address, ¬(address = caller ∧ b.InsertsCaller j caller) →
    b'.readBasic host j' address = b.readBasic host j address
  storage : ∀ address slot, b'.readStorage host j' address slot =
    b.readStorage host j address slot
  code : ∀ codeHash, ¬(IsCodeHash host current caller codeHash ∧ b.InsertsCaller j caller) →
    b'.readCode host codeHash = b.readCode host codeHash

variable {host : Host} {b b' : Backend} {j j' : JournaledState}
  {caller : Address} {current : JournaledState}

/-- Reads look at the accounts of the journaled state and at the active database only. -/
theorem Restored.of_same (hids : b'.activeForkId = b.activeForkId) (hdb : b'.db = b.db)
    (hstate : j'.state = j.state) : Restored host caller current b j b' j' where
  active := hids
  basic _ _ := by unfold readBasic; rw [hdb, hstate]
  storage _ _ := by unfold readStorage; rw [hdb, hstate]
  code _ _ := by unfold readCode; rw [hdb]

/-! ### Inserting the caller -/

section Caller

variable {d : ForkDb} {info : AccountInfo} {address : Address}

theorem orInsertCaller_of_some {acc : Account} (h : j.state.lookup caller = some acc) :
    orInsertCaller host caller current j d = (j, d) := by
  unfold orInsertCaller
  rw [h]

/-- The caller goes to the journaled state without slots, and to the database if it is not in
the cache. -/
theorem orInsertCaller_of_none (h : j.state.lookup caller = none) :
    ∃ info, (info = .default host.keccakEmpty ∨
        ∃ acc, current.state.lookup caller = some acc ∧ acc.info = info) ∧
      (orInsertCaller host caller current j d).1.state = j.state.insert caller (.ofInfo info) ∧
      ((orInsertCaller host caller current j d).2 = d ∨ d.cache.accounts.lookup caller = none ∧
        (orInsertCaller host caller current j d).2 =
          host.insertAccountInfo d caller info) := by
  unfold orInsertCaller
  rw [h]
  refine ⟨_, ?_, rfl, ?_⟩
  · cases current.state.lookup caller with
    | none => exact Or.inl rfl
    | some acc => exact Or.inr ⟨acc, rfl, rfl⟩
  · cases d.cache.accounts.lookup caller with
    | none => exact Or.inr ⟨rfl, rfl⟩
    | some acc => exact Or.inl rfl

/-- The fork of the snapshot is active again, with the caller inserted. -/
theorem Restored.of_orInsertCaller {j₁ : JournaledState} (hids : b'.activeForkId = b.activeForkId)
    (hsome : b.activeForkIds ≠ none) (hb : b.db = some d) (hstate : j₁.state = j.state)
    (hb' : b'.db = some (orInsertCaller host caller current j₁ d).2) :
    Restored host caller current b j b' (orInsertCaller host caller current j₁ d).1 := by
  cases hcaller : j.state.lookup caller with
  | some acc =>
    rw [orInsertCaller_of_some (hstate ▸ hcaller)] at hb' ⊢
    exact .of_same hids (hb'.trans hb.symm) hstate
  | none =>
    have hinserts : b.InsertsCaller j caller := ⟨hsome, hcaller⟩
    obtain ⟨info, hinfo, hstate', hdb'⟩ :=
      @orInsertCaller_of_none host j₁ caller current d (hstate ▸ hcaller)
    rw [hstate] at hstate'
    refine ⟨hids, fun address hne => ?_, fun address slot => ?_, fun codeHash hne => ?_⟩
    · have hne : address ≠ caller := fun heq => hne ⟨heq, hinserts⟩
      unfold readBasic
      rw [hstate', hb', hb, lookup_insert_of_ne _ hne]
      cases j.state.lookup address with
      | some acc => rfl
      | none =>
        rcases hdb' with hsame | ⟨-, hinserted⟩
        · rw [hsame]
        · rw [hinserted]
          exact congrArg some (host.basicRef_insertAccountInfo hne)
    · have hread :
          (host.asRef (orInsertCaller host caller current j₁ d).2).storageRef address slot =
          (host.asRef d).storageRef address slot := by
        rcases hdb' with hsame | ⟨hcache, hinserted⟩
        · rw [hsame]
        · rw [hinserted]
          exact host.storageRef_insertAccountInfo address slot hcache
      unfold readStorage
      rw [hstate', hb', hb]
      simp only [Option.map_some, hread]
      by_cases hne : address = caller
      · -- the caller has no slots in the journaled state, so the database is asked all the same
        subst hne
        rw [lookup_insert, hcaller]
        simp [Account.ofInfo]
      · rw [lookup_insert_of_ne _ hne]
    · have hne : ¬IsCodeHash host current caller codeHash := fun hcode => hne ⟨hcode, hinserts⟩
      unfold readCode
      rw [hb', hb]
      rcases hdb' with hsame | ⟨-, hinserted⟩
      · rw [hsame]
      · rw [hinserted]
        refine congrArg some (host.codeByHashRef_insertAccountInfo
          fun code hcode hempty => ?_)
        rcases hinfo with rfl | ⟨acc, hacc, rfl⟩
        · cases hcode
          exact absurd rfl hempty
        · exact ⟨fun heq => hne ⟨acc, code, hacc, hcode, Or.inl heq⟩,
            fun heq => hne ⟨acc, code, hacc, hcode, Or.inr heq⟩⟩

end Caller

/-! ### Along a run -/

/-- Some id other than `id` is issued, if the operation takes a snapshot. -/
def Spares (id : U256) (b : Backend) (op : BackendOp) : Prop :=
  ∀ k snapshot, op.taking b = some (k, snapshot) → k ≠ id

variable {snapshot : BackendStateSnapshot} {ops : List BackendOp}

/-- As long as its id is not issued again, a snapshot stays as it is until it goes. -/
theorem get_of_spares {id : U256} (hget : b.inner.stateSnapshots.get id = some snapshot)
    (h : Run (Guarded (Spares id) (Step host)) b ops b') :
    b'.inner.stateSnapshots.get id = some snapshot ∨ b'.inner.stateSnapshots.get id = none := by
  refine h.keeps (I := fun b => b.inner.stateSnapshots.get id = some snapshot ∨
    b.inner.stateSnapshots.get id = none) (Or.inl hget) ?_
  intro b op b' ih hguarded
  obtain ⟨hspares, hstep⟩ := hguarded
  rcases hstep.snapshots with ⟨taken, htaking, hsnap⟩ | ⟨-, -, hget⟩
  · rw [hsnap, StateSnapshots.get_insert, if_neg (hspares _ _ htaking).symm]
    exact ih
  · rw [hget]
    split
    · exact Or.inr rfl
    · exact ih

/-- Before the counter saturates no id is issued again. -/
theorem spares_of_lt {id : U256} (hlt : id < b.inner.stateSnapshots.id)
    (h : Run (Step host) b ops b') : Run (Guarded (Spares id) (Step host)) b ops b' := by
  refine (h.invariant (I := fun ops b' => Run (Guarded (Spares id) (Step host)) b ops b' ∧
    id < b'.inner.stateSnapshots.id) ⟨.nil, hlt⟩ ?_).1
  intro _ b op b' ih hstep
  obtain ⟨hrun, hlt⟩ := ih
  rcases hstep.snapshots with ⟨taken, htaking, hsnap⟩ | ⟨htaking, hid, -⟩
  · refine ⟨.snoc hrun ⟨fun k snapshot hk => ?_, hstep⟩, ?_⟩
    · cases htaking.symm.trans hk
      exact (BitVec.ne_of_lt hlt).symm
    · rw [hsnap]
      exact BitVec.lt_def.mpr (Nat.lt_of_lt_of_le (BitVec.lt_def.mp hlt)
        (BitVec.le_def.mp (Word.le_saturatingAdd_one _)))
  · refine ⟨.snoc hrun ⟨fun k snapshot hk => ?_, hstep⟩, hid ▸ hlt⟩
    cases htaking.symm.trans hk

theorem lt_id_of_snapshotState {env : Env} {id : U256} (h : b.snapshotState j env = some (id, b'))
    (hne : id ≠ BitVec.allOnes 256) : id < b'.inner.stateSnapshots.id := by
  obtain ⟨db, -, rfl, rfl⟩ := snapshotState_eq_some h
  show b.inner.stateSnapshots.id < Word.saturatingAdd b.inner.stateSnapshots.id 1
  rw [BitVec.lt_def, Word.toNat_saturatingAdd_one hne]
  omega

variable {idx : ForkLookupIndex} {id : LocalForkId} {forkId : ForkId} {fork : Fork}

/-- The database that a snapshot was taken of is the active one. -/
theorem db_of_createDbSnapshot (h : b.createDbSnapshot = some (.forked id forkId idx fork)) :
    b.db = some fork.db := by
  obtain ⟨hactive, hfork⟩ := createDbSnapshot_forked h
  unfold db
  rw [hactive]
  show (b.inner.getFork idx).map _ = _
  rw [hfork]
  rfl

theorem createDbSnapshot_inMemory {memDb : ForkDb}
    (h : b.createDbSnapshot = some (.inMemory memDb)) :
    b.activeForkIds = none ∧ b.memDb = memDb := by
  unfold createDbSnapshot at h
  cases hactive : b.activeForkIds with
  | some ids =>
    rw [hactive] at h
    simp only [Option.bind_eq_bind, Option.bind_eq_some_iff] at h
    obtain ⟨_, -, _, -, heq⟩ := h
    cases heq
  | none =>
    rw [hactive] at h
    cases h
    exact ⟨rfl, rfl⟩

/-- Putting back a snapshot of a fork brings back all of it. -/
theorem restored_forked {t : Backend} {env : Env}
    (htaken : b.createDbSnapshot = some (.forked id forkId idx fork))
    (hdb : snapshot.db = .forked id forkId idx fork)
    (hstate : snapshot.journaledState.state = j.state) (hidx : idx < t.inner.forks.length) :
    Restored host env.tx.caller current b j (t.restore host current env snapshot).2
      (t.restore host current env snapshot).1 := by
  obtain ⟨hactive, -⟩ := createDbSnapshot_forked htaken
  unfold restore
  rw [hdb]
  refine .of_orInsertCaller ?_ ?_ (db_of_createDbSnapshot htaken) hstate ?_
  · simp [activeForkId, hactive]
  · simp [hactive]
  · show ((BackendInner.setFork { t.inner with
      createdForks := _, issuedLocalForkIds := _ } idx _).getFork idx).map _ = _
    rw [BackendInner.getFork_setFork (by exact hidx), if_pos rfl]
    rfl

/-- **Snapshots across forks.** A revert to a snapshot restores what the snapshot was taken of,
unless that was the in-memory database and a fork is active by now. -/
theorem restored_iff {persistentAccounts : Finset Address} {fork : Option (ForkId × DatabaseRef)}
    {before later : List BackendOp} {s s' t : Backend} {env current' : Env} {id : U256}
    {action : RevertStateSnapshotAction}
    (hs : Run (Step host) (new host persistentAccounts fork) before s)
    (hsnap : s.snapshotState j env = some (id, s'))
    (hlater : Run (Guarded (Spares id) (Step host)) s' later t)
    (hrevert : (t.revertState host id current current' action).1 = some j') :
    Restored host current'.tx.caller current s j
        (t.revertState host id current current' action).2.1 j' ↔
      (s.activeForkIds = none → t.activeForkIds = none) := by
  obtain ⟨db, hdb, hid, hs'⟩ := snapshotState_eq_some hsnap
  have hget : s'.inner.stateSnapshots.get id = some ⟨db, j, env⟩ := by
    rw [hs', hid]
    exact (StateSnapshots.get_insert _ _).trans (if_pos rfl)
  have hwf : t.Wf := by
    have hwf' : s'.Wf := (wf_of_run hs).snapshotState hsnap
    exact hlater.keeps hwf' fun hwf hstep => hwf.step hstep.2
  rcases get_of_spares hget hlater with hkept | hgone
  · rw [revertState_of_some hkept] at hrevert ⊢
    cases hrevert
    cases hdb' : db with
    | inMemory memDb =>
      subst hdb'
      obtain ⟨hnone, hmem⟩ := createDbSnapshot_inMemory hdb
      constructor
      · intro h _
        have hactive : t.activeForkId = s.activeForkId := h.active
        rw [activeForkId, activeForkId, hnone] at hactive
        simpa using hactive
      · intro h
        have ht := h hnone
        refine .of_same ?_ ?_ rfl
        · show t.activeForkId = s.activeForkId
          rw [activeForkId, activeForkId, hnone, ht]
        · simp [Backend.db, restore, reverting, BackendStateSnapshot.merge, ht, hnone, hmem]
    | forked forkLocalId forkId idx fork =>
      subst hdb'
      have hactive := (createDbSnapshot_forked hdb).1
      refine iff_of_true ?_ fun hnone => nomatch hactive.symm.trans hnone
      exact restored_forked hdb rfl rfl (hwf.snapshots id _ _ _ idx _ hkept rfl)
  · rw [revertState_of_none hgone] at hrevert
    cases hrevert

/-! ### A fork is selected in between -/

/-- A fork is created and selected. -/
def sampleSwitch (id : LocalForkId) : List BackendOp :=
  [.createFork (.ok (⟨"b"⟩, sampleDb)),
    .selectFork ascendingDbOrder id sampleEnv .empty ⟨.ok (), .ok (some sampleEnv)⟩]

/-- A snapshot is taken, a fork is selected, and the snapshot is reverted to. -/
theorem exists_sampleSwitch {switched : LocalForkId} {active : Option LocalForkId}
    (h : (b.snapshotState .empty sampleEnv).bind (fun taken =>
      ((sampleSwitch id).foldlM (exec sampleHost) taken.2).map fun t =>
        let reverted := t.revertState sampleHost 0 .empty sampleEnv .revertRemove
        (taken.1, t.activeForkId, reverted.1.isSome, reverted.2.1.activeForkId)) =
      some (0, some switched, true, active)) :
    ∃ s' t j', b.snapshotState .empty sampleEnv = some (0, s') ∧
      Run (Guarded (Spares 0) (Step sampleHost)) s' (sampleSwitch id) t ∧
      t.activeForkId = some switched ∧
      (t.revertState sampleHost 0 .empty sampleEnv .revertRemove).1 = some j' ∧
      (t.revertState sampleHost 0 .empty sampleEnv .revertRemove).2.1.activeForkId = active := by
  obtain ⟨⟨k, s'⟩, hsnap, h⟩ := Option.bind_eq_some_iff.mp h
  obtain ⟨t, ht, heq⟩ := Option.map_eq_some_iff.mp h
  simp only [Prod.mk.injEq] at heq
  obtain ⟨rfl, hactive, hsome, hafter⟩ := heq
  obtain ⟨j', hj'⟩ := Option.isSome_iff_exists.mp hsome
  have hlt := lt_id_of_snapshotState hsnap (by decide +kernel)
  exact ⟨s', t, j', hsnap, spares_of_lt hlt (.of_foldlM ht), hactive, hj', hafter⟩

/-- With a fork active from the start, all is restored. -/
theorem restored_iff_forked : ∃ s' t j',
    (new sampleHost ∅ (some (⟨"a"⟩, sampleDb))).snapshotState .empty sampleEnv = some (0, s') ∧
    Run (Guarded (Spares 0) (Step sampleHost)) s' (sampleSwitch 1) t ∧
    t.activeForkId = some 1 ∧
    Restored sampleHost 0xCA .empty (new sampleHost ∅ (some (⟨"a"⟩, sampleDb))) .empty
      (t.revertState sampleHost 0 .empty sampleEnv .revertRemove).2.1 j' := by
  obtain ⟨s', t, j', hsnap, hrun, hactive, hj', -⟩ :=
    @exists_sampleSwitch (new sampleHost ∅ (some (⟨"a"⟩, sampleDb))) 1 1 (some 0)
      (by decide +kernel)
  exact ⟨s', t, j', hsnap, hrun, hactive, (restored_iff .nil hsnap hrun hj').mpr nofun⟩

/-- With no fork active when the snapshot is taken, the fork that is selected afterwards stays
active. -/
theorem inMemory_not_restored : ∃ s' t j',
    (new sampleHost ∅ none).snapshotState .empty sampleEnv = some (0, s') ∧
    Run (Guarded (Spares 0) (Step sampleHost)) s' (sampleSwitch 0) t ∧
    (t.revertState sampleHost 0 .empty sampleEnv .revertRemove).1 = some j' ∧
    (t.revertState sampleHost 0 .empty sampleEnv .revertRemove).2.1.activeForkId = some 0 ∧
    ¬Restored sampleHost 0xCA .empty (new sampleHost ∅ none) .empty
      (t.revertState sampleHost 0 .empty sampleEnv .revertRemove).2.1 j' := by
  obtain ⟨s', t, j', hsnap, hrun, -, hj', hafter⟩ :=
    @exists_sampleSwitch (new sampleHost ∅ none) 0 0 (some 0) (by decide +kernel)
  refine ⟨s', t, j', hsnap, hrun, hj', hafter, fun h => ?_⟩
  have hactive := h.active
  rw [hafter] at hactive
  cases hactive

end Backend

end BaseAnvil.Forks

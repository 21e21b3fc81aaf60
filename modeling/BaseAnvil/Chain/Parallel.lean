import BaseAnvil.Chain.Fork
import BaseAnvil.Lib.Run

/-!
# BaseAnvil.Chain.Parallel

The in-memory and the forked database side by side, under the same requests.

What a request tells about snapshots depends on their ids only. `SnapshotIds` is the
table of ids, and both databases are shown to refine it (`MemDb.refines`,
`ForkedDatabase.refines`); they differ in one thing, whether reverting to an id
sweeps away the ids from the next one on. So they agree as long as there is nothing
to sweep, and only then (`agree_along_iff`).
-/

namespace BaseAnvil.Chain

open Lib StateSnapshots
open Pool (B256 Address)

variable {Changes : Type}

/-! ### The table of ids -/

/-- The ids of the snapshots there are, and the next one to be handed out. -/
structure SnapshotIds where
  next : U256
  live : Finset U256
  deriving DecidableEq

variable {sweeps : Bool} {id : U256}

namespace SnapshotIds

/-- The ids `remove` walks after it has taken out `id`. -/
def Swept (s : SnapshotIds) (id k : U256) : Prop := id + 1 ≤ k ∧ k < s.next

instance (s : SnapshotIds) (id k : U256) : Decidable (s.Swept id k) :=
  inferInstanceAs (Decidable (_ ∧ _))

def take (s : SnapshotIds) : SnapshotIds := ⟨Word.saturatingAdd s.next 1, insert s.next s.live⟩

/-- The table after a revert, by a database that sweeps or by one that does not. -/
def revert (sweeps : Bool) (s : SnapshotIds) (id : U256) (action : RevertStateSnapshotAction) :
    SnapshotIds :=
  { s with live := s.live.filter fun k =>
      if k = id then action = .revertKeep else ¬(sweeps ∧ s.Swept id k) }

def exec (sweeps : Bool) (s : SnapshotIds) : DbOp Changes → DbOutput × SnapshotIds
  | .write _ => (.written, s)
  | .snapshotState => (.snapshot s.next, s.take)
  | .revertState id action => (.reverted (id ∈ s.live), s.revert sweeps id action)

/-- The ids of a table of snapshots. -/
def ofTable {T : Type} (s : StateSnapshots T) : SnapshotIds := ⟨s.id, s.stateSnapshots.keys⟩

variable {T : Type} {s : StateSnapshots T}

theorem mem_live_ofTable {k : U256} : k ∈ (ofTable s).live ↔ (s.get k).isSome := by
  show k ∈ s.stateSnapshots.keys ↔ (s.stateSnapshots.lookup k).isSome
  rw [Finmap.mem_keys, Finmap.lookup_isSome]

theorem decide_mem_live {k : U256} : decide (k ∈ (ofTable s).live) = (s.get k).isSome := by
  rw [Bool.eq_iff_iff, decide_eq_true_iff, mem_live_ofTable]

/-- Two tables of ids are the same if they have the same next id and the same ids. -/
theorem ofTable_eq_iff {t : SnapshotIds} :
    ofTable s = t ↔ s.id = t.next ∧ ∀ k, (s.get k).isSome ↔ k ∈ t.live := by
  constructor
  · rintro rfl
    exact ⟨rfl, fun k => mem_live_ofTable.symm⟩
  · rintro ⟨hid, hlive⟩
    obtain ⟨next, live⟩ := t
    obtain rfl : s.id = next := hid
    have hkeys : s.stateSnapshots.keys = live := by
      ext k
      exact mem_live_ofTable.trans (hlive k)
    rw [ofTable, hkeys]

theorem ofTable_insert (t : T) : ofTable (s.insert t).2 = (ofTable s).take := by
  refine ofTable_eq_iff.mpr ⟨rfl, fun k => ?_⟩
  rw [get_insert]
  show _ ↔ k ∈ insert s.id (ofTable s).live
  rw [Finset.mem_insert, mem_live_ofTable]
  split <;> simp_all

/-- What is left of a table after a snapshot was taken out of it for a revert. -/
def putBack (removed : Option T × StateSnapshots T) (id : U256)
    (action : RevertStateSnapshotAction) : StateSnapshots T :=
  match removed with
  | (some snapshot, rest) => if action = .revertKeep then rest.insertAt snapshot id else rest
  | (none, rest) => rest

/-- A revert changes the ids as `revert` says, if taking out the snapshot does. -/
theorem ofTable_putBack {removed : Option T × StateSnapshots T} (hfst : removed.1 = s.get id)
    (hid : removed.2.id = s.id)
    (hget : ∀ k, removed.2.get k =
      if k = id ∨ (sweeps ∧ (ofTable s).Swept id k) then none else s.get k) :
    ofTable (putBack removed id action) = (ofTable s).revert sweeps id action := by
  have hlive : ∀ k, k ∈ ((ofTable s).revert sweeps id action).live ↔
      (s.get k).isSome ∧
        if k = id then action = .revertKeep else ¬(sweeps ∧ (ofTable s).Swept id k) := by
    intro k
    rw [revert, Finset.mem_filter, mem_live_ofTable]
  obtain ⟨snapshot, rest⟩ := removed
  refine ofTable_eq_iff.mpr ⟨?_, fun k => ?_⟩
  · cases snapshot with
    | none => exact hid
    | some snapshot =>
      show (if action = .revertKeep then rest.insertAt snapshot id else rest).id = s.id
      split <;> exact hid
  · rw [hlive]
    cases snapshot with
    | none =>
      show (rest.get k).isSome ↔ _
      rw [hget]
      by_cases hk : k = id
      · simp [hk, ← hfst]
      · by_cases hs : sweeps ∧ (ofTable s).Swept id k <;> simp [hk, hs]
    | some snapshot =>
      show ((if action = .revertKeep then rest.insertAt snapshot id else rest).get k).isSome ↔ _
      by_cases hk : k = id
      · subst hk
        by_cases ha : action = .revertKeep
        · simp [ha, get_insertAt, ← hfst]
        · simp [ha, hget]
      · by_cases ha : action = .revertKeep <;>
          by_cases hs : sweeps ∧ (ofTable s).Swept id k <;>
          simp [ha, hk, hs, get_insertAt, hget]

end SnapshotIds

/-! ### Both databases keep such a table -/

namespace Db

variable {D S : Type} {T : Db D Changes}

/-- No write changes `part` of the database. -/
structure Keeps (T : Db D Changes) (part : D → S) : Prop where
  basic : ∀ db address, part (T.basic db address).2 = part db
  commit : ∀ db changes, part (T.commit db changes) = part db
  insertAccount : ∀ db address account, part (T.insertAccount db address account) = part db
  setStorageAt : ∀ db address slot val, part (T.setStorageAt db address slot val).2 = part db
  insertBlockHash : ∀ db number hash, part (T.insertBlockHash db number hash) = part db

theorem Keeps.modifyAccount {part : D → S} (h : T.Keeps part) (keccakEmpty : B256) (db : D)
    (address : Address) (f : AccountInfo → AccountInfo) :
    part (T.modifyAccount keccakEmpty db address f).2 = part db := by
  have hbasic := h.basic db address
  unfold Db.modifyAccount
  generalize T.basic db address = res at hbasic ⊢
  rcases res with ⟨err | info, db'⟩
  · exact hbasic
  · exact (h.insertAccount _ _ _).trans hbasic

theorem Keeps.write {part : D → S} (h : T.Keeps part) (keccak256 : List UInt8 → B256) (db : D)
    (w : DbWrite Changes) : part (T.write keccak256 db w) = part db := by
  cases w with
  | commit changes => exact h.commit _ _
  | insertAccount address account => exact h.insertAccount _ _ _
  | setNonce | setBalance | setCode => exact h.modifyAccount _ _ _ _
  | setStorageAt address slot val => exact h.setStorageAt _ _ _ _
  | insertBlockHash number hash => exact h.insertBlockHash _ _ _

/-- The database refines the table of ids that `ids` reads off it. -/
def Refines (T : Db D Changes) (ids : D → SnapshotIds) (sweeps : Bool) : Prop :=
  ∀ keccak256 db op, (T.exec keccak256 db op).1 = ((ids db).exec sweeps op).1 ∧
    ids (T.exec keccak256 db op).2 = ((ids db).exec sweeps op).2

/-- It is enough to look at snapshots and reverts. -/
theorem Refines.of {ids : D → SnapshotIds} (hkeeps : T.Keeps ids)
    (hsnapshot : ∀ db, (T.snapshotState db).1 = (ids db).next ∧
      ids (T.snapshotState db).2 = (ids db).take)
    (hrevert : ∀ db id action, (T.revertState db id action).1 = decide (id ∈ (ids db).live) ∧
      ids (T.revertState db id action).2 = (ids db).revert sweeps id action) :
    T.Refines ids sweeps := by
  intro keccak256 db op
  cases op with
  | write w => exact ⟨rfl, hkeeps.write keccak256 db w⟩
  | snapshotState => exact ⟨congrArg DbOutput.snapshot (hsnapshot db).1, (hsnapshot db).2⟩
  | revertState id action =>
    exact ⟨congrArg DbOutput.reverted (hrevert db id action).1, (hrevert db id action).2⟩

namespace Refines

variable {ids : D → SnapshotIds}

theorem revertState (h : T.Refines ids sweeps) (db : D) (id : U256)
    (action : RevertStateSnapshotAction) :
    (T.revertState db id action).1 = decide (id ∈ (ids db).live) ∧
      ids (T.revertState db id action).2 = (ids db).revert sweeps id action := by
  obtain ⟨hout, hids⟩ := h (fun _ => 0) db (.revertState id action)
  exact ⟨DbOutput.reverted.inj hout, hids⟩

theorem canRevert (h : T.Refines ids sweeps) (db : D) (k : U256) :
    T.canRevert db k = decide (k ∈ (ids db).live) :=
  (h.revertState db k .revertRemove).1

end Refines

end Db

namespace MemDb

def ids (db : MemDb) : SnapshotIds := .ofTable db.stateSnapshots

theorem keeps_ids (api : CacheDbApi) :
    (asDb api commit).Keeps ids :=
  ⟨fun _ _ => rfl, fun _ _ => rfl, fun _ _ _ => rfl, fun _ _ _ _ => rfl, fun _ _ _ => rfl⟩

theorem revertState_eq (db : MemDb) :
    (db.revertState id action).1 = (db.stateSnapshots.get id).isSome ∧
      (db.revertState id action).2.stateSnapshots =
        SnapshotIds.putBack (db.stateSnapshots.remove id) id action := by
  rw [revertState, ← remove_fst]
  rcases db.stateSnapshots.remove id with ⟨_ | snapshot, rest⟩ <;> exact ⟨rfl, rfl⟩

theorem refines (api : CacheDbApi) :
    (asDb api commit).Refines ids true := by
  refine .of (keeps_ids api) (fun db => ⟨rfl, SnapshotIds.ofTable_insert _⟩)
    fun db id action => ?_
  obtain ⟨hfst, htable⟩ := db.revertState_eq
  refine ⟨?_, ?_⟩
  · show (db.revertState id action).1 = _
    rw [hfst, ids, SnapshotIds.decide_mem_live]
  · show SnapshotIds.ofTable (db.revertState id action).2.stateSnapshots = _
    rw [htable]
    refine SnapshotIds.ofTable_putBack rfl (remove_id _) fun k => ?_
    rw [get_remove]
    simp [SnapshotIds.Swept, SnapshotIds.ofTable]

end MemDb

namespace ForkedDatabase

def ids (db : ForkedDatabase) : SnapshotIds := .ofTable db.stateSnapshots

theorem keeps_ids (api : ForkDbApi) :
    (asDb api commit).Keeps ids where
  basic _ _ := rfl
  commit _ _ := rfl
  insertAccount _ _ _ := rfl
  setStorageAt db address slot val := by
    have hbasic : (db.basic api address).2.ids = db.ids := rfl
    show (db.setStorageAt api address slot val).2.ids = _
    rw [setStorageAt]
    generalize db.basic api address = res at hbasic ⊢
    rcases res with ⟨err | info, db'⟩ <;> exact hbasic
  insertBlockHash _ _ _ := rfl

theorem revertStateSnapshot_eq (db : ForkedDatabase) :
    (db.revertStateSnapshot id action).1 = (db.stateSnapshots.get id).isSome ∧
      (db.revertStateSnapshot id action).2.stateSnapshots =
        SnapshotIds.putBack (db.stateSnapshots.removeAt id) id action := by
  rw [revertStateSnapshot, ← removeAt_fst]
  rcases db.stateSnapshots.removeAt id with ⟨_ | snapshot, rest⟩ <;> exact ⟨rfl, rfl⟩

theorem refines (api : ForkDbApi) :
    (asDb api commit).Refines ids false := by
  refine .of (keeps_ids api) (fun db => ⟨rfl, SnapshotIds.ofTable_insert _⟩)
    fun db id action => ?_
  obtain ⟨hfst, htable⟩ := db.revertStateSnapshot_eq
  refine ⟨?_, ?_⟩
  · show (db.revertStateSnapshot id action).1 = _
    rw [hfst, ids, SnapshotIds.decide_mem_live]
  · show SnapshotIds.ofTable (db.revertStateSnapshot id action).2.stateSnapshots = _
    rw [htable]
    refine SnapshotIds.ofTable_putBack rfl (removeAt_id _) fun k => ?_
    rw [get_removeAt]
    simp

end ForkedDatabase

/-! ### In parallel -/

/-- The two databases, with the libraries they call. -/
structure DbPair where
  mem : MemDb
  fork : ForkedDatabase

/-- What the two databases call. -/
structure DbPairApi (Changes : Type) where
  mem : CacheDbApi
  fork : ForkDbApi
  commit : CacheDb → Changes → CacheDb
  keccak256 : List UInt8 → B256

/-- What a revert is to do, for one database: going back to a snapshot makes all
later ones unusable, and asking for one that is not there changes nothing. -/
structure Db.RevertContract {D : Type} (T : Db D Changes) (db : D) (id : U256)
    (action : RevertStateSnapshotAction) : Prop where
  later : T.canRevert db id → ∀ k, id < k → ¬T.canRevert (T.revertState db id action).2 k
  absent : ¬T.canRevert db id → (T.revertState db id action).1 = false ∧
    ∀ k, T.canRevert db k → T.canRevert (T.revertState db id action).2 k

namespace DbPair

variable (api : DbPairApi Changes)

abbrev memDb : Db MemDb Changes := MemDb.asDb api.mem api.commit
abbrev forkDb : Db ForkedDatabase Changes := ForkedDatabase.asDb api.fork api.commit

def new : DbPair := ⟨.new, .new⟩

/-- The same request to both. -/
def exec (p : DbPair) (op : DbOp Changes) : DbPair :=
  ⟨((memDb api).exec api.keccak256 p.mem op).2, ((forkDb api).exec api.keccak256 p.fork op).2⟩

def Step (p : DbPair) (op : DbOp Changes) (p' : DbPair) : Prop := p' = p.exec api op

/-- The request tells the same in both databases and leaves the same snapshots
usable, and a revert does in both what it is to do. -/
structure Agrees (p : DbPair) (op : DbOp Changes) : Prop where
  output : ((memDb api).exec api.keccak256 p.mem op).1 =
    ((forkDb api).exec api.keccak256 p.fork op).1
  usable : ∀ k, (memDb api).canRevert (p.exec api op).mem k =
    (forkDb api).canRevert (p.exec api op).fork k
  contract : ∀ id action, op = .revertState id action →
    (memDb api).RevertContract p.mem id action ∧ (forkDb api).RevertContract p.fork id action

/-- A revert finds no other snapshot to sweep away, or that is later than one
there is. -/
def NothingLater (p : DbPair) : DbOp Changes → Prop
  | .revertState id _ => ∀ k, (p.mem.stateSnapshots.get k).isSome → k ≠ id → id + 1 ≤ k →
      ¬(k < p.mem.stateSnapshots.id ∨ (p.mem.stateSnapshots.get id).isSome)
  | _ => True

end DbPair

/-! ### When they agree -/

namespace SnapshotIds

variable {s : SnapshotIds} {k : U256} {action : RevertStateSnapshotAction}

theorem mem_revert : k ∈ (s.revert sweeps id action).live ↔
    k ∈ s.live ∧ if k = id then action = .revertKeep else ¬(sweeps ∧ s.Swept id k) := by
  rw [revert, Finset.mem_filter]

/-- Ids are handed out in ascending order. -/
def Bounded (s : SnapshotIds) : Prop := ∀ k ∈ s.live, k ≤ s.next

theorem Bounded.exec (h : s.Bounded) (op : DbOp Changes) : (s.exec sweeps op).2.Bounded := by
  cases op with
  | write w => exact h
  | snapshotState =>
    intro k hk
    have hnext : s.next ≤ Word.saturatingAdd s.next 1 := Word.le_saturatingAdd_one _
    rcases Finset.mem_insert.mp hk with rfl | hk
    · exact hnext
    · exact BitVec.le_trans (h k hk) hnext
  | revertState id action =>
    intro k hk
    exact h k (mem_revert.mp hk).1

/-- Nothing is swept away from the table, nor later than an id in it. -/
def NothingLater (s : SnapshotIds) (id : U256) : Prop :=
  ∀ k ∈ s.live, k ≠ id → id + 1 ≤ k → ¬(k < s.next ∨ id ∈ s.live)

theorem NothingLater.mem_revert_iff (h : s.NothingLater id) (hne : k ≠ id) :
    k ∈ (s.revert sweeps id action).live ↔ k ∈ s.live := by
  rw [mem_revert, if_neg hne, and_iff_left_iff_imp]
  rintro hk ⟨-, hswept⟩
  exact h k hk hne hswept.1 (Or.inl hswept.2)

/-- With nothing to sweep, both kinds of database are left with the same ids. -/
theorem NothingLater.revert_eq (h : s.NothingLater id) :
    s.revert true id action = s.revert false id action := by
  have hlive : (s.revert true id action).live = (s.revert false id action).live := by
    ext k
    by_cases hne : k = id
    · rw [mem_revert, mem_revert, if_pos hne, if_pos hne]
    · rw [h.mem_revert_iff hne, h.mem_revert_iff hne]
  exact congrArg (SnapshotIds.mk s.next) hlive

theorem NothingLater.not_mem_of_lt (h : s.NothingLater id) (hid : id ∈ s.live) (hlt : id < k) :
    k ∉ s.live := by
  intro hk
  have hne : k ≠ id := by
    rintro rfl
    exact BitVec.lt_irrefl _ hlt
  refine h k hk hne ?_ (Or.inr hid)
  rw [BitVec.le_def, Word.toNat_add_one_of_lt hlt]
  exact BitVec.lt_def.mp hlt

/-- What keeps the two kinds of database together: no sweep drops an id, and a
database that does not sweep has no id later than the one reverted to. -/
theorem nothingLater_of (hbound : s.Bounded)
    (hsame : (s.revert true id action).live = (s.revert false id action).live)
    (hlater : id ∈ s.live → ∀ k, id < k → k ∉ (s.revert false id action).live) :
    s.NothingLater id := by
  intro k hk hne hle hor
  have hkeeps : k ∈ (s.revert false id action).live := by
    rw [mem_revert, if_neg hne]
    exact ⟨hk, fun h => Bool.false_ne_true h.1⟩
  have hnot : ¬s.Swept id k := by
    rw [← hsame, mem_revert, if_neg hne] at hkeeps
    exact fun h => hkeeps.2 ⟨rfl, h⟩
  have hkn : ¬k < s.next := fun h => hnot ⟨hle, h⟩
  have hid : id ∈ s.live := hor.resolve_left hkn
  -- the last id is swept around the end of the range only while the counter is there too
  have hlt : id < k := by
    have h₁ := BitVec.le_def.mp hle
    have h₂ := BitVec.le_def.mp (hbound id hid)
    have h₃ : s.next.toNat ≤ k.toNat := Nat.le_of_not_lt fun h => hkn (BitVec.lt_def.mpr h)
    have h₄ : k.toNat ≠ id.toNat := fun h => hne (BitVec.eq_of_toNat_eq h)
    exact BitVec.lt_def.mpr (by omega)
  exact hlater hid k hlt hkeeps

end SnapshotIds

namespace DbPair

variable {api : DbPairApi Changes} {p : DbPair}

theorem memRefines : (memDb api).Refines MemDb.ids true :=
  MemDb.refines api.mem

theorem forkRefines : (forkDb api).Refines ForkedDatabase.ids false :=
  ForkedDatabase.refines api.fork

/-- The tables are the same, as the usable snapshots show. -/
structure InStep (p : DbPair) : Prop where
  ids : p.fork.ids = p.mem.ids
  bounded : p.mem.ids.Bounded

theorem nothingLater_iff {action : RevertStateSnapshotAction} :
    NothingLater p (.revertState id action : DbOp Changes) ↔ p.mem.ids.NothingLater id := by
  simp only [NothingLater, SnapshotIds.NothingLater, MemDb.ids, SnapshotIds.mem_live_ofTable]
  rfl

theorem exec_mem_ids : (p.exec api op).mem.ids = (p.mem.ids.exec true op).2 :=
  (memRefines api.keccak256 p.mem op).2

theorem InStep.exec_fork_ids (h : p.InStep) :
    (p.exec api op).fork.ids = (p.mem.ids.exec false op).2 := by
  rw [← h.ids]
  exact (forkRefines api.keccak256 p.fork op).2

/-- The same snapshots are usable exactly if the tables have the same ids. -/
theorem usable_iff :
    (∀ k, (memDb api).canRevert p.mem k = (forkDb api).canRevert p.fork k) ↔
      p.mem.ids.live = p.fork.ids.live := by
  simp only [memRefines.canRevert, forkRefines.canRevert, decide_eq_decide,
    Finset.ext_iff]

theorem contract_of_nothingLater {D : Type} {T : Db D Changes} {ids : D → SnapshotIds}
    (href : T.Refines ids sweeps) {db : D}
    (h : (ids db).NothingLater id) : T.RevertContract db id action := by
  obtain ⟨hfst, hids⟩ := href.revertState db id action
  refine ⟨fun hid k hlt => ?_, fun hid => ?_⟩
  · rw [href.canRevert, decide_eq_true_iff] at hid ⊢
    rw [hids]
    exact fun hk => h.not_mem_of_lt hid hlt (SnapshotIds.mem_revert.mp hk).1
  · rw [href.canRevert, decide_eq_true_iff] at hid
    refine ⟨by rw [hfst, decide_eq_false hid], fun k hk => ?_⟩
    rw [href.canRevert, decide_eq_true_iff] at hk ⊢
    have hne : k ≠ id := by
      rintro rfl
      exact hid hk
    rw [hids]
    exact (h.mem_revert_iff hne).mpr hk

/-- From the same table, the databases agree on a request exactly if it finds
nothing to sweep. -/
theorem InStep.agrees_iff (h : p.InStep) :
    p.Agrees api op ↔ p.NothingLater op := by
  have hout : ((memDb api).exec api.keccak256 p.mem op).1 =
      ((forkDb api).exec api.keccak256 p.fork op).1 := by
    rw [(memRefines api.keccak256 p.mem op).1, (forkRefines api.keccak256 p.fork op).1,
      h.ids]
    cases op <;> rfl
  cases op with
  | write | snapshotState =>
    refine ⟨fun _ => trivial, fun _ => ⟨hout, ?_, fun _ _ heq => by cases heq⟩⟩
    rw [usable_iff, exec_mem_ids, h.exec_fork_ids]
    rfl
  | revertState id action =>
    rw [nothingLater_iff]
    constructor
    · intro hagree
      have hlive := usable_iff.mp hagree.usable
      rw [exec_mem_ids, h.exec_fork_ids] at hlive
      refine SnapshotIds.nothingLater_of h.bounded hlive fun hid k hlt hk => ?_
      have hlater := (hagree.contract id action rfl).2.later
      rw [← h.ids] at hid hk
      simp only [forkRefines.canRevert, decide_eq_true_iff,
        (forkRefines.revertState _ _ _).2] at hlater
      exact hlater hid k hlt hk
    · intro hnone
      refine ⟨hout, ?_, ?_⟩
      · rw [usable_iff, exec_mem_ids, h.exec_fork_ids]
        exact congrArg SnapshotIds.live hnone.revert_eq
      · rintro _ _ ⟨⟩
        refine ⟨contract_of_nothingLater memRefines hnone,
          contract_of_nothingLater forkRefines ?_⟩
        rw [h.ids]
        exact hnone

theorem InStep.exec (h : p.InStep) {op : DbOp Changes} (hagree : p.Agrees api op) :
    (p.exec api op).InStep := by
  have hlive := usable_iff.mp hagree.usable
  have hbounded : (p.mem.ids.exec true op).2.Bounded := h.bounded.exec op
  rw [exec_mem_ids, h.exec_fork_ids] at hlive
  refine ⟨?_, ?_⟩
  · rw [exec_mem_ids, h.exec_fork_ids]
    have hnext : (p.mem.ids.exec false op).2.next = (p.mem.ids.exec true op).2.next := by
      cases op <;> rfl
    generalize (p.mem.ids.exec true op).2 = s, (p.mem.ids.exec false op).2 = t at *
    obtain ⟨next, live⟩ := s
    obtain ⟨next', live'⟩ := t
    simp_all
  · rw [exec_mem_ids]
    exact hbounded

theorem inStep_new : DbPair.new.InStep := ⟨rfl, fun k hk => absurd hk (Finset.notMem_empty k)⟩

/-- **The two databases.** Under any sequence of requests the databases agree at every step exactly
if no revert of the sequence finds a later snapshot. Such a snapshot is dropped by the database in
memory and kept by the one of a fork. -/
theorem agree_along_iff (api : DbPairApi Changes) (ops : List (DbOp Changes)) :
    Run.Along (Step api) new ops (Agrees api) ↔ Run.Along (Step api) new ops NothingLater := by
  refine Run.along_iff inStep_new (fun p op h => h.agrees_iff) ?_
  rintro p op _ h hagree rfl
  exact h.exec hagree

/-- Libraries with nothing to read and that write nothing. -/
def idleApi : DbPairApi Unit where
  mem := ⟨fun db _ => (.ok none, db), fun db _ _ => db, fun db _ _ _ => (.ok (), db)⟩
  fork := ⟨fun db _ => (.ok none, db), fun db _ _ => db, fun db _ _ _ => (.ok (), db)⟩
  commit db _ := db
  keccak256 _ := 0

/-- Reverting to the first of two snapshots keeps the second one usable in the
forked database only; and asking for one that is gone drops a later one in the
in-memory database only. -/
theorem fork_keeps_later_snapshot :
    (let p := [.snapshotState, .snapshotState, .revertState 0 .revertRemove].foldl
      (exec idleApi) new
    (memDb idleApi).canRevert p.mem 1 = false ∧ (forkDb idleApi).canRevert p.fork 1 = true) ∧
    (let p := [.snapshotState, .revertState 0 .revertRemove, .snapshotState,
      .revertState 0 .revertRemove].foldl (exec idleApi) new
    (memDb idleApi).canRevert p.mem 1 = false ∧ (forkDb idleApi).canRevert p.fork 1 = true) := by
  decide +kernel

end DbPair

end BaseAnvil.Chain

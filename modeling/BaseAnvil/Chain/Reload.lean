import BaseAnvil.Chain.Dump
import BaseAnvil.Chain.Spill
import BaseAnvil.Chain.StateCache

/-!
# BaseAnvil.Chain.Reload

A database written as a snapshot and read back.

`SnapshotOf` says what a snapshot has to have of the database: of several accounts with the
same code only one has to carry it. Both ways to write a snapshot give one, and reading one
back gives a database with the same answers.
-/

namespace BaseAnvil.Chain.CacheDb

open Lib ForkDbStateSnapshot HashMap
open Pool (B256 Address)

/-- `db'` answers like `db`, where `read` is how a `CacheDB` is read. -/
structure SameAnswers (read : CacheDb → DatabaseRef) (db db' : CacheDb) : Prop where
  basic : ∀ address acc, db.accounts.lookup address = some acc →
    ∃ info, (read db').basicRef address = .ok (some info) ∧
      info.summary = acc.info.summary
  code : ∀ address acc, db.accounts.lookup address = some acc →
    (read db').codeByHashRef acc.info.codeHash =
      (read db).codeByHashRef acc.info.codeHash
  storage : ∀ address slot, (read db').storageRef address slot =
    (read db).storageRef address slot
  blockHash : ∀ number, (read db').blockHashRef number =
    (read db).blockHashRef number

/-- The snapshot has all of the database. -/
structure SnapshotOf (db : CacheDb) (snapshot : StateSnapshot) : Prop where
  accounts : ∀ address, (snapshot.accounts.lookup address).map ({ · with code := none }) =
    (db.accounts.lookup address).map ({ ·.info with code := none })
  code : ∀ address info, snapshot.accounts.lookup address = some info →
    info.code = none ∨ info.code = db.contracts.lookup info.codeHash
  /-- Someone carries the code of every account. -/
  carried : ∀ address acc, db.accounts.lookup address = some acc →
    ∃ other info, snapshot.accounts.lookup other = some info ∧
      info.codeHash = acc.info.codeHash ∧ info.code = db.contracts.lookup acc.info.codeHash
  storage : ∀ address, snapshot.storage.lookup address =
    (db.accounts.lookup address).map (·.storage)
  blockHashes : snapshot.blockHashes = db.blockHashes

/-! ### Writing -/

section Writing

variable (ord : DbOrder) (db : CacheDb)

/-- One account copied into a snapshot. -/
def readAccount (snapshot : StateSnapshot) (entry : Address × DbAccount) : StateSnapshot :=
  { snapshot with
    storage := snapshot.storage.insert entry.1 entry.2.storage
    accounts := snapshot.accounts.insert entry.1
      { entry.2.info with code := db.contracts.lookup entry.2.info.codeHash } }

theorem readAsStateSnapshot_eq : db.readAsStateSnapshot ord =
    { (entries ord.addresses db.accounts).foldl db.readAccount ⟨∅, ∅, ∅⟩ with
      blockHashes := db.blockHashes } := rfl

theorem snapshotOf_readAsStateSnapshot : SnapshotOf db (db.readAsStateSnapshot ord) := by
  have hfold : ∀ (entries : List (Address × DbAccount)) (snapshot : StateSnapshot),
      (entries.foldl db.readAccount snapshot).accounts =
        insertAll snapshot.accounts (entries.map fun e => (e.1,
          { e.2.info with code := db.contracts.lookup e.2.info.codeHash })) ∧
      (entries.foldl db.readAccount snapshot).storage =
        insertAll snapshot.storage (entries.map fun e => (e.1, e.2.storage)) := by
    intro entries
    induction entries with
    | nil => exact fun _ => ⟨rfl, rfl⟩
    | cons e entries ih => exact fun snapshot => ih (db.readAccount snapshot e)
  have haccounts : ∀ address, (db.readAsStateSnapshot ord).accounts.lookup address =
      (db.accounts.lookup address).map fun acc =>
        { acc.info with code := db.contracts.lookup acc.info.codeHash } := by
    intro address
    rw [readAsStateSnapshot_eq, (hfold _ _).1]
    exact lookup_insertAll_entries ord.addresses db.accounts
      (fun _ acc => { acc.info with code := db.contracts.lookup acc.info.codeHash }) address
  refine ⟨fun address => ?_, fun address info hinfo => ?_, fun address acc hacc => ?_,
    fun address => ?_, rfl⟩
  · rw [haccounts, Option.map_map]
    rfl
  · rw [haccounts] at hinfo
    obtain ⟨acc, -, rfl⟩ := Option.map_eq_some_iff.mp hinfo
    exact Or.inr rfl
  · exact ⟨address, _, (haccounts address).trans (congrArg _ hacc), rfl, rfl⟩
  · rw [readAsStateSnapshot_eq, (hfold _ _).2]
    exact lookup_insertAll_entries ord.addresses db.accounts (fun _ acc => acc.storage) address

theorem storage_foldl_clearAccount (entries : List (Address × DbAccount))
    (state : StateSnapshot × HashMap B256 Bytecode) :
    (entries.foldl clearAccount state).1.storage =
      insertAll state.1.storage (entries.map fun e => (e.1, e.2.storage)) := by
  induction entries generalizing state with
  | nil => rfl
  | cons e entries ih => exact ih (clearAccount state e)

/-- The code goes to the first account that has it. -/
theorem snapshotOf_clearIntoStateSnapshot : SnapshotOf db (db.clearIntoStateSnapshot ord).1 := by
  -- the overlay of a fork that has nothing else is cleared in the same way
  let s : ForkDbStateSnapshot := ⟨db, ⟨∅, ∅, ∅⟩⟩
  have hmoved : (db.clearIntoStateSnapshot ord).1.accounts = (s.moved ord).1.accounts := rfl
  have hstorage : ∀ address, (db.clearIntoStateSnapshot ord).1.storage.lookup address =
      (db.accounts.lookup address).map (·.storage) := by
    intro address
    show (StateSnapshot.storage (Prod.fst (List.foldl _ _ _))).lookup address = _
    rw [storage_foldl_clearAccount]
    exact lookup_insertAll_entries ord.addresses db.accounts (fun _ acc => acc.storage) address
  refine ⟨fun address => ?_, fun address info hinfo => ?_, fun address acc hacc => ?_,
    hstorage, rfl⟩
  · rw [hmoved]
    cases hacc : db.accounts.lookup address with
    | none => rw [lookup_moved_of_none (s := s) hacc]; rfl
    | some acc =>
      obtain ⟨code, hcode, -⟩ := @ForkDbStateSnapshot.lookup_moved ord s _ _ hacc
      rw [hcode]
      rfl
  · rw [hmoved] at hinfo
    cases hacc : db.accounts.lookup address with
    | none =>
      rw [lookup_moved_of_none (s := s) hacc] at hinfo
      cases hinfo
    | some acc =>
      obtain ⟨code, hcode, htaken⟩ := @ForkDbStateSnapshot.lookup_moved ord s _ _ hacc
      rw [hcode] at hinfo
      cases hinfo
      exact htaken.symm.imp (·.1) id
  · -- the first account walked that has the code of this one
    have hsome : ((entries ord.addresses db.accounts).find?
        (·.2.info.codeHash == acc.info.codeHash)).isSome :=
      List.find?_isSome.mpr ⟨(address, acc), mem_entries.mpr hacc, beq_self_eq_true _⟩
    obtain ⟨⟨first, acc'⟩, hfirst⟩ := Option.isSome_iff_exists.mp hsome
    obtain ⟨hhash, before, after, hsplit, hbefore⟩ := List.find?_eq_some_iff_append.mp hfirst
    have hhash : acc'.info.codeHash = acc.info.codeHash := eq_of_beq hhash
    have hnodup := nodup_entries ord.addresses db.accounts
    rw [hsplit, List.map_append, List.map_cons, List.nodup_middle, List.nodup_cons,
      List.mem_append, not_or] at hnodup
    have hcode := @accounts_foldl_clearAccount before after first acc'
      (⟨∅, ∅, ∅⟩, db.contracts) hnodup.1.2
    rw [← hsplit, if_neg] at hcode
    · exact ⟨first, _, hcode, hhash, congrArg db.contracts.lookup hhash⟩
    · rintro ⟨e, he, heq⟩
      have hne := hbefore e he
      rw [heq, hhash, beq_self_eq_true] at hne
      cases hne

end Writing

/-! ### Reading back -/

section Reading

variable {ord : DbOrder} {db : CacheDb} {snapshot : StateSnapshot}

/-- An account as it is put back. -/
def restored (snapshot : StateSnapshot) (address : Address) (info : AccountInfo) : DbAccount :=
  ⟨{ info with code := none }, .none, (snapshot.storage.lookup address).getD ∅⟩

theorem accounts_initFromStateSnapshot {base : CacheDb} (hbase : base.accounts = ∅)
    (address : Address) : (base.initFromStateSnapshot ord snapshot).accounts.lookup address =
      (snapshot.accounts.lookup address).map (restored snapshot address) := by
  have hfold : ∀ (entries : List (Address × AccountInfo)) (base : CacheDb),
      (entries.foldl (initAccount snapshot.storage) base).accounts =
        insertAll base.accounts (entries.map fun e => (e.1, restored snapshot e.1 e.2)) := by
    intro entries
    induction entries with
    | nil => exact fun _ => rfl
    | cons e entries ih => exact fun base => ih (initAccount snapshot.storage base e)
  show (CacheDb.accounts (List.foldl _ _ _)).lookup address = _
  rw [hfold, hbase]
  exact lookup_insertAll_entries ord.addresses snapshot.accounts (restored snapshot) address

/-- Where all accounts that carry code for a hash carry the same, it is in the table. -/
theorem contracts_foldl_initAccount (storage : HashMap Address (HashMap U256 U256))
    {entries : List (Address × AccountInfo)} {codeHash : B256} {code : Option Bytecode}
    (hcode : ∀ e ∈ entries, e.2.codeHash = codeHash → e.2.code = none ∨ e.2.code = code)
    (base : CacheDb) :
    (entries.foldl (initAccount storage) base).contracts.lookup codeHash =
      if ∃ e ∈ entries, e.2.codeHash = codeHash ∧ e.2.code ≠ none then code
      else base.contracts.lookup codeHash := by
  induction entries generalizing base with
  | nil => simp
  | cons e entries ih =>
    have hstep : (initAccount storage base e).contracts.lookup codeHash =
        if e.2.codeHash = codeHash ∧ e.2.code ≠ none then code
        else base.contracts.lookup codeHash := by
      have he := hcode e List.mem_cons_self
      unfold initAccount
      cases hc : e.2.code with
      | none => simp [hc]
      | some c =>
        simp only [hc, lookup_insert_ite, ne_eq, reduceCtorEq, not_false_eq_true,
          and_true, eq_comm (a := codeHash)]
        split
        · rename_i heq
          rw [hc] at he
          exact (he heq).resolve_left (Option.some_ne_none c)
        · rfl
    rw [List.foldl_cons, ih (fun e' he' => hcode e' (List.mem_cons_of_mem _ he')), hstep]
    simp only [List.exists_mem_cons_iff]
    by_cases hhead : e.2.codeHash = codeHash ∧ e.2.code ≠ none
    · rw [if_pos hhead, ite_self, if_pos (Or.inl hhead)]
    · simp only [hhead, if_false, false_or]

/-- A database without accounts, in whose table there is no code for those of `db`. -/
structure Blank (db base : CacheDb) : Prop where
  accounts : base.accounts = ∅
  code : ∀ address acc code, db.accounts.lookup address = some acc →
    base.contracts.lookup acc.info.codeHash = some code → code = []

theorem codeByHashRef_overEmpty
    (codeHash : B256) :
    (db.readThrough (.emptyDbWrapper keccakEmpty emptyBlockHash)).codeByHashRef codeHash =
      .ok ((db.contracts.lookup codeHash).getD []) := by
  simp only [readThrough]
  cases db.contracts.lookup codeHash <;> rfl

theorem storageRef_overEmpty
    (address : Address) (slot : U256) :
    (db.readThrough (.emptyDbWrapper keccakEmpty emptyBlockHash)).storageRef address slot =
      .ok (((db.accounts.lookup address).bind (·.storage.lookup slot)).getD 0) := by
  simp only [readThrough, DatabaseRef.emptyDbWrapper, ite_self]
  cases db.accounts.lookup address with
  | none => rfl
  | some acc =>
    simp only [Option.bind_some]
    cases acc.storage.lookup slot <;> rfl

/-- Everyone who carries the code of an account carries that of the table, and someone does. -/
theorem SnapshotOf.codeByHashRef (h : SnapshotOf db snapshot) {base : CacheDb}
    (hbase : Blank db base) {address : Address} {acc : DbAccount}
    (hacc : db.accounts.lookup address = some acc) :
    ((base.initFromStateSnapshot ord snapshot).contracts.lookup acc.info.codeHash).getD [] =
      (db.contracts.lookup acc.info.codeHash).getD [] := by
  have hcode : ∀ e ∈ entries ord.addresses snapshot.accounts, e.2.codeHash = acc.info.codeHash →
      e.2.code = none ∨ e.2.code = db.contracts.lookup acc.info.codeHash :=
    fun e he hhash => hhash ▸ h.code e.1 e.2 (mem_entries.mp he)
  have hlook : (base.initFromStateSnapshot ord snapshot).contracts.lookup acc.info.codeHash = _ :=
    contracts_foldl_initAccount snapshot.storage hcode base
  obtain ⟨other, info, hinfo, hhash, hcarried⟩ := h.carried address acc hacc
  rw [hlook]
  cases htable : db.contracts.lookup acc.info.codeHash with
  | none =>
    rw [if_neg]
    · cases hold : base.contracts.lookup acc.info.codeHash with
      | none => rfl
      | some code => rw [hbase.code address acc code hacc hold]; rfl
    · rintro ⟨e, he, hhash', hne⟩
      exact hne ((hcode e he hhash').elim id fun h => h.trans htable)
  | some code =>
    have hne : info.code ≠ none := by
      rw [hcarried, htable]
      exact Option.some_ne_none code
    rw [if_pos ⟨(other, info), mem_entries.mpr hinfo, hhash, hne⟩]

/-- An account is put back with its storage. -/
theorem SnapshotOf.storage_restored (h : SnapshotOf db snapshot) (address : Address) (slot : U256) :
    ((snapshot.accounts.lookup address).map (restored snapshot address)).bind
        (·.storage.lookup slot) =
      (db.accounts.lookup address).bind (·.storage.lookup slot) := by
  have hinfo := h.accounts address
  cases hacc : db.accounts.lookup address with
  | none =>
    rw [hacc, Option.map_none, Option.map_eq_none_iff] at hinfo
    rw [hinfo]
    rfl
  | some acc =>
    rw [hacc] at hinfo
    obtain ⟨info, hlook, -⟩ := Option.map_eq_some_iff.mp hinfo
    have hstorage := h.storage address
    rw [hacc] at hstorage
    rw [hlook, Option.map_some, restored, hstorage]
    rfl

theorem SnapshotOf.sameAnswers (h : SnapshotOf db snapshot) {base : CacheDb}
    (hbase : Blank db base) :
    SameAnswers (readThrough (.emptyDbWrapper keccakEmpty emptyBlockHash)) db
      (base.initFromStateSnapshot ord snapshot) := by
  have haccounts := @accounts_initFromStateSnapshot ord snapshot base hbase.accounts
  refine ⟨fun address acc hacc => ?_, fun address acc hacc => ?_, fun address slot => ?_,
    fun number => ?_⟩
  · have hinfo := h.accounts address
    rw [hacc] at hinfo
    obtain ⟨info, hlook, heq⟩ := Option.map_eq_some_iff.mp hinfo
    have hsummary := congrArg AccountInfo.summary heq
    refine ⟨{ info with code := none }, ?_, hsummary⟩
    simp only [readThrough, haccounts, hlook]
    rfl
  · rw [codeByHashRef_overEmpty, codeByHashRef_overEmpty, h.codeByHashRef hbase hacc]
  · rw [storageRef_overEmpty, storageRef_overEmpty, haccounts, h.storage_restored]
  · have hhashes : (base.initFromStateSnapshot ord snapshot).blockHashes = db.blockHashes :=
      h.blockHashes
    simp only [readThrough, hhashes]

/-- **Spilling in memory.** A state keeps its answers when it is spilled to disk and read back,
and when a copy of it is read into an empty database. `read` is how a `CacheDB` over an empty
database is read, and `new` is `CacheDB::new`, which knows no code but the empty one. -/
theorem sameAnswers_reload (ord ord' : DbOrder) {keccakEmpty : B256}
    {emptyBlockHash : UInt64 → B256} {read : CacheDb → DatabaseRef} {new : CacheDb}
    (hreads : ∀ db, read db = db.readThrough (.emptyDbWrapper keccakEmpty emptyBlockHash))
    (haccounts : new.accounts = ∅)
    (hcode : ∀ codeHash code, new.contracts.lookup codeHash = some code → code = [])
    (db : CacheDb) :
    SameAnswers read db (db.spilled ord ord') ∧
    SameAnswers read db (new.initFromStateSnapshot ord' (db.readAsStateSnapshot ord)) := by
  obtain rfl : read = readThrough _ := funext hreads
  refine ⟨(snapshotOf_clearIntoStateSnapshot ord db).sameAnswers ⟨rfl, ?_⟩,
    (snapshotOf_readAsStateSnapshot ord db).sameAnswers
      ⟨haccounts, fun _ acc code _ => hcode acc.info.codeHash code⟩⟩
  -- the code of every account was taken out of the table
  intro address acc code hacc hcode
  have hnone := (lookup_moved_contracts ord ⟨db, ⟨∅, ∅, ∅⟩⟩
    acc.info.codeHash).1 ⟨address, acc, hacc, rfl⟩
  exact absurd (hnone.symm.trans hcode) (Option.some_ne_none code).symm

/-- Two accounts with the same code, one of them with storage. -/
theorem sameAnswers_reload_shared :
    SameAnswers (readThrough (.emptyDbWrapper 0 fun _ => 0)) sampleFork.localDb
        (sampleFork.localDb.spilled ascendingDbOrder ascendingDbOrder) ∧
    SameAnswers (readThrough (.emptyDbWrapper 0 fun _ => 0)) sampleFork.localDb
        (CacheDb.empty.initFromStateSnapshot ascendingDbOrder
          (sampleFork.localDb.readAsStateSnapshot ascendingDbOrder)) :=
  sameAnswers_reload ascendingDbOrder ascendingDbOrder (fun _ => rfl) rfl
    (fun codeHash code hcode =>
      absurd (hcode.symm.trans (Finmap.lookup_empty codeHash)) (Option.some_ne_none code)) _

end Reading

end BaseAnvil.Chain.CacheDb

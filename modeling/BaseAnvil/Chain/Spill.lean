import BaseAnvil.Chain.CacheDb
import BaseAnvil.Chain.Fork

/-!
# BaseAnvil.Chain.Spill

Historical states of a forked chain (`ForkDbStateSnapshot`), and what is left of one that
was written to disk and read back.

Such a state has local changes over what had been fetched from the remote. Writing it to
disk moves the local changes into the fetched data, where only half of them is found
again: accounts are looked up there, storage is not; code went to one of the accounts
that have it; block hashes that were fetched are now behind local ones; and the accounts
that rolling back starts from are those of the overlay, which stays empty.
-/

namespace BaseAnvil.Chain

open Lib CacheDb HashMap Word Finmap AccountInfo
open Pool (B256 Address)

/-! ### Reading a historical state -/

namespace ForkDbStateSnapshot

def getStorage (s : ForkDbStateSnapshot) (address : Address) (index : U256) : Option U256 :=
  (s.localDb.accounts.lookup address).bind (·.storage.lookup index)

/-- Works similar to `CacheDB`, which prioritizes modified elements and uses another database
as fallback. `read` is how a `CacheDB` over the shared backend is read. -/
def asRef (read : CacheDb → DatabaseRef) (s : ForkDbStateSnapshot) : DatabaseRef where
  basicRef address := match s.localDb.accounts.lookup address with
    | some account => .ok (some account.info)
    | none =>
      match s.stateSnapshot.accounts.lookup address with
      | some acc => .ok (some acc)
      | none => (read s.localDb).basicRef address
  codeByHashRef codeHash := (read s.localDb).codeByHashRef codeHash
  storageRef address index := match s.localDb.accounts.lookup address with
    | some account =>
      match account.storage.lookup index with
      | some entry => .ok entry
      | none =>
        match s.getStorage address index with
        | none => (read s.localDb).storageRef address index
        | some storage => .ok storage
    | none =>
      match s.getStorage address index with
      | none => (read s.localDb).storageRef address index
      | some storage => .ok storage
  blockHashRef number :=
    match s.stateSnapshot.blockHashes.lookup (Word.ofU64 256 number) with
    | none => (read s.localDb).blockHashRef number
    | some blockHash => .ok blockHash

def maybeAsFullDb (s : ForkDbStateSnapshot) : Option (HashMap Address DbAccount) :=
  some s.localDb.accounts

/-! ### Writing it to disk -/

def clearIntoStateSnapshot (ord : DbOrder) (s : ForkDbStateSnapshot) :
    StateSnapshot × ForkDbStateSnapshot :=
  let (localStateSnapshot, localDb) := s.localDb.clearIntoStateSnapshot ord
  (⟨s.stateSnapshot.accounts.extend localStateSnapshot.accounts,
    s.stateSnapshot.storage.extend localStateSnapshot.storage,
    s.stateSnapshot.blockHashes.extend localStateSnapshot.blockHashes⟩,
    ⟨localDb, ⟨∅, ∅, ∅⟩⟩)

def initFromStateSnapshot (s : ForkDbStateSnapshot) (stateSnapshot : StateSnapshot) :
    ForkDbStateSnapshot :=
  { s with stateSnapshot := stateSnapshot }

/-- The state after it was written to disk and read back. -/
def spilled (ord : DbOrder) (s : ForkDbStateSnapshot) : ForkDbStateSnapshot :=
  let (stateSnapshot, cleared) := s.clearIntoStateSnapshot ord
  cleared.initFromStateSnapshot stateSnapshot

end ForkDbStateSnapshot

/-- `Backend::get_code_with_state`. -/
def getCodeWithState (keccakEmpty : B256) (state : DatabaseRef) (address : Address) :
    Except DatabaseError (List UInt8) :=
  match state.basicRef address with
  | .error err => .error err
  | .ok account =>
    let account := account.getD (.default keccakEmpty)
    if account.codeHash = keccakEmpty then .ok []
    else match account.code with
      | some code => .ok code
      | none => state.codeByHashRef account.codeHash

/-! ### What is moved -/

namespace CacheDb

variable {before after entries : List (Address × DbAccount)} {address : Address} {acc : DbAccount}
  (state : StateSnapshot × HashMap B256 Bytecode)

/-- The code of every account that was walked is gone from the table. -/
theorem contracts_foldl_clearAccount (codeHash : B256) :
    (entries.foldl clearAccount state).2.lookup codeHash =
      if ∃ e ∈ entries, e.2.info.codeHash = codeHash then none else state.2.lookup codeHash := by
  induction entries generalizing state with
  | nil => simp
  | cons e entries ih =>
    rw [List.foldl_cons, ih]
    show (if _ then none else (state.2.erase e.2.info.codeHash).lookup codeHash) = _
    rw [lookup_erase_ite]
    by_cases hrest : ∃ e ∈ entries, e.2.info.codeHash = codeHash
    · obtain ⟨e', he', hhash⟩ := hrest
      rw [if_pos ⟨e', he', hhash⟩, if_pos ⟨e', List.mem_cons_of_mem _ he', hhash⟩]
    · rw [if_neg hrest]
      by_cases hhead : e.2.info.codeHash = codeHash
      · rw [if_pos hhead.symm, if_pos ⟨e, List.mem_cons_self, hhead⟩]
      · rw [if_neg fun heq => hhead heq.symm, if_neg]
        simpa [hhead] using hrest

theorem accounts_foldl_clearAccount_of_notMem (hnot : address ∉ entries.map (·.1)) :
    (entries.foldl clearAccount state).1.accounts.lookup address =
      state.1.accounts.lookup address := by
  induction entries generalizing state with
  | nil => rfl
  | cons e entries ih =>
    rw [List.map_cons, List.mem_cons, not_or] at hnot
    rw [List.foldl_cons, ih _ hnot.2]
    exact (lookup_insert_ite _ _ _ _).trans (if_neg hnot.1)

/-- An account gets the code that its hash has in the table, unless it went to one that
was walked before. -/
theorem accounts_foldl_clearAccount (hnot : address ∉ after.map (·.1)) :
    ((before ++ (address, acc) :: after).foldl clearAccount state).1.accounts.lookup address =
      some { acc.info with
        code := if ∃ e ∈ before, e.2.info.codeHash = acc.info.codeHash then none
          else state.2.lookup acc.info.codeHash } := by
  rw [List.foldl_append, List.foldl_cons, accounts_foldl_clearAccount_of_notMem _ hnot,
    ← contracts_foldl_clearAccount]
  exact (lookup_insert_ite _ _ _ _).trans (if_pos rfl)

end CacheDb

namespace ForkDbStateSnapshot

variable (remote : DatabaseRef) (keccakEmpty : B256) (ord : DbOrder) {s : ForkDbStateSnapshot}
  {address : Address} {acc : DbAccount}

/-- What is moved out of the overlay, and the code that stays. -/
def moved (s : ForkDbStateSnapshot) : StateSnapshot × HashMap B256 Bytecode :=
  (entries ord.addresses s.localDb.accounts).foldl clearAccount
    (⟨∅, ∅, ∅⟩, s.localDb.contracts)

theorem spilled_eq : s.spilled ord =
    ⟨⟨∅, (s.moved ord).2, ∅⟩,
      ⟨s.stateSnapshot.accounts.extend (s.moved ord).1.accounts,
        s.stateSnapshot.storage.extend (s.moved ord).1.storage,
        s.stateSnapshot.blockHashes.extend s.localDb.blockHashes⟩⟩ := rfl

/-- Code stays that no local account has. -/
theorem lookup_moved_contracts (s : ForkDbStateSnapshot) (codeHash : B256) :
    ((∃ address acc, s.localDb.accounts.lookup address = some acc ∧
        acc.info.codeHash = codeHash) → (s.moved ord).2.lookup codeHash = none) ∧
    ((∀ address acc, s.localDb.accounts.lookup address = some acc →
        acc.info.codeHash ≠ codeHash) →
      (s.moved ord).2.lookup codeHash = s.localDb.contracts.lookup codeHash) := by
  unfold moved
  rw [contracts_foldl_clearAccount]
  constructor
  · rintro ⟨address, acc, hacc, hhash⟩
    exact if_pos ⟨(address, acc), mem_entries.mpr hacc, hhash⟩
  · intro hnone
    refine if_neg ?_
    rintro ⟨⟨address, acc⟩, he, hhash⟩
    exact hnone address acc (mem_entries.mp he) hhash

variable {remote keccakEmpty ord}

theorem lookup_moved_of_none (hnone : s.localDb.accounts.lookup address = none) :
    (s.moved ord).1.accounts.lookup address = none := by
  refine (accounts_foldl_clearAccount_of_notMem _ fun hmem => ?_).trans
    (lookup_empty _)
  obtain ⟨⟨_, acc⟩, he, rfl⟩ := List.mem_map.mp hmem
  rw [mem_entries.mp he] at hnone
  cases hnone

/-- A local account is moved, with the code under its hash, or without if another account
with the same code may have been walked before. -/
theorem lookup_moved (hacc : s.localDb.accounts.lookup address = some acc) :
    ∃ code, (s.moved ord).1.accounts.lookup address = some { acc.info with code := code } ∧
      (code = s.localDb.contracts.lookup acc.info.codeHash ∨
        code = none ∧ ∃ other acc', other ≠ address ∧
          s.localDb.accounts.lookup other = some acc' ∧
          acc'.info.codeHash = acc.info.codeHash) := by
  obtain ⟨before, after, hentries, hbefore, hafter⟩ := entries_split ord.addresses hacc
  have hmoved := @accounts_foldl_clearAccount before after address acc
    (⟨∅, ∅, ∅⟩, s.localDb.contracts) hafter
  rw [← hentries] at hmoved
  refine ⟨_, hmoved, ?_⟩
  split
  · rename_i hwalked
    obtain ⟨⟨other, acc'⟩, he, hhash⟩ := hwalked
    refine Or.inr ⟨rfl, other, acc', ?_, ?_, hhash⟩
    · rintro rfl
      exact hbefore (List.mem_map_of_mem he)
    · exact mem_entries.mp (hentries ▸ List.mem_append_left _ he)
  · exact Or.inl rfl

/-- The account walked first gets the code, and no other account that has it does. -/
theorem lookup_moved_first (ord : DbOrder) (hacc : s.localDb.accounts.lookup address = some acc) :
    let first : DbOrder := { ord with addresses := (ord.addresses.withLast address).reversed }
    (s.moved first).1.accounts.lookup address =
        some { acc.info with code := s.localDb.contracts.lookup acc.info.codeHash } ∧
      ∀ other acc', other ≠ address → s.localDb.accounts.lookup other = some acc' →
        acc'.info.codeHash = acc.info.codeHash →
        (s.moved first).1.accounts.lookup other = some { acc'.info with code := none } := by
  intro first
  obtain ⟨front, hfront⟩ := entries_withLast ord.addresses hacc
  have hentries : entries first.addresses s.localDb.accounts =
      (address, acc) :: front.reverse := by
    show entries (ord.addresses.withLast address).reversed _ = _
    rw [entries_reversed, hfront, List.reverse_append]
    rfl
  -- whoever is moved, the account walked first comes before it
  have hsplit : ∀ other acc', s.localDb.accounts.lookup other = some acc' → ∃ before,
      (s.moved first).1.accounts.lookup other = some { acc'.info with
        code := if ∃ e ∈ before, e.2.info.codeHash = acc'.info.codeHash then none
          else s.localDb.contracts.lookup acc'.info.codeHash } ∧
      other ∉ before.map (·.1) ∧ (other = address ∧ before = [] ∨ (address, acc) ∈ before) := by
    intro other acc' hacc'
    obtain ⟨before, after, hother, hbefore, hafter⟩ := entries_split first.addresses hacc'
    have hmoved := @accounts_foldl_clearAccount before after other acc'
      (⟨∅, ∅, ∅⟩, s.localDb.contracts) hafter
    rw [← hother] at hmoved
    refine ⟨before, hmoved, hbefore, ?_⟩
    rw [hentries] at hother
    cases before with
    | nil => exact Or.inl ⟨congrArg (·.1) (List.cons.inj hother).1.symm, rfl⟩
    | cons e before =>
      rw [(List.cons.inj hother).1]
      exact Or.inr List.mem_cons_self
  constructor
  · obtain ⟨before, hmoved, hbefore, ⟨-, rfl⟩ | hmem⟩ := hsplit address acc hacc
    · simpa using hmoved
    · exact absurd (List.mem_map_of_mem hmem) hbefore
  · intro other acc' hne hacc' hhash
    obtain ⟨before, hmoved, -, ⟨rfl, -⟩ | hmem⟩ := hsplit other acc' hacc'
    · exact absurd rfl hne
    · rw [hmoved, if_pos ⟨(address, acc), hmem, hhash.symm⟩]

/-! ### The state read back -/

/-- Reads go to what was moved, to what had been fetched, and to the remote. -/
theorem basicRef_spilled :
    ((s.spilled ord).asRef (readThrough remote)).basicRef address =
      match ((s.moved ord).1.accounts.lookup address).or
          (s.stateSnapshot.accounts.lookup address) with
      | some acc => .ok (some acc)
      | none => remote.basicRef address := by
  rw [spilled_eq]
  simp only [asRef, readThrough, lookup_empty, lookup_extend]

theorem basicRef_spilled_of_none (hnone : s.localDb.accounts.lookup address = none) :
    ((s.spilled ord).asRef (readThrough remote)).basicRef address =
      (s.asRef (readThrough remote)).basicRef address := by
  rw [basicRef_spilled, lookup_moved_of_none hnone]
  simp only [asRef, readThrough, hnone, Option.none_or]

variable {info : AccountInfo}

theorem basicRef_spilled_of_moved (hmoved : (s.moved ord).1.accounts.lookup address = some info) :
    ((s.spilled ord).asRef (readThrough remote)).basicRef address = .ok (some info) := by
  rw [basicRef_spilled, hmoved, Option.some_or]

theorem basicRef_of_local (hacc : s.localDb.accounts.lookup address = some acc) :
    (s.asRef (readThrough remote)).basicRef address = .ok (some acc.info) := by
  simp only [asRef, hacc]

/-- Accounts are kept, up to where their code is found. -/
theorem basic_spilled (address : Address) :
    (((s.spilled ord).asRef (readThrough remote)).basicRef address).map (·.map summary) =
      ((s.asRef (readThrough remote)).basicRef address).map (·.map summary) := by
  cases hacc : s.localDb.accounts.lookup address with
  | none => rw [basicRef_spilled_of_none hacc]
  | some acc =>
    obtain ⟨code, hmoved, -⟩ := lookup_moved hacc
    rw [basicRef_spilled_of_moved hmoved, basicRef_of_local hacc]
    rfl

/-- Storage is read from the remote. -/
theorem storageRef_spilled (slot : U256) :
    ((s.spilled ord).asRef (readThrough remote)).storageRef address slot =
      remote.storageRef address slot := by
  rw [spilled_eq]
  simp only [asRef, getStorage, readThrough, lookup_empty, Option.bind_none]

/-- Before, it was read like that of the overlay. -/
theorem storageRef_eq_readThrough (slot : U256) :
    (s.asRef (readThrough remote)).storageRef address slot =
      (s.localDb.readThrough remote).storageRef address slot := by
  simp only [asRef, getStorage]
  cases hacc : s.localDb.accounts.lookup address with
  | none => rfl
  | some acc =>
    simp only [Option.bind_some]
    cases hslot : acc.storage.lookup slot with
    | none => rfl
    | some value => simp only [readThrough, hacc, hslot]

theorem storage_spilled_iff :
    (∀ ord address slot, ((s.spilled ord).asRef (readThrough remote)).storageRef address slot =
        (s.asRef (readThrough remote)).storageRef address slot) ↔
      ∀ address acc slot, s.localDb.accounts.lookup address = some acc →
        (s.localDb.readThrough remote).storageRef address slot =
          remote.storageRef address slot := by
  constructor
  · intro h address _ slot _
    rw [← storageRef_eq_readThrough, ← h ascendingDbOrder, storageRef_spilled]
  · intro h ord address slot
    rw [storageRef_spilled, storageRef_eq_readThrough]
    cases hacc : s.localDb.accounts.lookup address with
    | none => simp only [readThrough, hacc]
    | some acc => exact (h address acc slot hacc).symm

/-- Block hashes that were fetched are those that the overlay has, if it has any. -/
def HashesAgree (s : ForkDbStateSnapshot) : Prop :=
  ∀ number fetched hash,
    s.stateSnapshot.blockHashes.lookup (Word.ofU64 256 number) = some fetched →
    s.localDb.blockHashes.lookup (Word.ofU64 256 number) = some hash → fetched = hash

/-- Local block hashes come first now. -/
theorem blockHash_spilled_iff :
    (∀ ord number, ((s.spilled ord).asRef (readThrough remote)).blockHashRef number =
        (s.asRef (readThrough remote)).blockHashRef number) ↔ s.HashesAgree := by
  have hafter : ∀ ord number, ((s.spilled ord).asRef (readThrough remote)).blockHashRef number =
      match (s.localDb.blockHashes.lookup (ofU64 256 number)).or
          (s.stateSnapshot.blockHashes.lookup (ofU64 256 number)) with
      | none => remote.blockHashRef number
      | some hash => .ok hash := by
    intro ord number
    rw [spilled_eq]
    simp only [asRef, readThrough, lookup_empty, lookup_extend]
  constructor
  · intro h number fetched hash hfetched hhash
    have hsame := h ascendingDbOrder number
    rw [hafter, hhash] at hsame
    simp only [asRef, hfetched, Option.some_or] at hsame
    exact (Except.ok.inj hsame).symm
  · intro h ord number
    rw [hafter]
    simp only [asRef, readThrough]
    cases hfetched : s.stateSnapshot.blockHashes.lookup (ofU64 256 number) with
    | none =>
      rw [Option.or_none]
      cases s.localDb.blockHashes.lookup (ofU64 256 number) <;> rfl
    | some fetched =>
      cases hhash : s.localDb.blockHashes.lookup (ofU64 256 number) with
      | none => rfl
      | some hash => rw [h number fetched hash hfetched hhash, Option.some_or]

/-! ### Code -/

section

variable (remote : DatabaseRef) (read : CacheDb → DatabaseRef) (keccakEmpty : B256)

/-- The code under a hash, as the overlay reads it: from the table or from the remote. -/
def codeUnder (s : ForkDbStateSnapshot) (codeHash : B256) : Except DatabaseError Bytecode :=
  (read s.localDb).codeByHashRef codeHash

/-- The code of the account may be looked up under the hash afterwards: the account is a local
one with that hash, or it was fetched or answered without code. -/
def LooksUpCode (s : ForkDbStateSnapshot) (address : Address) (codeHash : B256) : Prop :=
  match s.localDb.accounts.lookup address with
  | some acc => acc.info.codeHash = codeHash
  | none => ∃ info, (s.asRef read).basicRef address = .ok (some info) ∧
      info.codeHash = codeHash ∧ info.code = none

/-- Code that local accounts have in place is what is found under its hash; and code that a
local account shares with another one is at the remote as well. -/
structure CodeSurvives (s : ForkDbStateSnapshot) : Prop where
  inPlace : ∀ address acc code, s.localDb.accounts.lookup address = some acc →
    acc.info.codeHash ≠ keccakEmpty → acc.info.code = some code →
      s.codeUnder read acc.info.codeHash = .ok code
  shared : ∀ address acc other, s.localDb.accounts.lookup address = some acc →
    acc.info.codeHash ≠ keccakEmpty → other ≠ address →
      s.LooksUpCode read other acc.info.codeHash →
        s.codeUnder read acc.info.codeHash = remote.codeByHashRef acc.info.codeHash

end

variable {ref : DatabaseRef}

/-- The code of an account that is read. -/
theorem getCodeWithState_of_basic (hbasic : ref.basicRef address = .ok (some info))
    (hne : info.codeHash ≠ keccakEmpty) :
    getCodeWithState keccakEmpty ref address =
      match info.code with
      | some code => .ok code
      | none => ref.codeByHashRef info.codeHash := by
  simp only [getCodeWithState, hbasic, Option.getD_some, if_neg hne]

theorem getCodeWithState_of_empty (hbasic : ref.basicRef address = .ok (some info))
    (hempty : info.codeHash = keccakEmpty) : getCodeWithState keccakEmpty ref address = .ok [] := by
  simp only [getCodeWithState, hbasic, Option.getD_some, if_pos hempty]

/-- The code of a local account is gone from the table. -/
theorem codeByHashRef_spilled_of_local (hacc : s.localDb.accounts.lookup address = some acc) :
    ((s.spilled ord).asRef (readThrough remote)).codeByHashRef acc.info.codeHash =
      remote.codeByHashRef acc.info.codeHash := by
  have hgone := (s.lookup_moved_contracts ord acc.info.codeHash).1 ⟨address, acc, hacc, rfl⟩
  rw [spilled_eq]
  simp only [asRef, readThrough, hgone]

theorem codeByHashRef_spilled_of_other {codeHash : B256}
    (hnone : ∀ address acc, s.localDb.accounts.lookup address = some acc →
      acc.info.codeHash ≠ codeHash) :
    ((s.spilled ord).asRef (readThrough remote)).codeByHashRef codeHash =
      s.codeUnder (readThrough remote) codeHash := by
  have hkept := (s.lookup_moved_contracts ord codeHash).2 hnone
  rw [spilled_eq]
  simp only [codeUnder, asRef, readThrough, hkept]

section

variable (hacc : s.localDb.accounts.lookup address = some acc)
  (hne : acc.info.codeHash ≠ keccakEmpty)
include hacc hne

/-- An account that took the code under its hash along has it. -/
theorem getCode_spilled_of_taken
    (hmoved : (s.moved ord).1.accounts.lookup address =
      some { acc.info with code := s.localDb.contracts.lookup acc.info.codeHash }) :
    getCodeWithState keccakEmpty ((s.spilled ord).asRef (readThrough remote)) address =
      s.codeUnder (readThrough remote) acc.info.codeHash := by
  rw [getCodeWithState_of_basic (basicRef_spilled_of_moved hmoved) hne]
  rw [codeByHashRef_spilled_of_local hacc]
  cases hcode : s.localDb.contracts.lookup acc.info.codeHash with
  | none => simp only [codeUnder, readThrough, hcode]
  | some code => simp only [codeUnder, readThrough, hcode]

/-- An account that was left without has what the remote has. -/
theorem getCode_spilled_of_left
    (hmoved : (s.moved ord).1.accounts.lookup address = some { acc.info with code := none }) :
    getCodeWithState keccakEmpty ((s.spilled ord).asRef (readThrough remote)) address =
      remote.codeByHashRef acc.info.codeHash := by
  rw [getCodeWithState_of_basic (basicRef_spilled_of_moved hmoved) hne]
  exact codeByHashRef_spilled_of_local hacc

end

/-- If code in place is what is found under its hash, a local account has the latter. -/
theorem getCode_of_local
    (hplace : ∀ code, acc.info.code = some code →
      s.codeUnder (readThrough remote) acc.info.codeHash = .ok code)
    (hacc : s.localDb.accounts.lookup address = some acc) (hne : acc.info.codeHash ≠ keccakEmpty) :
    getCodeWithState keccakEmpty (s.asRef (readThrough remote)) address =
      s.codeUnder (readThrough remote) acc.info.codeHash := by
  rw [getCodeWithState_of_basic (basicRef_of_local hacc) hne]
  cases hcode : acc.info.code with
  | none => rfl
  | some code => exact (hplace code hcode).symm

theorem getCode_spilled_of_local (h : s.CodeSurvives remote (readThrough remote) keccakEmpty)
    (hacc : s.localDb.accounts.lookup address = some acc) :
    getCodeWithState keccakEmpty ((s.spilled ord).asRef (readThrough remote)) address =
      getCodeWithState keccakEmpty (s.asRef (readThrough remote)) address := by
  obtain ⟨code, hmoved, hcode⟩ := lookup_moved hacc
  by_cases hempty : acc.info.codeHash = keccakEmpty
  · rw [getCodeWithState_of_empty (basicRef_of_local hacc) hempty,
      getCodeWithState_of_empty (basicRef_spilled_of_moved hmoved) hempty]
  · rw [getCode_of_local (fun code hplace => h.inPlace address acc code hacc hempty hplace) hacc
      hempty]
    rcases hcode with rfl | ⟨rfl, other, acc', hne, hacc', hhash⟩
    · exact getCode_spilled_of_taken hacc hempty hmoved
    · rw [getCode_spilled_of_left hacc hempty hmoved, ← hhash]
      refine (h.shared other acc' address hacc' (hhash ▸ hempty) hne.symm ?_).symm
      rw [LooksUpCode, hacc]
      exact hhash.symm

theorem getCode_spilled_of_none (h : s.CodeSurvives remote (readThrough remote) keccakEmpty)
    (hnone : s.localDb.accounts.lookup address = none) :
    getCodeWithState keccakEmpty ((s.spilled ord).asRef (readThrough remote)) address =
      getCodeWithState keccakEmpty (s.asRef (readThrough remote)) address := by
  have hsame := @basicRef_spilled_of_none remote ord _ _ hnone
  rcases hbasic : (s.asRef (readThrough remote)).basicRef address with err | _ | info
  · simp only [getCodeWithState, hsame, hbasic]
  · simp [getCodeWithState, hsame, hbasic, AccountInfo.default]
  · rw [hbasic] at hsame
    by_cases hempty : info.codeHash = keccakEmpty
    · rw [getCodeWithState_of_empty hsame hempty, getCodeWithState_of_empty hbasic hempty]
    · rw [getCodeWithState_of_basic hsame hempty, getCodeWithState_of_basic hbasic hempty]
      cases hcode : info.code with
      | some code => rfl
      | none =>
        by_cases hlocal : ∃ other acc, s.localDb.accounts.lookup other = some acc ∧
            acc.info.codeHash = info.codeHash
        · obtain ⟨other, acc, hacc, hhash⟩ := hlocal
          rw [← hhash, codeByHashRef_spilled_of_local hacc]
          refine (h.shared other acc address hacc (hhash ▸ hempty) ?_ ?_).symm
          · rintro rfl
            rw [hnone] at hacc
            cases hacc
          · rw [LooksUpCode, hnone]
            exact ⟨info, hbasic, hhash.symm, hcode⟩
        · refine codeByHashRef_spilled_of_other fun other acc hacc hhash => ?_
          exact hlocal ⟨other, acc, hacc, hhash⟩

theorem code_spilled_iff :
    (∀ ord address,
      getCodeWithState keccakEmpty ((s.spilled ord).asRef (readThrough remote)) address =
        getCodeWithState keccakEmpty (s.asRef (readThrough remote)) address) ↔
      s.CodeSurvives remote (readThrough remote) keccakEmpty := by
  constructor
  · intro h
    have hplace : ∀ address acc code, s.localDb.accounts.lookup address = some acc →
        acc.info.codeHash ≠ keccakEmpty → acc.info.code = some code →
          s.codeUnder (readThrough remote) acc.info.codeHash = .ok code := by
      intro address acc code hacc hne hcode
      obtain ⟨hmoved, -⟩ := lookup_moved_first ascendingDbOrder hacc
      rw [← getCode_spilled_of_taken hacc hne hmoved, h,
        getCodeWithState_of_basic (basicRef_of_local hacc) hne, hcode]
    refine ⟨hplace, fun address acc other hacc hne hother huses => ?_⟩
    obtain ⟨-, hrest⟩ := lookup_moved_first ascendingDbOrder hacc
    unfold LooksUpCode at huses
    cases hacc' : s.localDb.accounts.lookup other with
    | some acc' =>
      rw [hacc'] at huses
      have hne' : acc'.info.codeHash ≠ keccakEmpty := huses ▸ hne
      have hleft := @getCode_spilled_of_left remote _ _ _ _ _ hacc' hne'
        (hrest other acc' hother hacc' huses)
      rw [h, getCode_of_local
        (fun code hcode => hplace other acc' code hacc' hne' hcode) hacc' hne'] at hleft
      rw [← huses]
      exact hleft
    | none =>
      rw [hacc'] at huses
      obtain ⟨info, hbasic, hhash, hcode⟩ := huses
      have hne' : info.codeHash ≠ keccakEmpty := hhash ▸ hne
      have hsame := h ascendingDbOrder other
      rw [getCodeWithState_of_basic hbasic hne',
        getCodeWithState_of_basic ((basicRef_spilled_of_none hacc').trans hbasic) hne', hcode,
        hhash] at hsame
      rw [codeByHashRef_spilled_of_local hacc] at hsame
      exact hsame.symm
  · intro h ord address
    cases hacc : s.localDb.accounts.lookup address with
    | some acc => exact getCode_spilled_of_local h hacc
    | none => exact getCode_spilled_of_none h hacc

/-! ### The whole state -/

section

variable (read : CacheDb → DatabaseRef) (keccakEmpty : B256) (ord : DbOrder)

/-- The accounts that were changed locally are still those that rolling back finds. -/
def ExposesLocal (s : ForkDbStateSnapshot) : Prop :=
  ∃ accounts, (s.spilled ord).maybeAsFullDb = some accounts ∧
    ∀ address acc, s.localDb.accounts.lookup address = some acc →
      ∃ acc', accounts.lookup address = some acc' ∧ acc'.info.summary = acc.info.summary ∧
        acc'.storage = acc.storage

/-- The state that was written to disk and read back answers as before. -/
structure Survives (s : ForkDbStateSnapshot) : Prop where
  basic : ∀ address, (((s.spilled ord).asRef read).basicRef address).map
      (·.map AccountInfo.summary) =
    ((s.asRef read).basicRef address).map (·.map AccountInfo.summary)
  storage : ∀ address slot, ((s.spilled ord).asRef read).storageRef address slot =
    (s.asRef read).storageRef address slot
  code : ∀ address, getCodeWithState keccakEmpty ((s.spilled ord).asRef read) address =
    getCodeWithState keccakEmpty (s.asRef read) address
  blockHash : ∀ number, ((s.spilled ord).asRef read).blockHashRef number =
    (s.asRef read).blockHashRef number
  accounts : s.ExposesLocal ord

end

/-- The overlay has no accounts afterwards. -/
theorem exposesLocal_iff : s.ExposesLocal ord ↔ s.localDb.accounts = ∅ := by
  rw [eq_empty_iff]
  constructor
  · rintro ⟨accounts, hfull, h⟩ address
    cases hacc : s.localDb.accounts.lookup address with
    | none => rfl
    | some acc =>
      obtain ⟨acc', hacc', -⟩ := h address acc hacc
      rw [maybeAsFullDb, spilled_eq] at hfull
      cases hfull
      rw [lookup_empty] at hacc'
      cases hacc'
  · intro h
    refine ⟨∅, by rw [maybeAsFullDb, spilled_eq], fun address acc hacc => ?_⟩
    rw [h address] at hacc
    cases hacc

/-- **Spilling.** Whatever order the maps are walked in, the accounts of a historical state
survive being written to disk; each other part of it survives exactly under the condition
given here, and all of it only if there are no local accounts. -/
theorem survives_iff (remote : DatabaseRef) (read : CacheDb → DatabaseRef)
    (hreads : ∀ db, read db = db.readThrough remote) (keccakEmpty : B256)
    (s : ForkDbStateSnapshot) :
    (∀ ord address, (((s.spilled ord).asRef read).basicRef address).map
        (·.map AccountInfo.summary) =
      ((s.asRef read).basicRef address).map (·.map AccountInfo.summary)) ∧
    ((∀ ord address slot, ((s.spilled ord).asRef read).storageRef address slot =
        (s.asRef read).storageRef address slot) ↔
      ∀ address acc slot, s.localDb.accounts.lookup address = some acc →
        (read s.localDb).storageRef address slot =
          remote.storageRef address slot) ∧
    ((∀ ord address, getCodeWithState keccakEmpty ((s.spilled ord).asRef read) address =
        getCodeWithState keccakEmpty (s.asRef read) address) ↔
      s.CodeSurvives remote read keccakEmpty) ∧
    ((∀ ord number, ((s.spilled ord).asRef read).blockHashRef number =
        (s.asRef read).blockHashRef number) ↔ s.HashesAgree) ∧
    ((∀ ord, s.ExposesLocal ord) ↔ s.localDb.accounts = ∅) ∧
    ((∀ ord, s.Survives read keccakEmpty ord) ↔
      s.localDb.accounts = ∅ ∧ s.HashesAgree) := by
  obtain rfl : read = readThrough remote := funext hreads
  refine ⟨fun ord address => basic_spilled address, storage_spilled_iff, code_spilled_iff,
    blockHash_spilled_iff, ?_, ?_, ?_⟩
  · exact ⟨fun h => exposesLocal_iff.mp (h ascendingDbOrder), fun h ord => exposesLocal_iff.mpr h⟩
  · intro h
    exact ⟨exposesLocal_iff.mp (h ascendingDbOrder).accounts,
      blockHash_spilled_iff.mp fun ord => (h ord).blockHash⟩
  · -- without local accounts, there is nothing to lose but block hashes
    rintro ⟨hempty, hagree⟩ ord
    have hnone : ∀ address acc, s.localDb.accounts.lookup address ≠ some acc := by
      intro address acc hacc
      rw [hempty, lookup_empty] at hacc
      cases hacc
    refine ⟨basic_spilled, ?_, ?_, blockHash_spilled_iff.mpr hagree ord,
      exposesLocal_iff.mpr hempty⟩
    · exact storage_spilled_iff.mpr (fun _ _ _ hacc => absurd hacc (hnone _ _)) ord
    · refine code_spilled_iff.mpr ⟨?_, ?_⟩ ord
      · exact fun _ _ _ hacc => absurd hacc (hnone _ _)
      · exact fun _ _ _ hacc => absurd hacc (hnone _ _)

/-- A remote that has nothing, and that knows no code by its hash. -/
def emptyRemote : DatabaseRef :=
  { DatabaseRef.emptyDbWrapper 0 fun _ => 0 with
    codeByHashRef := fun _ => .error ⟨"missing code"⟩ }

/-- Code in the table and a block hash that was fetched as well, but no local accounts. -/
theorem survives_iff_fetched : Survives (readThrough emptyRemote) 0 ascendingDbOrder
    ⟨⟨∅, singleton 7 [96, 0], singleton 3 1⟩, ⟨∅, ∅, singleton 3 1⟩⟩ := by
  refine (survives_iff emptyRemote _ (fun _ => rfl) 0 _).2.2.2.2.2.mpr ⟨rfl, ?_⟩ ascendingDbOrder
  exact fun number fetched hash hfetched hhash => Option.some.inj (hfetched.symm.trans hhash)

/-- Two local accounts that share their code, one of them with storage, and a block hash
that both the overlay and the fetched data have. -/
def sampleFork : ForkDbStateSnapshot where
  localDb :=
    { accounts := (Finmap.singleton 1 ⟨⟨5, 1, 7, none⟩, .none, Finmap.singleton 0 5⟩).insert 2
        ⟨⟨0, 0, 7, none⟩, .none, ∅⟩
      contracts := Finmap.singleton 7 [96, 0]
      blockHashes := Finmap.singleton 3 2 }
  stateSnapshot := ⟨∅, ∅, Finmap.singleton 3 1⟩

/-- A slot, the code of the second account, a block hash and the accounts to roll back to. -/
def answers (s : ForkDbStateSnapshot) : Except DatabaseError U256 ×
    Except DatabaseError (List UInt8) × Except DatabaseError B256 × Option Nat :=
  ((s.asRef (readThrough emptyRemote)).storageRef 1 0,
    getCodeWithState 0 (s.asRef (readThrough emptyRemote)) 2,
    (s.asRef (readThrough emptyRemote)).blockHashRef 3, s.maybeAsFullDb.map (·.keys.card))

/-- None of them survives: the slot reads as at the remote, the code of the second account went
to the first, the local block hash comes before the fetched one, and rolling back finds no
accounts. -/
theorem spilled_loses_state :
    sampleFork.answers = (.ok 5, .ok [96, 0], .ok 1, some 2) ∧
    (sampleFork.spilled ascendingDbOrder).answers =
      (.ok 0, .error ⟨"missing code"⟩, .ok 2, some 0) := by
  decide +kernel

end ForkDbStateSnapshot

end BaseAnvil.Chain

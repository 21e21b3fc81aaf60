import BaseAnvil.Forks.Select

/-!
# BaseAnvil.Forks.Persistent

What a persistent account looks like after another fork is selected.

The account is copied twice, once from journaled state to journaled state and once from
cache to cache. The first copy brings the whole account, but only if the active journaled
state has it. The second brings the slots, and the rest of the account only if the cache of
the target does not have it. So an account that is in the active cache only is hidden by
whatever the target has of it, be it in its journaled state or in its cache, and by the
empty account that the target gets for the caller.
-/

namespace BaseAnvil.Forks

open Lib Chain HashMap
open Pool (B256 Address)

namespace Backend

variable {host : Host} {ord : DbOrder} {a caller : Address} {b b' : Backend} {env env' : Env}
  {active journaledState : JournaledState}

/-! ### What is read of a persistent account -/

section View

variable (host : Host) (b : Backend) (j : JournaledState)

/-- Nonce, balance and code hash, those of the empty account if there is none. -/
def readSummary (address : Address) :
    Option (Except DatabaseError (UInt64 × U256 × B256)) :=
  (b.readBasic host j address).map
    (Except.map fun info => (info.getD (.default host.keccakEmpty)).summary)

/-- The slot is in the journaled state or in the active cache. -/
def HasSlot (address : Address) (slot : U256) : Prop :=
  ((j.state.lookup address).bind (·.storage.lookup slot)).isSome ∨
    ((b.db.bind (·.cache.accounts.lookup address)).bind (·.storage.lookup slot)).isSome

end View

/-- The account looks in `b'` as it did in `b`: its nonce, balance and code hash, and the slots that
`b` has of it. -/
structure SameView (host : Host) (address : Address) (b : Backend) (j : JournaledState)
    (b' : Backend) (j' : JournaledState) : Prop where
  summary : b'.readSummary host j' address = b.readSummary host j address
  storage : ∀ slot, b.HasSlot j address slot →
    b'.readStorage host j' address slot = b.readStorage host j address slot

/-- What a cache has of an account. -/
def cachedSummary (host : Host) (acc : DbAccount) : UInt64 × U256 × B256 :=
  (acc.existing.getD (.default host.keccakEmpty)).summary

/-- What the target has of an account that is not in the active journaled state, or gets as
the caller: it is seen instead of what the active cache has. -/
def hidingSummary (host : Host) (caller address : Address) (target : Fork) :
    Option (UInt64 × U256 × B256) :=
  match target.journaledState.state.lookup address with
  | some acc => some acc.info.summary
  | none =>
    if address = caller then some (AccountInfo.default host.keccakEmpty).summary
    else (target.db.cache.accounts.lookup address).map (cachedSummary host)

/-- A slot that the active cache has, and the active journaled state has not, gets out of sight
or comes into sight: that of an account marked as created in the journaled state of the
target, or in the active one. -/
def SlotMoves (caller address : Address) (active : JournaledState) (target : Fork) (slot : U256) :
    Prop :=
  match active.state.lookup address, target.journaledState.state.lookup address with
  | none, some forkAccount => forkAccount.created ∧ forkAccount.storage.lookup slot = none
  | some acc, some forkAccount =>
    acc.created ∧ acc.storage.lookup slot = none ∧
      (forkAccount.storage.lookup slot).isSome ∧
      ¬(address = caller ∧ target.journaledState.depth = 0)
  | _, none => False

/-- The view survives: nothing else hides what the active cache has of an account, and slots
that move are zero. -/
structure ViewKept (host : Host) (caller address : Address) (active : JournaledState)
    (cache : CacheDb) (target : Fork) : Prop where
  summary : active.state.lookup address = none → ∀ acc, cache.accounts.lookup address = some acc →
    ∀ summary, hidingSummary host caller address target = some summary →
      summary = cachedSummary host acc
  storage : ∀ acc slot value, cache.accounts.lookup address = some acc →
    acc.storage.lookup slot = some value → SlotMoves caller address active target slot → value = 0

/-! ### Before and after -/

section View

variable {j : JournaledState} {d : ForkDb} {account : Account} {acc : DbAccount} {slot : U256}

theorem readStorage_of_slot {value : EvmStorageSlot} (hj : j.state.lookup a = some account)
    (hslot : account.storage.lookup slot = some value) :
    b.readStorage host j a slot = some (.ok value.presentValue) := by
  unfold readStorage
  rw [hj]
  dsimp only
  rw [hslot]

theorem readStorage_of_lacking (hj : j.state.lookup a = some account)
    (hslot : account.storage.lookup slot = none) : b.readStorage host j a slot =
      if account.created then some (.ok 0)
      else b.db.map fun d => (host.asRef d).storageRef a slot := by
  unfold readStorage
  rw [hj]
  dsimp only
  rw [hslot]

theorem readStorage_of_none (hj : j.state.lookup a = none) :
    b.readStorage host j a slot = b.db.map fun d => (host.asRef d).storageRef a slot := by
  unfold readStorage
  rw [hj]

theorem readSummary_of_some (hj : j.state.lookup a = some account) :
    b.readSummary host j a = some (.ok account.info.summary) := by
  unfold readSummary readBasic
  rw [hj]
  rfl

variable {value : U256}

theorem readSummary_of_none (hj : j.state.lookup a = none) (hb : b.db = some d)
    (hd : d.cache.accounts.lookup a = some acc) :
    b.readSummary host j a = some (.ok (cachedSummary host acc)) := by
  unfold readSummary readBasic
  rw [hj, hb]
  simp only [Option.map_some, host.basicRef_of_some hd]
  rfl

theorem mergedAccount_some (fork : Option Account) :
    ∃ storage, mergedAccount (some account) fork = some { account with storage := storage } ∧
      ∀ slot, storage.lookup slot =
        (account.storage.lookup slot).or (fork.bind (·.storage.lookup slot)) := by
  cases fork with
  | none => exact ⟨account.storage, rfl, fun slot => (Option.or_none).symm⟩
  | some forkAccount => exact ⟨_, rfl, fun slot => lookup_extend _⟩

theorem mergedDbAccount_some (fork : Option DbAccount) :
    ∃ merged, mergedDbAccount (some acc) fork = some merged ∧
      (∀ slot value, acc.storage.lookup slot = some value →
        merged.storage.lookup slot = some value) ∧
      merged.existing = (fork.getD acc).existing := by
  cases fork with
  | none => exact ⟨acc, rfl, fun _ _ h => h, rfl⟩
  | some forkAccount =>
    refine ⟨_, rfl, fun slot value h => ?_, rfl⟩
    rw [lookup_extend, h]
    rfl

theorem slotMoves_of_some {target : Fork} (hj : active.state.lookup a = some account)
    (hlacks : account.storage.lookup slot = none) :
    SlotMoves caller a active target slot ↔
      account.created ∧ (startedSlot caller a target slot).isSome := by
  unfold SlotMoves startedSlot
  rw [hj]
  cases target.journaledState.state.lookup a with
  | none => simp
  | some forkAccount =>
    by_cases hcaller : a = caller ∧ target.journaledState.depth = 0
    · simp [hcaller]
    · simp [hcaller, hlacks]

theorem slotMoves_of_none {target : Fork} (hj : active.state.lookup a = none) :
    SlotMoves caller a active target slot ↔
      ∃ forkAccount, target.journaledState.state.lookup a = some forkAccount ∧
        forkAccount.created ∧ forkAccount.storage.lookup slot = none := by
  unfold SlotMoves
  rw [hj]
  cases target.journaledState.state.lookup a with
  | none => simp
  | some forkAccount => simp

variable {d' : ForkDb} {j' : JournaledState} {target : Fork} {readiedAccount : Option Account}
  {fork : Option DbAccount}

/-- A slot of the active cache is seen as before unless it moves: the account is in the active
journaled state. -/
theorem readStorage_of_merged
    (hj : active.state.lookup a = some account) (hlacks : account.storage.lookup slot = none)
    (hb : b.db = some d) (hd : d.cache.accounts.lookup a = some acc)
    (hvalue : acc.storage.lookup slot = some value)
    (hb' : b'.db = some d') (hd' : d'.cache.accounts.lookup a = mergedDbAccount (some acc) fork)
    (hj' : j'.state.lookup a = mergedAccount (some account) readiedAccount)
    (hready : readiedAccount.bind (·.storage.lookup slot) =
      (startedSlot caller a target slot).map ({ · with presentValue := value })) :
    b'.readStorage host j' a slot = b.readStorage host active a slot ↔
      (SlotMoves caller a active target slot → value = 0) := by
  obtain ⟨storage, hmerged, hstorage⟩ := mergedAccount_some readiedAccount
  obtain ⟨merged, hmergedDb, hslots, -⟩ := mergedDbAccount_some fork
  have hslot := hstorage slot
  rw [hlacks, Option.none_or, hready] at hslot
  rw [hmerged] at hj'
  rw [hmergedDb] at hd'
  have hbefore : b.readStorage host active a slot =
      some (.ok (if account.created then 0 else value)) := by
    rw [readStorage_of_lacking hj hlacks, hb, Option.map_some, host.storageRef_of_slot hd hvalue]
    split <;> rfl
  rw [slotMoves_of_some hj hlacks, hbefore]
  cases hstarted : startedSlot caller a target slot with
  | none =>
    rw [hstarted] at hslot
    rw [readStorage_of_lacking hj' hslot, hb', Option.map_some,
      host.storageRef_of_slot hd' (hslots slot value hvalue)]
    cases account.created <;> simp
  | some old =>
    rw [hstarted] at hslot
    rw [readStorage_of_slot hj' hslot]
    cases account.created <;> simp

/-- The same for an account that is in the active cache only. -/
theorem readStorage_of_cached {slots : List (U256 × U256)}
    {readiedCaller : Option Account} (hj : active.state.lookup a = none) (hb : b.db = some d)
    (hd : d.cache.accounts.lookup a = some acc) (hvalue : acc.storage.lookup slot = some value)
    (hb' : b'.db = some d') (hd' : d'.cache.accounts.lookup a = mergedDbAccount (some acc) fork)
    (hlast : lastValue slots slot = some value)
    (hcaller : ∀ account, readiedCaller = some account →
      account.created = false ∧ account.storage.lookup slot = none)
    (hj' : j'.state.lookup a =
      ((target.journaledState.state.lookup a).map (syncStorage · slots)).or readiedCaller) :
    b'.readStorage host j' a slot = b.readStorage host active a slot ↔
      (SlotMoves caller a active target slot → value = 0) := by
  obtain ⟨merged, hmergedDb, hslots, -⟩ := mergedDbAccount_some fork
  rw [hmergedDb] at hd'
  have hbefore : b.readStorage host active a slot = some (.ok value) := by
    rw [readStorage_of_none hj, hb, Option.map_some, host.storageRef_of_slot hd hvalue]
  have hbelow : (b'.db.map fun d => (host.asRef d).storageRef a slot) = some (.ok value) := by
    rw [hb', Option.map_some, host.storageRef_of_slot hd' (hslots slot value hvalue)]
  rw [slotMoves_of_none hj, hbefore]
  cases htarget : target.journaledState.state.lookup a with
  | none =>
    rw [htarget] at hj'
    refine iff_of_true ?_ (by simp)
    cases readiedCaller with
    | none => rw [readStorage_of_none hj', hbelow]
    | some account =>
      obtain ⟨hcreated, hlacks⟩ := hcaller account rfl
      rw [readStorage_of_lacking hj' hlacks, hcreated, hbelow]
      rfl
  | some forkAccount =>
    rw [htarget] at hj'
    obtain ⟨-, hcreated, hstorage⟩ := syncStorage_spec forkAccount slots
    have hslot := hstorage slot
    rw [hlast] at hslot
    cases hold : forkAccount.storage.lookup slot with
    | none =>
      rw [hold] at hslot
      rw [readStorage_of_lacking hj' hslot, hcreated, hbelow]
      cases hc : forkAccount.created with
      | false => simp [hc]
      | true =>
        simp only [if_true, Option.some.injEq, Except.ok.injEq]
        exact ⟨fun heq _ => heq.symm, fun hzero => (hzero ⟨forkAccount, rfl, hc, hold⟩).symm⟩
    | some old =>
      rw [hold] at hslot
      rw [readStorage_of_slot hj' hslot]
      simp [hold]

/-- The two parts of the view, for an account in the active journaled state. -/
theorem sameView_of_some (hj : active.state.lookup a = some account) (hb : b.db = some d)
    (hj' : j'.state.lookup a = mergedAccount (some account) readiedAccount)
    (hslot : ∀ acc slot value, d.cache.accounts.lookup a = some acc →
      acc.storage.lookup slot = some value → account.storage.lookup slot = none →
      (b'.readStorage host j' a slot = b.readStorage host active a slot ↔
        (SlotMoves caller a active target slot → value = 0))) :
    SameView host a b active b' j' ↔ ViewKept host caller a active d.cache target := by
  obtain ⟨storage, hmerged, hstorage⟩ := mergedAccount_some readiedAccount
  rw [hmerged] at hj'
  constructor
  · intro h
    refine ⟨fun hnone => (nomatch hj.symm.trans hnone), fun acc slot value hacc hvalue hmoves => ?_⟩
    cases hlacks : account.storage.lookup slot with
    | none =>
      have hhas : b.HasSlot active a slot := Or.inr (by simp [hb, hacc, hvalue])
      exact (hslot acc slot value hacc hvalue hlacks).mp (h.storage slot hhas) hmoves
    | some present =>
      unfold SlotMoves at hmoves
      rw [hj] at hmoves
      cases htarget : target.journaledState.state.lookup a with
      | none => simp [htarget] at hmoves
      | some forkAccount => simp [htarget, hlacks] at hmoves
  · intro h
    refine ⟨by rw [readSummary_of_some hj, readSummary_of_some hj'], fun slot hhas => ?_⟩
    cases hlacks : account.storage.lookup slot with
    | some present =>
      have hpresent := hstorage slot
      rw [hlacks] at hpresent
      rw [readStorage_of_slot hj hlacks, readStorage_of_slot hj' hpresent]
    | none =>
      rcases hhas with hhas | hhas
      · simp [hj, hlacks] at hhas
      · rw [hb, Option.bind_some] at hhas
        obtain ⟨value, hvalue⟩ := Option.isSome_iff_exists.mp hhas
        obtain ⟨acc, hacc, hvalue⟩ := Option.bind_eq_some_iff.mp hvalue
        exact (hslot acc slot value hacc hvalue hlacks).mpr (h.storage acc slot value hacc hvalue)

/-- The two parts of the view, for an account that is in the active cache only. -/
theorem sameView_of_none (hj : active.state.lookup a = none) (hb : b.db = some d)
    (hd : d.cache.accounts.lookup a = some acc)
    (hsummary : b'.readSummary host j' a = b.readSummary host active a ↔
      ∀ summary, hidingSummary host caller a target = some summary →
        summary = cachedSummary host acc)
    (hslot : ∀ slot value, acc.storage.lookup slot = some value →
      (b'.readStorage host j' a slot = b.readStorage host active a slot ↔
        (SlotMoves caller a active target slot → value = 0))) :
    SameView host a b active b' j' ↔ ViewKept host caller a active d.cache target := by
  constructor
  · intro h
    refine ⟨fun _ acc' hacc => ?_, fun acc' slot value hacc hvalue => ?_⟩
    · cases hd.symm.trans hacc
      exact hsummary.mp h.summary
    · cases hd.symm.trans hacc
      have hhas : b.HasSlot active a slot := Or.inr (by simp [hb, hd, hvalue])
      exact (hslot slot value hvalue).mp (h.storage slot hhas)
  · intro h
    refine ⟨hsummary.mpr (h.summary hj acc hd), fun slot hhas => ?_⟩
    rcases hhas with hhas | hhas
    · simp [hj] at hhas
    · rw [hb, Option.bind_some, hd, Option.bind_some] at hhas
      obtain ⟨value, hvalue⟩ := Option.isSome_iff_exists.mp hhas
      exact (hslot slot value hvalue).mpr (h.storage acc slot value hd hvalue)

/-- What is seen of an account that is in the active cache only. -/
theorem readSummary_of_cached {slots : List (U256 × U256)}
    (hj : active.state.lookup a = none) (hb : b.db = some d)
    (hd : d.cache.accounts.lookup a = some acc) (hb' : b'.db = some d')
    (hd' : d'.cache.accounts.lookup a = mergedDbAccount (some acc) fork)
    (hfork : a ≠ caller → fork = target.db.cache.accounts.lookup a)
    (hj' : j'.state.lookup a =
      ((target.journaledState.state.lookup a).map (syncStorage · slots)).or
        (if a = caller then some (.ofInfo (.default host.keccakEmpty)) else none)) :
    b'.readSummary host j' a = b.readSummary host active a ↔
      ∀ summary, hidingSummary host caller a target = some summary →
        summary = cachedSummary host acc := by
  rw [readSummary_of_none hj hb hd]
  unfold hidingSummary
  cases htarget : target.journaledState.state.lookup a with
  | some forkAccount =>
    rw [htarget] at hj'
    rw [readSummary_of_some hj', (syncStorage_spec forkAccount slots).1]
    simp
  | none =>
    rw [htarget, Option.map_none, Option.none_or] at hj'
    by_cases hcaller : a = caller
    · rw [if_pos hcaller] at hj'
      rw [readSummary_of_some hj']
      simp [hcaller, Account.ofInfo]
    · rw [if_neg hcaller] at hj'
      obtain ⟨merged, hmerged, -, hexisting⟩ := mergedDbAccount_some fork
      rw [hmerged] at hd'
      rw [readSummary_of_none hj' hb' hd', cachedSummary, hexisting, hfork hcaller]
      cases target.db.cache.accounts.lookup a <;> simp [hcaller, cachedSummary]

end View

/-- **Persistent accounts.** A persistent account that is in the active journaled state or in the
active cache looks the same after another fork is selected, if and only if the target hides nothing
of it. -/
theorem sameView_iff {activeId id : LocalForkId} {activeIdx : ForkLookupIndex} {activeFork : Fork}
    {responses : SelectResponses} (hactive : b.activeForkIds = some (activeId, activeIdx))
    (hfork : b.inner.getFork activeIdx = some activeFork)
    (hselect : b.selectFork host ord id env active responses =
      some (.ok (), b', env', journaledState))
    (hpersistent : a ∈ b.inner.persistentAccounts)
    (hknown : (active.state.lookup a).isSome ∨
      (activeFork.db.cache.accounts.lookup a).isSome) :
    SameView host a b active b' journaledState ↔ id = activeId ∨
      ∀ target, b.targetFork id = some target →
        ViewKept host env.tx.caller a active activeFork.db.cache target := by
  by_cases hid : id = activeId
  · refine iff_of_true ?_ (Or.inl hid)
    have hsame : b.isActiveFork id := by simp [isActiveFork, activeForkId, hactive, hid]
    rcases selectFork_inv hselect with ⟨rfl, rfl, -⟩ | ⟨_, _, herr, -⟩ | ⟨_, _, _, _, hnot, -⟩
    · exact ⟨rfl, fun _ _ => rfl⟩
    · cases herr
    · exact absurd hsame hnot
  · obtain ⟨activeFork', target, started, hfork', htarget, hstarted, hjournal, hb'⟩ :=
      selectFork_of_active hactive hid hselect
    cases hfork.symm.trans hfork'
    have hb : b.db = some activeFork.db := by
      unfold db
      rw [hactive]
      show (b.inner.getFork activeIdx).map _ = _
      rw [hfork]
      rfl
    have hnodup := ord.addresses.nodup b.inner.persistentAccounts
    have hmem := (ord.addresses.mem_toList _ _).mpr hpersistent
    generalize ord.addresses.toList b.inner.persistentAccounts = persistent
      at hnodup hmem hjournal hb'
    obtain ⟨hj', hd'⟩ := @mergeAccountData_spec a persistent hnodup
      (syncPersistent host ord activeFork.db started.journaledState persistent).1.cache active
      (readied host ord persistent env.tx.caller active activeFork.db started)
    rw [if_pos hmem, ← hjournal] at hj'
    rw [if_pos hmem] at hd'
    have hkept : (id = activeId ∨ ∀ target', b.targetFork id = some target' →
        ViewKept host env.tx.caller a active activeFork.db.cache target') ↔
        ViewKept host env.tx.caller a active activeFork.db.cache target := by
      simp [hid, htarget]
    rw [hkept]
    cases hj : active.state.lookup a with
    | some account =>
      rw [hj] at hj'
      refine sameView_of_some hj hb hj' fun acc slot value hacc hvalue hlacks => ?_
      rw [(syncPersistent_spec hnodup hacc).1] at hd'
      exact readStorage_of_merged hj hlacks hb hacc hvalue hb' hd' hj'
        (readied_slot hnodup hmem hacc hvalue hj hlacks hstarted)
    | none =>
      rw [hj] at hj' hknown
      obtain ⟨acc, hacc⟩ := Option.isSome_iff_exists.mp (hknown.resolve_left (by simp))
      rw [(syncPersistent_spec hnodup hacc).1] at hd'
      obtain ⟨hstate, hcache⟩ := @readied_of_none host ord a env.tx.caller active persistent
        activeFork.db target started acc hnodup hmem hacc hj hstarted
      replace hj' := hj'.trans hstate
      refine sameView_of_none hj hb hacc ?_ fun slot value hvalue => ?_
      · exact readSummary_of_cached hj hb hacc hb' hd' hcache hj'
      · refine readStorage_of_cached hj hb hacc hvalue hb' hd' ?_ ?_ hj'
        · rw [lastValue_entries, hvalue]
        · intro account haccount
          split at haccount
          · cases haccount
            exact ⟨rfl, Finmap.lookup_empty slot⟩
          · cases haccount

/-! ### A persistent account in two caches -/

def sampleFork (balance : U256) : Fork where
  db := ⟨⟨Finmap.singleton 0xAB ⟨⟨balance, 1, 0, none⟩, .none, ∅⟩, ∅, ∅⟩, sampleDb⟩
  journaledState := .empty

/-- Two forks whose caches have a persistent account, the first one active. -/
def sampleForks (activeBalance targetBalance : U256) : Backend where
  memDb := ⟨.empty, sampleDb⟩
  forkInitJournaledState := .empty
  activeForkIds := some (0, 0)
  inner :=
    { issuedLocalForkIds := (Finmap.singleton 0 ⟨"a"⟩).insert 1 ⟨"b"⟩
      createdForks := (Finmap.singleton ⟨"a"⟩ 0).insert ⟨"b"⟩ 1
      forks := [some (sampleFork activeBalance), some (sampleFork targetBalance)]
      stateSnapshots := .new
      hasStateSnapshotFailure := false
      nextForkId := 2
      persistentAccounts := {0xAB} }

/-- Selecting the second fork succeeds, and shows this of the account. -/
theorem exists_selectFork_sampleForks {activeBalance targetBalance : U256}
    {seen : UInt64 × U256 × B256}
    (h : ((sampleForks activeBalance targetBalance).selectFork sampleHost ascendingDbOrder 1
        sampleEnv .empty ⟨.ok (), .ok (some sampleEnv)⟩).map
        (fun r => (r.1.toOption,
          (r.2.1.readSummary sampleHost r.2.2.2 0xAB).bind Except.toOption)) =
      some (some (), some seen)) :
    ∃ b' env' j', (sampleForks activeBalance targetBalance).selectFork sampleHost ascendingDbOrder 1
        sampleEnv .empty ⟨.ok (), .ok (some sampleEnv)⟩ = some (.ok (), b', env', j') ∧
      (b'.readSummary sampleHost j' 0xAB).bind Except.toOption = some seen := by
  obtain ⟨⟨res, b', env', j'⟩, hselect, heq⟩ := Option.map_eq_some_iff.mp h
  obtain ⟨hres, hseen⟩ := Prod.mk.inj heq
  cases res with
  | error err => cases hres
  | ok u => exact ⟨b', env', j', hselect, hseen⟩

/-- The caches of both forks have the account with the same balance. -/
theorem sameView_iff_agreeing : ∃ b' env' j',
    (sampleForks 7 7).selectFork sampleHost ascendingDbOrder 1 sampleEnv .empty
      ⟨.ok (), .ok (some sampleEnv)⟩ = some (.ok (), b', env', j') ∧
    SameView sampleHost 0xAB (sampleForks 7 7) .empty b' j' := by
  obtain ⟨b', env', j', hselect, -⟩ :=
    @exists_selectFork_sampleForks 7 7 (1, 7, 0) (by decide +kernel)
  refine ⟨b', env', j', hselect, ?_⟩
  refine (@sameView_iff sampleHost ascendingDbOrder 0xAB _ b' sampleEnv env' .empty j' 0 1 0
    (sampleFork 7) _ rfl rfl hselect (by decide) (Or.inr (by decide +kernel))).mpr (Or.inr ?_)
  intro target htarget
  obtain rfl : sampleFork 7 = target := by
    rw [show (sampleForks 7 7).targetFork 1 = some (sampleFork 7) from rfl] at htarget
    exact Option.some.inj htarget
  have hcached : (sampleFork 7).db.cache.accounts.lookup 0xAB =
      some ⟨⟨7, 1, 0, none⟩, .none, ∅⟩ := by
    decide +kernel
  have hhiding : hidingSummary sampleHost sampleEnv.tx.caller 0xAB (sampleFork 7) =
      some (1, 7, 0) := by
    decide +kernel
  refine ⟨fun _ acc hacc summary hsummary => ?_, fun acc slot value hacc hvalue _ => ?_⟩
  · cases hcached.symm.trans hacc
    exact (Option.some.inj (hhiding.symm.trans hsummary)).symm
  · cases hcached.symm.trans hacc
    cases (Finmap.lookup_empty slot).symm.trans hvalue

/-- An account that is in the active cache with a balance of 7 and in that of the target with
a balance of 3. -/
theorem cached_account_hidden : ∃ b' env' j',
    (sampleForks 7 3).selectFork sampleHost ascendingDbOrder 1 sampleEnv .empty
      ⟨.ok (), .ok (some sampleEnv)⟩ = some (.ok (), b', env', j') ∧
    ¬SameView sampleHost 0xAB (sampleForks 7 3) .empty b' j' := by
  obtain ⟨b', env', j', hselect, hseen⟩ :=
    @exists_selectFork_sampleForks 7 3 (1, 3, 0) (by decide +kernel)
  refine ⟨b', env', j', hselect, fun h => ?_⟩
  have hbefore : ((sampleForks 7 3).readSummary sampleHost .empty 0xAB).bind Except.toOption =
      some (1, 7, 0) := by
    decide +kernel
  rw [h.summary, hbefore] at hseen
  exact absurd hseen (by decide +kernel)

end Backend

end BaseAnvil.Forks
